import Mathlib

/-!
# Heaps over a comparator and the lists they represent

A heap is a list laid out in level order in which no element is greater than
its parent.  The two heap algorithms are described by their interface alone:
`HeapAlgorithms` bundles a push and a pop with what the C++ standard promises
about them, so a client proof cannot depend on how elements with incomparable
keys are arranged.

When the keys of the stored elements are pairwise comparable, a heap stands
for exactly one sorted list.  `Represents` is that relation; pushing, popping
and rewriting the front are then the corresponding operations on the list.
-/

namespace PpiwTrading.Heap

universe u

/-- The comparator requirement shared by the heap algorithms. -/
structure StrictWeak {α : Type u} (lt : α → α → Bool) : Prop where
  asymm : ∀ {a b}, lt a b = true → lt b a = false
  negTrans : ∀ {a b c}, lt a b = false → lt b c = false → lt a c = false

namespace StrictWeak

variable {α : Type u} {lt : α → α → Bool}

theorem irrefl (weak : StrictWeak lt) (a : α) : lt a a = false := by
  cases equal : lt a a with
  | false => rfl
  | true => exact equal.symm.trans (weak.asymm equal)

theorem trans (weak : StrictWeak lt) {a b c : α} (first : lt a b = true)
    (second : lt b c = true) : lt a c = true := by
  cases equal : lt a c with
  | true => rfl
  | false =>
      have contradictory := weak.negTrans equal (weak.asymm second)
      rw [first] at contradictory
      contradiction

end StrictWeak

/-- No element of the level-order layout is greater than its parent. -/
def IsHeap {α : Type u} (lt : α → α → Bool) (heap : List α) : Prop :=
  ∀ i parent child, 0 < i → heap[(i - 1) / 2]? = some parent →
    heap[i]? = some child → lt parent child = false

variable {α : Type u} {lt : α → α → Bool}

@[simp]
theorem isHeap_nil : IsHeap lt [] := by
  intro i parent child _ _ childAt
  simp at childAt

/-- The front of a heap is not below any of its elements. -/
theorem IsHeap.front_maximal (weak : StrictWeak lt) {front : α} {rest : List α}
    (isHeap : IsHeap lt (front :: rest)) :
    ∀ a ∈ front :: rest, lt front a = false := by
  have atIndex : ∀ (i : Nat) (a : α), (front :: rest)[i]? = some a → lt front a = false := by
    intro i
    induction i using Nat.strongRecOn with
    | ind i inductionHypothesis =>
        intro a elementAt
        by_cases zero : i = 0
        · subst zero
          simp only [List.getElem?_cons_zero, Option.some.injEq] at elementAt
          subst elementAt
          exact weak.irrefl front
        · have inRange : i < (front :: rest).length :=
            (List.getElem?_eq_some_iff.mp elementAt).1
          have parentAt : (front :: rest)[(i - 1) / 2]? =
              some ((front :: rest)[(i - 1) / 2]) :=
            List.getElem?_eq_getElem (by omega)
          exact weak.negTrans (inductionHypothesis _ (by omega) _ parentAt)
            (isHeap i _ _ (by omega) parentAt elementAt)
  intro a member
  obtain ⟨i, elementAt⟩ := List.mem_iff_getElem?.mp member
  exact atIndex i a elementAt

/-- Two elements the comparator cannot tell apart. -/
def SameKey (lt : α → α → Bool) (a b : α) : Prop :=
  ∀ c, lt a c = lt b c ∧ lt c a = lt c b

/-- Rewriting the front without touching its key keeps the heap. -/
theorem IsHeap.replace_front {front front' : α} {rest : List α}
    (isHeap : IsHeap lt (front :: rest)) (sameKey : SameKey lt front front') :
    IsHeap lt (front' :: rest) := by
  intro i parent child positive parentAt childAt
  obtain ⟨j, rfl⟩ := Nat.exists_eq_succ_of_ne_zero positive.ne'
  have childAt' : (front :: rest)[j + 1]? = some child := by simpa using childAt
  cases parentIndex : (j + 1 - 1) / 2 with
  | zero =>
      rw [parentIndex] at parentAt
      simp only [List.getElem?_cons_zero, Option.some.injEq] at parentAt
      subst parentAt
      rw [← (sameKey child).1]
      exact isHeap (j + 1) front child positive (by rw [parentIndex]; rfl) childAt'
  | succ k =>
      rw [parentIndex] at parentAt
      exact isHeap (j + 1) parent child positive
        (by rw [parentIndex]; simpa using parentAt) childAt'

/-- A push and a pop that meet the specification of `std::push_heap` and
`std::pop_heap`.  Nothing is promised when the range handed over is not a
heap. -/
structure HeapAlgorithms where
  pushHeap : {α : Type} → (α → α → Bool) → List α → List α
  popHeap : {α : Type} → (α → α → Bool) → List α → List α
  pushHeap_perm : ∀ {α : Type} {lt : α → α → Bool} {heap : List α} {a : α},
    StrictWeak lt → IsHeap lt heap → (pushHeap lt (heap ++ [a])).Perm (a :: heap)
  pushHeap_isHeap : ∀ {α : Type} {lt : α → α → Bool} {heap : List α} {a : α},
    StrictWeak lt → IsHeap lt heap → IsHeap lt (pushHeap lt (heap ++ [a]))
  popHeap_spec : ∀ {α : Type} {lt : α → α → Bool} {front : α} {rest : List α},
    StrictWeak lt → IsHeap lt (front :: rest) →
      ∃ rest', popHeap lt (front :: rest) = rest' ++ [front] ∧
        rest'.Perm rest ∧ IsHeap lt rest'

/-- The algorithms reach the elements only through the comparator and moves, so
they cannot tell a range from its image under a map that keeps the comparisons. -/
structure HeapAlgorithms.Natural (algorithms : HeapAlgorithms) : Prop where
  pushHeap_map : ∀ {α β : Type} {lt : α → α → Bool} {lt' : β → β → Bool} {f : α → β},
    (∀ a b, lt' (f a) (f b) = lt a b) → ∀ heap : List α,
      algorithms.pushHeap lt' (heap.map f) = (algorithms.pushHeap lt heap).map f
  popHeap_map : ∀ {α β : Type} {lt : α → α → Bool} {lt' : β → β → Bool} {f : α → β},
    (∀ a b, lt' (f a) (f b) = lt a b) → ∀ heap : List α,
      algorithms.popHeap lt' (heap.map f) = (algorithms.popHeap lt heap).map f

namespace HeapAlgorithms

variable {α : Type} {lt : α → α → Bool}

/-- `push_back` followed by `push_heap`. -/
def insert (algorithms : HeapAlgorithms) (lt : α → α → Bool) (heap : List α)
    (a : α) : List α :=
  algorithms.pushHeap lt (heap ++ [a])

/-- `pop_heap` followed by `pop_back`. -/
def removeFirst (algorithms : HeapAlgorithms) (lt : α → α → Bool)
    (heap : List α) : List α :=
  (algorithms.popHeap lt heap).dropLast

variable (algorithms : HeapAlgorithms)

theorem insert_perm (weak : StrictWeak lt) {heap : List α}
    (isHeap : IsHeap lt heap) (a : α) :
    (algorithms.insert lt heap a).Perm (a :: heap) :=
  algorithms.pushHeap_perm weak isHeap

theorem insert_isHeap (weak : StrictWeak lt) {heap : List α}
    (isHeap : IsHeap lt heap) (a : α) : IsHeap lt (algorithms.insert lt heap a) :=
  algorithms.pushHeap_isHeap weak isHeap

theorem removeFirst_perm (weak : StrictWeak lt) {front : α} {rest : List α}
    (isHeap : IsHeap lt (front :: rest)) :
    (algorithms.removeFirst lt (front :: rest)).Perm rest := by
  obtain ⟨rest', popped, perm, _⟩ := algorithms.popHeap_spec weak isHeap
  simpa [removeFirst, popped] using perm

theorem removeFirst_isHeap (weak : StrictWeak lt) {front : α} {rest : List α}
    (isHeap : IsHeap lt (front :: rest)) :
    IsHeap lt (algorithms.removeFirst lt (front :: rest)) := by
  obtain ⟨rest', popped, _, isHeap'⟩ := algorithms.popHeap_spec weak isHeap
  simpa [removeFirst, popped] using isHeap'

section Natural

variable {algorithms : HeapAlgorithms} {β : Type} {lt' : β → β → Bool} {f : α → β}

theorem Natural.insert_map (natural : algorithms.Natural)
    (keeps : ∀ a b, lt' (f a) (f b) = lt a b) (heap : List α) (a : α) :
    algorithms.insert lt' (heap.map f) (f a) = (algorithms.insert lt heap a).map f := by
  have appended : heap.map f ++ [f a] = (heap ++ [a]).map f := by simp
  rw [insert, insert, appended, natural.pushHeap_map keeps]

theorem Natural.removeFirst_map (natural : algorithms.Natural)
    (keeps : ∀ a b, lt' (f a) (f b) = lt a b) (heap : List α) :
    algorithms.removeFirst lt' (heap.map f) = (algorithms.removeFirst lt heap).map f := by
  rw [removeFirst, removeFirst, natural.popHeap_map keeps, List.map_dropLast]

end Natural

end HeapAlgorithms

/-! ## Heaps with pairwise comparable keys -/

/-- `heap` is a heap layout of the list `sorted`, which runs from the greatest
element down. -/
structure Represents (lt : α → α → Bool) (heap sorted : List α) : Prop where
  isHeap : IsHeap lt heap
  perm : heap.Perm sorted
  sorted : sorted.Pairwise fun a b => lt b a = true

namespace Represents

theorem nil : Represents lt [] [] :=
  ⟨isHeap_nil, List.Perm.nil, List.Pairwise.nil⟩

theorem eq_nil {heap : List α} (represents : Represents lt heap []) : heap = [] :=
  represents.perm.eq_nil

/-- A sorted list is a heap layout of itself. -/
theorem refl (weak : StrictWeak lt) {sorted : List α}
    (ordered : sorted.Pairwise fun a b => lt b a = true) : Represents lt sorted sorted where
  isHeap := by
    intro i parent child positive parentAt childAt
    rcases List.getElem?_eq_some_iff.mp parentAt with ⟨parentRange, rfl⟩
    rcases List.getElem?_eq_some_iff.mp childAt with ⟨childRange, rfl⟩
    exact weak.asymm (List.pairwise_iff_getElem.mp ordered _ _ parentRange childRange (by omega))
  perm := List.Perm.refl sorted
  sorted := ordered

/-- The front of the heap is the head of the list it represents. -/
theorem exists_cons (weak : StrictWeak lt) {heap sorted : List α} {first : α}
    (represents : Represents lt heap (first :: sorted)) :
    ∃ rest, heap = first :: rest := by
  cases heap with
  | nil => exact absurd represents.perm.symm (by simp)
  | cons front rest =>
      refine ⟨rest, ?_⟩
      have member : front ∈ first :: sorted :=
        represents.perm.subset List.mem_cons_self
      rcases List.mem_cons.mp member with equal | later
      · rw [equal]
      · have below := (List.pairwise_cons.mp represents.sorted).1 front later
        have maximal := represents.isHeap.front_maximal weak first
          (represents.perm.symm.subset List.mem_cons_self)
        rw [below] at maximal
        contradiction

/-- Rewriting the front in place rewrites the head of the list. -/
theorem replace_front {front front' : α} {rest sorted : List α}
    (represents : Represents lt (front :: rest) (front :: sorted))
    (sameKey : SameKey lt front front') :
    Represents lt (front' :: rest) (front' :: sorted) where
  isHeap := represents.isHeap.replace_front sameKey
  perm := represents.perm.cons_inv.cons front'
  sorted := by
    obtain ⟨below, sortedRest⟩ := List.pairwise_cons.mp represents.sorted
    refine List.pairwise_cons.mpr ⟨?_, sortedRest⟩
    intro a member
    rw [← (sameKey a).2]
    exact below a member

end Represents

section Operations

variable {α : Type} {lt : α → α → Bool} (algorithms : HeapAlgorithms)

/-- Removing the front of the heap removes the head of the list. -/
theorem Represents.removeFirst (weak : StrictWeak lt) {heap sorted : List α}
    {first : α} (represents : Represents lt heap (first :: sorted)) :
    Represents lt (algorithms.removeFirst lt heap) sorted := by
  obtain ⟨rest, rfl⟩ := represents.exists_cons weak
  exact
    { isHeap := algorithms.removeFirst_isHeap weak represents.isHeap
      perm := (algorithms.removeFirst_perm weak represents.isHeap).trans
        represents.perm.cons_inv
      sorted := (List.pairwise_cons.mp represents.sorted).2 }

/-- Insertion at the sorted position keeps a list strictly sorted when the new
element is comparable with every old one. -/
theorem pairwise_orderedInsert (weak : StrictWeak lt) {a : α} :
    ∀ {sorted : List α}, sorted.Pairwise (fun x y => lt y x = true) →
      (∀ b ∈ sorted, lt a b = true ∨ lt b a = true) →
      (sorted.orderedInsert (fun x y => lt y x = true) a).Pairwise
        fun x y => lt y x = true
  | [], _, _ => by simp
  | b :: rest, ordered, comparable => by
      obtain ⟨below, sortedRest⟩ := List.pairwise_cons.mp ordered
      by_cases before : lt b a = true
      · rw [List.orderedInsert_cons, if_pos before]
        refine List.pairwise_cons.mpr ⟨?_, ordered⟩
        intro c member
        rcases List.mem_cons.mp member with rfl | later
        · exact before
        · exact weak.trans (below c later) before
      · rw [List.orderedInsert_cons, if_neg before]
        refine List.pairwise_cons.mpr ⟨?_, ?_⟩
        · intro c member
          rcases (List.mem_orderedInsert _).mp member with rfl | later
          · exact (comparable b List.mem_cons_self).resolve_right before
          · exact below c later
        · exact pairwise_orderedInsert weak sortedRest fun c member =>
            comparable c (List.mem_cons_of_mem b member)

/-- Pushing on the heap inserts at the sorted position of the list. -/
theorem Represents.insert (weak : StrictWeak lt) {heap sorted : List α} {a : α}
    (represents : Represents lt heap sorted)
    (comparable : ∀ b ∈ sorted, lt a b = true ∨ lt b a = true) :
    Represents lt (algorithms.insert lt heap a)
      (sorted.orderedInsert (fun x y => lt y x = true) a) where
  isHeap := algorithms.insert_isHeap weak represents.isHeap a
  perm := ((algorithms.insert_perm weak represents.isHeap a).trans
    (represents.perm.cons a)).trans (List.perm_orderedInsert _ a sorted).symm
  sorted := pairwise_orderedInsert weak represents.sorted comparable

end Operations

end PpiwTrading.Heap
