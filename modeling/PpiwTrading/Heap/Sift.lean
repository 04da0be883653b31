import PpiwTrading.Heap.Core

/-!
# Binary sifting

The usual array implementation of the two heap algorithms: a pushed element is
swapped towards the front while its parent is below it, and a pop moves the
last element to the front and swaps it with its greater child while that child
is above it.  Both recursions carry an explicit bound so that they evaluate on
closed terms.

`binaryHeap` packages them as `HeapAlgorithms`; it is what shows that the
interface used by the rest of the development can be met.
-/

namespace PpiwTrading.Heap

universe u

variable {α : Type u} {lt : α → α → Bool}

/-- Swap the element at `i` with its parent while the parent is below it. -/
def siftUp (lt : α → α → Bool) : Nat → Nat → List α → List α
  | 0, _, heap => heap
  | bound + 1, i, heap =>
      match heap[(i - 1) / 2]?, heap[i]? with
      | some parent, some child =>
          if lt parent child then
            siftUp lt bound ((i - 1) / 2) (heap.swap i ((i - 1) / 2))
          else heap
      | _, _ => heap

/-- The position of the greater child of `i`, the right one on a tie. -/
def greaterChild (lt : α → α → Bool) (i : Nat) (heap : List α) : Option Nat :=
  match heap[2 * i + 1]?, heap[2 * i + 2]? with
  | none, _ => none
  | some _, none => some (2 * i + 1)
  | some left, some right =>
      if lt right left then some (2 * i + 1) else some (2 * i + 2)

/-- Swap the element at `i` with its greater child while that child is above
it. -/
def siftDown (lt : α → α → Bool) : Nat → Nat → List α → List α
  | 0, _, heap => heap
  | bound + 1, i, heap =>
      match greaterChild lt i heap with
      | none => heap
      | some c =>
          match heap[i]?, heap[c]? with
          | some parent, some child =>
              if lt parent child then siftDown lt bound c (heap.swap i c) else heap
          | _, _ => heap

theorem siftUp_perm (bound i : Nat) (heap : List α) :
    (siftUp lt bound i heap).Perm heap := by
  induction bound generalizing i heap with
  | zero => exact List.Perm.refl heap
  | succ bound inductionHypothesis =>
      simp only [siftUp]
      split
      · split
        · exact (inductionHypothesis _ _).trans (List.swap_perm heap _ _)
        · exact List.Perm.refl heap
      · exact List.Perm.refl heap

theorem siftDown_perm (bound i : Nat) (heap : List α) :
    (siftDown lt bound i heap).Perm heap := by
  induction bound generalizing i heap with
  | zero => exact List.Perm.refl heap
  | succ bound inductionHypothesis =>
      simp only [siftDown]
      split
      · exact List.Perm.refl heap
      · split
        · split
          · exact (inductionHypothesis _ _).trans (List.swap_perm heap _ _)
          · exact List.Perm.refl heap
        · exact List.Perm.refl heap

/-- Reading a swapped list at any position. -/
theorem getElem?_swap {i j : Nat} {a b : α} {heap : List α}
    (first : heap[i]? = some a) (second : heap[j]? = some b) (k : Nat) :
    (heap.swap i j)[k]? =
      if k = i then some b else if k = j then some a else heap[k]? := by
  obtain ⟨firstRange, rfl⟩ := List.getElem?_eq_some_iff.mp first
  obtain ⟨secondRange, rfl⟩ := List.getElem?_eq_some_iff.mp second
  rw [List.swap_eq_of_lt firstRange secondRange, List.getElem?_set,
    List.getElem?_set]
  grind

/-! ## Sifting up -/

/-- Only the edge entering `i` may be out of order, and moving the parent of
`i` down to `i` is safe for the edges leaving `i`. -/
structure UpReady (lt : α → α → Bool) (i : Nat) (heap : List α) : Prop where
  ordered : ∀ j parent child, 0 < j → j ≠ i → heap[(j - 1) / 2]? = some parent →
    heap[j]? = some child → lt parent child = false
  grandparent : ∀ j parent child, 0 < i → 0 < j → (j - 1) / 2 = i →
    heap[(i - 1) / 2]? = some parent → heap[j]? = some child →
      lt parent child = false

theorem UpReady.isHeap {i : Nat} {heap : List α} (ready : UpReady lt i heap)
    (edge : ∀ parent child, 0 < i → heap[(i - 1) / 2]? = some parent →
      heap[i]? = some child → lt parent child = false) : IsHeap lt heap := by
  intro j parent child positive parentAt childAt
  by_cases equal : j = i
  · subst equal
    exact edge parent child positive parentAt childAt
  · exact ready.ordered j parent child positive equal parentAt childAt

theorem UpReady.swap (weak : StrictWeak lt) {i : Nat} {heap : List α} {p v : α}
    (positive : 0 < i) (ready : UpReady lt i heap)
    (parentAt : heap[(i - 1) / 2]? = some p) (childAt : heap[i]? = some v)
    (above : lt p v = true) :
    UpReady lt ((i - 1) / 2) (heap.swap i ((i - 1) / 2)) where
  ordered := by
    intro j parent child jPositive notParent jParent jChild
    rw [getElem?_swap childAt parentAt] at jParent jChild
    by_cases jIsHole : j = i
    · -- the swapped pair itself
      subst jIsHole
      rw [if_neg (by omega), if_pos rfl] at jParent
      rw [if_pos rfl] at jChild
      cases jParent
      cases jChild
      exact weak.asymm above
    · rw [if_neg jIsHole, if_neg notParent] at jChild
      by_cases underHole : (j - 1) / 2 = i
      · rw [if_pos underHole] at jParent
        cases jParent
        exact ready.grandparent j _ _ positive jPositive underHole parentAt jChild
      · rw [if_neg underHole] at jParent
        by_cases sibling : (j - 1) / 2 = (i - 1) / 2
        · rw [if_pos sibling] at jParent
          cases jParent
          exact weak.negTrans (weak.asymm above)
            (ready.ordered j _ _ jPositive jIsHole (sibling ▸ parentAt) jChild)
        · rw [if_neg sibling] at jParent
          exact ready.ordered j _ _ jPositive jIsHole jParent jChild
  grandparent := by
    intro j parent child parentPositive jPositive jUnder jParent jChild
    rw [getElem?_swap childAt parentAt] at jParent jChild
    rw [if_neg (by omega), if_neg (by omega)] at jParent
    have upper : lt parent p = false :=
      ready.ordered _ _ _ parentPositive (by omega) jParent parentAt
    by_cases jIsHole : j = i
    · rw [if_pos jIsHole] at jChild
      cases jChild
      exact upper
    · rw [if_neg jIsHole, if_neg (by omega)] at jChild
      exact weak.negTrans upper
        (ready.ordered j _ _ jPositive jIsHole (jUnder ▸ parentAt) jChild)

theorem siftUp_isHeap (weak : StrictWeak lt) (bound i : Nat) (heap : List α)
    (enough : i ≤ bound) (ready : UpReady lt i heap) :
    IsHeap lt (siftUp lt bound i heap) := by
  induction bound generalizing i heap with
  | zero => exact ready.isHeap fun _ _ positive => by omega
  | succ bound inductionHypothesis =>
      simp only [siftUp]
      split
      · rename_i parent child parentAt childAt
        split
        · rename_i above
          have positive : 0 < i := by
            rcases Nat.eq_zero_or_pos i with rfl | positive
            · rw [parentAt, Option.some.injEq] at childAt
              rw [childAt, weak.irrefl] at above
              contradiction
            · exact positive
          exact inductionHypothesis _ _ (by omega)
            (ready.swap weak positive parentAt childAt above)
        · rename_i notAbove
          apply ready.isHeap
          intro parent' child' _ parentAt' childAt'
          rw [parentAt, Option.some.injEq] at parentAt'
          rw [childAt, Option.some.injEq] at childAt'
          rw [← parentAt', ← childAt']
          simpa using notAbove
      · rename_i missing
        apply ready.isHeap
        intro parent child _ parentAt childAt
        exact absurd childAt (missing parent child parentAt)

/-! ## Sifting down -/

/-- Only the edges leaving `i` may be out of order, and lifting a child of `i`
to `i` is safe for the edge entering `i`. -/
structure DownReady (lt : α → α → Bool) (i : Nat) (heap : List α) : Prop where
  ordered : ∀ j parent child, 0 < j → (j - 1) / 2 ≠ i →
    heap[(j - 1) / 2]? = some parent → heap[j]? = some child →
      lt parent child = false
  grandparent : ∀ j parent child, 0 < i → 0 < j → (j - 1) / 2 = i →
    heap[(i - 1) / 2]? = some parent → heap[j]? = some child →
      lt parent child = false

theorem DownReady.isHeap {i : Nat} {heap : List α} (ready : DownReady lt i heap)
    (edges : ∀ j parent child, 0 < j → (j - 1) / 2 = i → heap[i]? = some parent →
      heap[j]? = some child → lt parent child = false) : IsHeap lt heap := by
  intro j parent child positive parentAt childAt
  by_cases under : (j - 1) / 2 = i
  · exact edges j parent child positive under (under ▸ parentAt) childAt
  · exact ready.ordered j parent child positive under parentAt childAt

theorem greaterChild_eq_none {i : Nat} {heap : List α}
    (leaf : greaterChild lt i heap = none) {j : Nat} (positive : 0 < j)
    (under : (j - 1) / 2 = i) : heap[j]? = none := by
  have leftNone : heap[2 * i + 1]? = none := by
    simp only [greaterChild] at leaf
    split at leaf
    · assumption
    · contradiction
    · split at leaf <;> contradiction
  have short : heap.length ≤ 2 * i + 1 := List.getElem?_eq_none_iff.mp leftNone
  exact List.getElem?_eq_none_iff.mpr (by omega)

/-- The selected child is a child, and no child is above it. -/
theorem greaterChild_eq_some (weak : StrictWeak lt) {i c : Nat} {heap : List α}
    (selected : greaterChild lt i heap = some c) :
    (c - 1) / 2 = i ∧ i < c ∧ ∃ w, heap[c]? = some w ∧
      ∀ j child, 0 < j → (j - 1) / 2 = i → heap[j]? = some child →
        lt w child = false := by
  have isChild : ∀ j, 0 < j → (j - 1) / 2 = i → j = 2 * i + 1 ∨ j = 2 * i + 2 := by
    omega
  simp only [greaterChild] at selected
  split at selected
  · contradiction
  · rename_i left leftAt rightNone
    cases selected
    refine ⟨by omega, by omega, left, leftAt, ?_⟩
    intro j child positive under childAt
    rcases isChild j positive under with rfl | rfl
    · rw [leftAt, Option.some.injEq] at childAt
      rw [childAt]
      exact weak.irrefl child
    · rw [rightNone] at childAt
      contradiction
  · rename_i left right leftAt rightAt
    split at selected
    · rename_i rightBelow
      cases selected
      refine ⟨by omega, by omega, left, leftAt, ?_⟩
      intro j child positive under childAt
      rcases isChild j positive under with rfl | rfl
      · rw [leftAt, Option.some.injEq] at childAt
        rw [childAt]
        exact weak.irrefl child
      · rw [rightAt, Option.some.injEq] at childAt
        rw [← childAt]
        exact weak.asymm rightBelow
    · rename_i rightNotBelow
      cases selected
      refine ⟨by omega, by omega, right, rightAt, ?_⟩
      intro j child positive under childAt
      rcases isChild j positive under with rfl | rfl
      · rw [leftAt, Option.some.injEq] at childAt
        rw [← childAt]
        simpa using rightNotBelow
      · rw [rightAt, Option.some.injEq] at childAt
        rw [childAt]
        exact weak.irrefl child

theorem DownReady.swap (weak : StrictWeak lt) {i c : Nat} {heap : List α} {v w : α}
    (ready : DownReady lt i heap) (isChild : (c - 1) / 2 = i) (deeper : i < c)
    (parentAt : heap[i]? = some v) (childAt : heap[c]? = some w)
    (greatest : ∀ j child, 0 < j → (j - 1) / 2 = i → heap[j]? = some child →
      lt w child = false)
    (above : lt v w = true) : DownReady lt c (heap.swap i c) where
  ordered := by
    intro j parent child positive notUnder jParent jChild
    rw [getElem?_swap parentAt childAt] at jParent jChild
    by_cases underHole : (j - 1) / 2 = i
    · rw [if_pos underHole] at jParent
      cases jParent
      rw [if_neg (by omega)] at jChild
      by_cases jIsChild : j = c
      · rw [if_pos jIsChild] at jChild
        cases jChild
        exact weak.asymm above
      · rw [if_neg jIsChild] at jChild
        exact greatest j _ positive underHole jChild
    · rw [if_neg underHole, if_neg notUnder] at jParent
      by_cases jIsHole : j = i
      · subst jIsHole
        rw [if_pos rfl] at jChild
        cases jChild
        exact ready.grandparent c _ _ positive (by omega) isChild jParent childAt
      · rw [if_neg jIsHole, if_neg (by rintro rfl; exact underHole isChild)] at jChild
        exact ready.ordered j _ _ positive underHole jParent jChild
  grandparent := by
    intro j parent child cPositive positive under jParent jChild
    rw [getElem?_swap parentAt childAt] at jParent jChild
    rw [if_pos isChild] at jParent
    cases jParent
    rw [if_neg (by omega), if_neg (by omega)] at jChild
    exact ready.ordered j _ _ positive (by omega) (under ▸ childAt) jChild

theorem siftDown_isHeap (weak : StrictWeak lt) (bound i : Nat) (heap : List α)
    (enough : heap.length ≤ bound + i) (ready : DownReady lt i heap) :
    IsHeap lt (siftDown lt bound i heap) := by
  induction bound generalizing i heap with
  | zero =>
      apply ready.isHeap
      intro j parent child positive under _ childAt
      obtain ⟨inRange, _⟩ := List.getElem?_eq_some_iff.mp childAt
      omega
  | succ bound inductionHypothesis =>
      simp only [siftDown]
      split
      · rename_i leaf
        apply ready.isHeap
        intro j parent child positive under _ childAt
        rw [greaterChild_eq_none leaf positive under] at childAt
        contradiction
      · rename_i c selected
        obtain ⟨isChild, deeper, w, childAt, greatest⟩ :=
          greaterChild_eq_some weak selected
        rw [childAt]
        split
        · rename_i parent child parentAt childEq
          cases childEq
          split
          · rename_i above
            refine inductionHypothesis _ _ ?_
              (ready.swap weak isChild deeper parentAt childAt greatest above)
            simp only [List.length_swap]
            omega
          · rename_i notAbove
            apply ready.isHeap
            intro j parent' child' positive under parentAt' childAt'
            rw [parentAt, Option.some.injEq] at parentAt'
            rw [← parentAt']
            exact weak.negTrans (by simpa using notAbove)
              (greatest j child' positive under childAt')
        · rename_i missing
          apply ready.isHeap
          intro j parent child positive under parentAt _
          exact absurd rfl (missing parent w parentAt)

/-! ## The algorithms -/

/-- `std::push_heap`. -/
def pushHeap (lt : α → α → Bool) (heap : List α) : List α :=
  siftUp lt heap.length (heap.length - 1) heap

/-- `std::pop_heap`. -/
def popHeap (lt : α → α → Bool) : List α → List α
  | [] => []
  | front :: rest =>
      match rest.getLast? with
      | none => [front]
      | some last => siftDown lt rest.length 0 (last :: rest.dropLast) ++ [front]

theorem pushHeap_isHeap (weak : StrictWeak lt) {heap : List α} {a : α}
    (isHeap : IsHeap lt heap) : IsHeap lt (pushHeap lt (heap ++ [a])) := by
  have inOld : ∀ j child, j ≠ heap.length → (heap ++ [a])[j]? = some child →
      heap[j]? = some child := by
    intro j child notLast childAt
    obtain ⟨inRange, _⟩ := List.getElem?_eq_some_iff.mp childAt
    rw [List.length_append, List.length_singleton] at inRange
    rwa [List.getElem?_append_left (by omega)] at childAt
  apply siftUp_isHeap weak _ _ _ (by omega)
  have lastIndex : (heap ++ [a]).length - 1 = heap.length := by simp
  rw [lastIndex]
  constructor
  · intro j parent child positive notLast parentAt childAt
    have childOld := inOld j child notLast childAt
    obtain ⟨inRange, _⟩ := List.getElem?_eq_some_iff.mp childOld
    exact isHeap j parent child positive (inOld _ _ (by omega) parentAt) childOld
  · intro j parent child _ positive under _ childAt
    obtain ⟨inRange, _⟩ := List.getElem?_eq_some_iff.mp childAt
    rw [List.length_append, List.length_singleton] at inRange
    omega

/-- Replacing the front of a heap leaves only the edges at the front open. -/
theorem IsHeap.downReady_front {front front' : α} {rest rest' : List α}
    (isHeap : IsHeap lt (front :: rest)) (isPrefix : rest' <+: rest) :
    DownReady lt 0 (front' :: rest') where
  ordered := by
    have inOld : ∀ j child, 0 < j → (front' :: rest')[j]? = some child →
        (front :: rest)[j]? = some child := by
      intro j child positive childAt
      obtain ⟨k, rfl⟩ := Nat.exists_eq_succ_of_ne_zero positive.ne'
      simp only [Nat.succ_eq_add_one, List.getElem?_cons_succ] at childAt ⊢
      obtain ⟨inRange, _⟩ := List.getElem?_eq_some_iff.mp childAt
      obtain ⟨suffix, rfl⟩ := isPrefix
      rwa [List.getElem?_append_left inRange]
    intro j parent child positive notFront parentAt childAt
    exact isHeap j parent child positive (inOld _ _ (by omega) parentAt)
      (inOld j child positive childAt)
  grandparent := by
    intro j parent child impossible
    omega

theorem popHeap_spec (weak : StrictWeak lt) {front : α} {rest : List α}
    (isHeap : IsHeap lt (front :: rest)) :
    ∃ rest', popHeap lt (front :: rest) = rest' ++ [front] ∧
      rest'.Perm rest ∧ IsHeap lt rest' := by
  simp only [popHeap]
  split
  · rename_i empty
    rw [List.getLast?_eq_none_iff] at empty
    subst empty
    exact ⟨[], rfl, List.Perm.nil, isHeap_nil⟩
  · rename_i last lastAt
    obtain ⟨initial, rfl⟩ := List.getLast?_eq_some_iff.mp lastAt
    refine ⟨_, rfl, ?_, ?_⟩
    · rw [List.dropLast_concat]
      exact (siftDown_perm _ _ _).trans (List.perm_append_singleton last initial).symm
    · apply siftDown_isHeap weak
      · simp
      · rw [List.dropLast_concat]
        exact isHeap.downReady_front (List.prefix_append initial [last])

/-- Binary sifting meets the specification of the heap algorithms. -/
def binaryHeap : HeapAlgorithms where
  pushHeap := pushHeap
  popHeap := popHeap
  pushHeap_perm _ _ := (siftUp_perm _ _ _).trans (List.perm_append_singleton _ _)
  pushHeap_isHeap weak isHeap := Heap.pushHeap_isHeap weak isHeap
  popHeap_spec weak isHeap := Heap.popHeap_spec weak isHeap

/-! ## Sifting and maps -/

section Natural

variable {β : Type u} {lt' : β → β → Bool} {f : α → β}

theorem swap_map {i j : Nat} {a b : α} {heap : List α} (first : heap[i]? = some a)
    (second : heap[j]? = some b) : (heap.map f).swap i j = (heap.swap i j).map f := by
  apply List.ext_getElem?
  intro k
  have firstMap : (heap.map f)[i]? = some (f a) := by simp [first]
  have secondMap : (heap.map f)[j]? = some (f b) := by simp [second]
  simp only [List.getElem?_map, getElem?_swap firstMap secondMap, getElem?_swap first second]
  split_ifs <;> rfl

theorem siftUp_map (keeps : ∀ a b, lt' (f a) (f b) = lt a b) (bound i : Nat) (heap : List α) :
    siftUp lt' bound i (heap.map f) = (siftUp lt bound i heap).map f := by
  induction bound generalizing i heap with
  | zero => rfl
  | succ bound inductionHypothesis =>
      simp only [siftUp, List.getElem?_map]
      cases parentAt : heap[(i - 1) / 2]? with
      | none => rfl
      | some parent =>
          cases childAt : heap[i]? with
          | none => rfl
          | some child =>
              simp only [Option.map_some, keeps]
              by_cases below : lt parent child = true
              · simp only [if_pos below]
                rw [swap_map childAt parentAt, inductionHypothesis]
              · simp only [if_neg below]

theorem greaterChild_map (keeps : ∀ a b, lt' (f a) (f b) = lt a b) (i : Nat) (heap : List α) :
    greaterChild lt' i (heap.map f) = greaterChild lt i heap := by
  simp only [greaterChild, List.getElem?_map]
  cases heap[2 * i + 1]? with
  | none => rfl
  | some left =>
      cases heap[2 * i + 2]? with
      | none => rfl
      | some right => simp only [Option.map_some, keeps]

theorem siftDown_map (keeps : ∀ a b, lt' (f a) (f b) = lt a b) (bound i : Nat) (heap : List α) :
    siftDown lt' bound i (heap.map f) = (siftDown lt bound i heap).map f := by
  induction bound generalizing i heap with
  | zero => rfl
  | succ bound inductionHypothesis =>
      simp only [siftDown, greaterChild_map keeps, List.getElem?_map]
      cases greaterChild lt i heap with
      | none => rfl
      | some c =>
          cases parentAt : heap[i]? with
          | none => rfl
          | some parent =>
              cases childAt : heap[c]? with
              | none => simp [childAt]
              | some child =>
                  simp only [Option.map_some, childAt, keeps]
                  by_cases below : lt parent child = true
                  · simp only [if_pos below]
                    rw [swap_map parentAt childAt, inductionHypothesis]
                  · simp only [if_neg below]

theorem popHeap_map (keeps : ∀ a b, lt' (f a) (f b) = lt a b) (heap : List α) :
    popHeap lt' (heap.map f) = (popHeap lt heap).map f := by
  cases heap with
  | nil => rfl
  | cons front rest =>
      simp only [popHeap, List.map_cons, List.getLast?_map]
      cases rest.getLast? with
      | none => rfl
      | some last =>
          have sifted := siftDown_map keeps rest.length 0 (last :: rest.dropLast)
          rw [List.map_cons, List.map_dropLast] at sifted
          simp [sifted]

end Natural

/-- Binary sifting only compares and swaps. -/
theorem binaryHeap_natural : binaryHeap.Natural where
  pushHeap_map keeps heap := by
    have sifted := siftUp_map keeps heap.length (heap.length - 1) heap
    simpa [binaryHeap, pushHeap] using sifted
  popHeap_map keeps heap := popHeap_map keeps heap

end PpiwTrading.Heap
