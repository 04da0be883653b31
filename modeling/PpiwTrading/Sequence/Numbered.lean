import Mathlib

/-!
# Numbered sequences and their initial parts

Streams that two observers see at different times are compared by the prefix
order: two lists are comparable when one is an initial part of the other.  A list
whose elements carry the numbers 1, 2, 3 and so on is decided by what carries
each number, so two such lists are comparable as soon as equal numbers mean equal
elements.
-/

namespace PpiwTrading.Sequence

universe u

/-- The numbers from 1 to `k`. -/
def idsUpTo (k : Nat) : List Int :=
  (List.range k).map fun i : Nat => (i : Int) + 1

@[simp]
theorem length_idsUpTo (k : Nat) : (idsUpTo k).length = k := by
  simp [idsUpTo]

theorem idsUpTo_succ (k : Nat) : idsUpTo (k + 1) = idsUpTo k ++ [(k : Int) + 1] := by
  simp [idsUpTo, List.range_succ]

@[simp]
theorem mem_idsUpTo {k : Nat} {i : Int} : i ∈ idsUpTo k ↔ 1 ≤ i ∧ i ≤ k := by
  simp only [idsUpTo, List.mem_map, List.mem_range]
  constructor
  · rintro ⟨j, below, rfl⟩
    omega
  · rintro ⟨lower, upper⟩
    exact ⟨(i - 1).toNat, by omega, by omega⟩

theorem idsUpTo_increasing (k : Nat) : (idsUpTo k).Pairwise (· < ·) := by
  induction k with
  | zero => exact List.Pairwise.nil
  | succ k inductionHypothesis =>
      rw [idsUpTo_succ, List.pairwise_append]
      refine ⟨inductionHypothesis, List.pairwise_singleton _ _, ?_⟩
      intro i inBefore j isLast
      rw [mem_idsUpTo] at inBefore
      rw [List.mem_singleton] at isLast
      omega

theorem idsUpTo_nodup (k : Nat) : (idsUpTo k).Nodup :=
  (idsUpTo_increasing k).imp fun smaller => smaller.ne

theorem idsUpTo_isPrefix {k m : Nat} (le : k ≤ m) : idsUpTo k <+: idsUpTo m := by
  obtain ⟨n, rfl⟩ := Nat.exists_eq_add_of_le le
  simp [idsUpTo, List.range_add]

/-- Two lists numbered from 1 that agree on equal numbers agree as far as both
go. -/
theorem isPrefix_of_numbered {α : Type u} {number : α → Int} {first second : List α}
    (isFirst : first.map number = idsUpTo first.length)
    (isSecond : second.map number = idsUpTo second.length)
    (same : ∀ a ∈ first, ∀ b ∈ second, number a = number b → a = b)
    (le : first.length ≤ second.length) : first <+: second := by
  have numberOf : ∀ {l : List α}, l.map number = idsUpTo l.length → ∀ {i : Nat}
      (bound : i < l.length), number l[i] = (i : Int) + 1 := by
    intro l numbered i bound
    have mapped := congrArg (fun ids => ids[i]?) numbered
    simpa [idsUpTo, bound] using mapped
  refine List.prefix_iff_eq_take.mpr (List.ext_getElem (by simp [le]) ?_)
  intro i bound _
  rw [List.getElem_take]
  apply same _ (List.getElem_mem bound) _ (List.getElem_mem _)
  rw [numberOf isFirst, numberOf isSecond]

/-- The number of an element says how many stand before it. -/
theorem number_of_numbered {α : Type u} {number : α → Int} {before after : List α} {a : α} {k : Nat}
    (numbered : (before ++ a :: after).map number = idsUpTo k) :
    number a = (before.length : Int) + 1 := by
  have bound : before.length < k := by
    have total := congrArg List.length numbered
    simp only [List.length_map, List.length_append, List.length_cons, length_idsUpTo] at total
    omega
  have mapped := congrArg (fun ids => ids[before.length]?) numbered
  simpa [idsUpTo, bound] using mapped

/-- Two lists numbered from 1 that agree on equal numbers are comparable. -/
theorem comparable_of_numbered {α : Type u} {number : α → Int} {first second : List α}
    (isFirst : first.map number = idsUpTo first.length)
    (isSecond : second.map number = idsUpTo second.length)
    (same : ∀ a ∈ first, ∀ b ∈ second, number a = number b → a = b) :
    first <+: second ∨ second <+: first := by
  rcases Nat.le_total first.length second.length with shorter | longer
  · left
    exact isPrefix_of_numbered isFirst isSecond same shorter
  · right
    refine isPrefix_of_numbered isSecond isFirst ?_ longer
    intro b inSecond a inFirst sameNumber
    exact (same a inFirst b inSecond sameNumber.symm).symm

/-! ## Comparable lists -/

/-- Initial parts of comparable lists are comparable. -/
theorem prefix_or_prefix_of_parts {α : Type u} {first second firstPart secondPart : List α}
    (isFirst : firstPart <+: first) (isSecond : secondPart <+: second)
    (comparable : first <+: second ∨ second <+: first) :
    firstPart <+: secondPart ∨ secondPart <+: firstPart := by
  rcases comparable with forth | back
  · exact List.prefix_or_prefix_of_prefix (isFirst.trans forth) isSecond
  · exact List.prefix_or_prefix_of_prefix isFirst (isSecond.trans back)

/-- An element of an initial part is at the same place of the whole. -/
theorem getElem?_of_isPrefix {α : Type u} {first second : List α} (isPrefix : first <+: second)
    {i : Nat} {a : α} (found : first[i]? = some a) : second[i]? = some a := by
  obtain ⟨more, rfl⟩ := isPrefix
  rw [List.getElem?_append_left (List.getElem?_eq_some_iff.mp found).1, found]

/-- Comparable lists have the same elements where both have one. -/
theorem eq_of_comparable {α : Type u} {first second : List α}
    (comparable : first <+: second ∨ second <+: first) {i : Nat} {a b : α}
    (inFirst : first[i]? = some a) (inSecond : second[i]? = some b) : a = b := by
  rcases comparable with forth | back
  · rw [getElem?_of_isPrefix forth inFirst] at inSecond
    exact Option.some.inj inSecond
  · rw [getElem?_of_isPrefix back inSecond] at inFirst
    exact (Option.some.inj inFirst).symm

end PpiwTrading.Sequence
