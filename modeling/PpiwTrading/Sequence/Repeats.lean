import Mathlib

/-!
# Sequences with repeated elements

A repeated element of a sequence stands at a place before which it has occurred
already.  When a sequence is split into two parts, one of them without repeats,
a repeated element is in the other part, and an element of both parts is
repeated.
-/

namespace PpiwTrading.Sequence

universe u

variable {α : Type u}

/-- A repeated element comes again after a place where it stands. -/
theorem duplicate_iff_split {a : α} {l : List α} :
    List.Duplicate a l ↔ ∃ before after, l = before ++ a :: after ∧ a ∈ before := by
  rw [List.duplicate_iff_sublist, List.cons_sublist_iff]
  constructor
  · rintro ⟨front, back, rfl, inFront, again⟩
    rcases List.append_of_mem (List.singleton_sublist.mp again) with ⟨middle, after, rfl⟩
    use front ++ middle, after
    constructor
    · rw [List.append_assoc]
    · exact List.mem_append_left middle inFront
  · rintro ⟨before, after, rfl, member⟩
    use before, a :: after, rfl, member
    exact List.singleton_sublist.mpr List.mem_cons_self

section Parts

variable [DecidableEq α] {first second whole : List α}

/-- A repeated element is not used up by a part without repeats. -/
theorem mem_of_duplicate (parts : (first ++ second).Perm whole) (once : first.Nodup) {a : α}
    (repeated : List.Duplicate a whole) : a ∈ second := by
  have twice := List.duplicate_iff_two_le_count.mp repeated
  rw [← parts.count_eq, List.count_append] at twice
  have atMostOnce := List.nodup_iff_count_le_one.mp once a
  apply List.count_pos_iff.mp
  omega

/-- An element of both parts is repeated. -/
theorem duplicate_of_mem_both (parts : (first ++ second).Perm whole) {a : α} (inFirst : a ∈ first)
    (inSecond : a ∈ second) : List.Duplicate a whole := by
  have onceFirst := List.count_pos_iff.mpr inFirst
  have onceSecond := List.count_pos_iff.mpr inSecond
  rw [List.duplicate_iff_two_le_count, ← parts.count_eq, List.count_append]
  omega

end Parts

theorem nodup_eraseDups [BEq α] [LawfulBEq α] (l : List α) : l.eraseDups.Nodup := by
  induction length : l.length using Nat.strong_induction_on generalizing l with
  | h n inductionHypothesis =>
      cases l with
      | nil => exact List.nodup_nil
      | cons a rest =>
          rw [List.eraseDups_cons, List.nodup_cons, List.mem_eraseDups]
          constructor
          · simp
          · apply inductionHypothesis _ _ _ rfl
            rw [← length, List.length_cons]
            exact Nat.lt_succ_of_le (List.length_filter_le _ _)

end PpiwTrading.Sequence
