import Mathlib

/-!
# Variables carried through a loop

A loop over a list may write a variable in some of its rounds only.  In the
other rounds the variable still holds what an earlier element left.
-/

namespace PpiwTrading.Sequence

universe u v

variable {α : Type u} {β : Type v}

/-- What the variable holds after the loop. -/
def carried (write : α → Option β) (start : β) (l : List α) : β :=
  l.foldl (fun held a => (write a).getD held) start

variable {write : α → Option β} {start : β} {l : List α}

@[simp]
theorem carried_nil : carried write start [] = start :=
  rfl

@[simp]
theorem carried_concat (a : α) :
    carried write start (l ++ [a]) = (write a).getD (carried write start l) := by
  simp [carried]

theorem carried_singleton (a : α) : carried write start [a] = (write a).getD start :=
  rfl

/-- The variable holds what was written last. -/
theorem carried_eq_getLast? : carried write start l = (l.filterMap write).getLast?.getD start := by
  induction l using List.reverseRecOn with
  | nil => rfl
  | append_singleton l a inductionHypothesis =>
      rw [carried_concat, List.filterMap_append]
      cases written : write a with
      | none => simpa [written] using inductionHypothesis
      | some b => simp [written]

variable (fresh : ∀ a b, write a = some b → b ≠ start)
include fresh

/-- When no element writes what the variable held at the start, it still holds
that exactly when nothing was written. -/
theorem carried_eq_start_iff : carried write start l = start ↔ ∀ a ∈ l, write a = none := by
  induction l using List.reverseRecOn with
  | nil => simp
  | append_singleton l a inductionHypothesis =>
      rw [carried_concat, List.forall_mem_append, List.forall_mem_singleton]
      cases written : write a with
      | none => simp [inductionHypothesis]
      | some b => simp [fresh a b written]

/-- An element leaves what it would leave as the only one exactly when it writes
or nothing before it does. -/
theorem carried_concat_eq_iff (a : α) :
    carried write start (l ++ [a]) = carried write start [a] ↔
      (write a = none → ∀ earlier ∈ l, write earlier = none) := by
  rw [carried_concat, carried_singleton]
  cases written : write a with
  | none => simpa using carried_eq_start_iff fresh
  | some b => simp

end PpiwTrading.Sequence
