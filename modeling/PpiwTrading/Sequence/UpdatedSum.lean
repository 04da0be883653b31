import Mathlib

/-!
# Sums over a family of which one member changes
-/

namespace PpiwTrading.Sequence

universe u v

variable {ι : Type u} {α : Type v} [DecidableEq ι]

/-- When one member of a family changes, its summand is exchanged. -/
theorem sum_update_add {members : Finset ι} {i : ι} (member : i ∈ members)
    (weight : ι → α → Nat) (family : ι → α) (a : α) :
    ∑ j ∈ members, weight j (Function.update family i a j) + weight i (family i) =
      ∑ j ∈ members, weight j (family j) + weight i a := by
  have others : ∑ j ∈ members.erase i, weight j (Function.update family i a j) =
      ∑ j ∈ members.erase i, weight j (family j) := by
    apply Finset.sum_congr rfl
    intro j inOthers
    rw [Function.update_of_ne (Finset.ne_of_mem_erase inOthers)]
  rw [← Finset.add_sum_erase members _ member, ← Finset.add_sum_erase members _ member, others,
    Function.update_self]
  omega

/-- A change outside the members changes no summand. -/
theorem sum_update_of_notMem {members : Finset ι} {i : ι} (foreign : i ∉ members)
    (weight : ι → α → Nat) (family : ι → α) (a : α) :
    ∑ j ∈ members, weight j (Function.update family i a j) =
      ∑ j ∈ members, weight j (family j) := by
  apply Finset.sum_congr rfl
  intro j member
  rw [Function.update_of_ne (ne_of_mem_of_not_mem member foreign)]

end PpiwTrading.Sequence
