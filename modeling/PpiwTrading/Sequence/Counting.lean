import Mathlib

/-!
# Counting keyed and numbered elements

Elements carry a key and a number.  When the elements with one key have distinct
numbers from an interval of width `w`, there are at most `w` of them, and so a
list has at most `w` elements for each of its keys.
-/

namespace PpiwTrading.Sequence

universe u v

variable {α : Type u} {κ : Type v} [DecidableEq κ]

/-- What holds along the elements of each key holds along the list for elements
with the same key. -/
theorem pairwise_of_pairwise_filter {R : α → α → Prop} {key : α → κ} {l : List α}
    (each : ∀ k, (l.filter fun a => key a = k).Pairwise R) :
    l.Pairwise fun a b => key a = key b → R a b := by
  induction l with
  | nil => exact List.Pairwise.nil
  | cons first rest inductionHypothesis =>
      constructor
      · intro later member same
        have ofFirst := each (key first)
        rw [List.filter_cons_of_pos (by simp)] at ofFirst
        apply (List.pairwise_cons.mp ofFirst).1
        simp [member, same]
      · apply inductionHypothesis
        intro k
        have ofList := each k
        rw [List.filter_cons] at ofList
        split at ofList
        · exact (List.pairwise_cons.mp ofList).2
        · exact ofList

/-- A list whose elements with one key have distinct numbers from an interval of
width `w` has at most `w` elements for each key. -/
theorem length_le_card_mul {key : α → κ} {number : α → Int} (start : κ → Int) {w : Nat}
    {keys : Finset κ} {l : List α} (keyed : ∀ a ∈ l, key a ∈ keys)
    (distinct : l.Pairwise fun a b => key a = key b → number a ≠ number b)
    (within : ∀ a ∈ l, start (key a) < number a ∧ number a ≤ start (key a) + w) :
    l.length ≤ keys.card * w := by
  let places := keys.sigma fun k => Finset.Ioc (start k) (start k + w)
  let place : α → (_ : κ) × Int := fun a => ⟨key a, number a⟩
  have nodup : (l.map place).Nodup := by
    rw [List.Nodup, List.pairwise_map]
    apply distinct.imp
    intro a b differ same
    injection same with sameKey sameNumber
    exact differ sameKey sameNumber
  have placed : (l.map place).toFinset ⊆ places := by
    intro p member
    rw [List.mem_toFinset, List.mem_map] at member
    rcases member with ⟨a, inList, rfl⟩
    rw [Finset.mem_sigma, Finset.mem_Ioc]
    exact ⟨keyed a inList, within a inList⟩
  calc l.length = (l.map place).toFinset.card := by
        rw [List.toFinset_card_of_nodup nodup, List.length_map]
    _ ≤ places.card := Finset.card_le_card placed
    _ = keys.card * w := by simp [places]

/-- Distinct numbers from an interval of width `w` are at most `w`. -/
theorem length_le_of_interval {number : α → Int} {start : Int} {w : Nat} {l : List α}
    (distinct : l.Pairwise fun a b => number a ≠ number b)
    (within : ∀ a ∈ l, start < number a ∧ number a ≤ start + w) : l.length ≤ w := by
  have bound := @length_le_card_mul α Unit _ (fun _ => ()) number (fun _ => start) w {()} l
    (by simp) (distinct.imp fun differ _ => differ) within
  simpa using bound

end PpiwTrading.Sequence
