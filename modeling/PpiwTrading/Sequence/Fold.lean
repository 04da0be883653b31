import Mathlib

/-!
# Loops that may fail

A loop over a list is a monadic fold, and a failed access or assertion ends it
with `none`.  An invariant that speaks about the inputs taken so far, and that
every step keeps, shows that the loop ends well and what it leaves.
-/

namespace PpiwTrading.Sequence

universe u v

/-- The invariant rule of a loop. -/
theorem foldlM_invariant {σ : Type u} {ι : Type v} {step : σ → ι → Option σ}
    {Inv : List ι → σ → Prop} {inputs : List ι}
    (keeps : ∀ input ∈ inputs, ∀ before state, Inv before state →
      ∃ next, step state input = some next ∧ Inv (before ++ [input]) next)
    (before : List ι) {state : σ} (inv : Inv before state) :
    ∃ last, inputs.foldlM step state = some last ∧ Inv (before ++ inputs) last := by
  induction inputs generalizing before state with
  | nil =>
      rw [List.append_nil]
      exact ⟨state, rfl, inv⟩
  | cons input inputs inductionHypothesis =>
      rcases keeps input (List.mem_cons_self ..) before state inv with ⟨next, stepped, invNext⟩
      rcases inductionHypothesis
        (fun later member => keeps later (List.mem_cons_of_mem _ member)) _ invNext with
        ⟨last, ran, invLast⟩
      rw [List.append_assoc, List.singleton_append] at invLast
      refine ⟨last, ?_, invLast⟩
      rw [List.foldlM_cons, stepped]
      exact ran

variable {α : Type u} {β : Type v} {f : α → Option β} {l : List α}

/-- A map that never fails. -/
theorem mapM_eq_some_map {g : α → β} (all : ∀ a ∈ l, f a = some (g a)) :
    l.mapM f = some (l.map g) := by
  induction l with
  | nil => rfl
  | cons a l inductionHypothesis =>
      rw [List.mapM_cons, all a (List.mem_cons_self ..),
        inductionHypothesis fun b member => all b (List.mem_cons_of_mem _ member)]
      rfl

/-- A partial map that never fails keeps the places. -/
theorem getElem?_filterMap_of_isSome (all : ∀ a ∈ l, (f a).isSome) (i : Nat) :
    (l.filterMap f)[i]? = l[i]?.bind f := by
  induction l generalizing i with
  | nil => rfl
  | cons a l inductionHypothesis =>
      rcases Option.isSome_iff_exists.mp (all a (List.mem_cons_self ..)) with ⟨b, made⟩
      rw [List.filterMap_cons_some made]
      cases i with
      | zero => simp [made]
      | succ i =>
          simpa using inductionHypothesis (fun c member => all c (List.mem_cons_of_mem _ member)) i

end PpiwTrading.Sequence
