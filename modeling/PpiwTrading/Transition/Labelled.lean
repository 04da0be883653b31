import Mathlib

/-!
# Labelled transition systems given by a partial function

A system is a function that performs a label on a state when the label is
enabled.  An interleaving is a list of labels; the states it leads to are the
reachable ones.  An invariant is proved once for the start and once for a
single step.
-/

namespace PpiwTrading.Transition

universe u v

variable {σ : Type u} {α : Type v}

/-- Perform a list of labels; `none` when one of them is not enabled. -/
def run (next : α → σ → Option σ) : List α → σ → Option σ
  | [], state => some state
  | label :: rest, state =>
      match next label state with
      | none => none
      | some state' => run next rest state'

/-- States connected by some interleaving. -/
inductive Reachable (next : α → σ → Option σ) (start : σ) : σ → Prop
  | refl : Reachable next start start
  | tail {state state' : σ} {label : α} :
      Reachable next start state → next label state = some state' →
      Reachable next start state'

variable {next : α → σ → Option σ} {start middle final : σ}

theorem Reachable.trans (first : Reachable next start middle)
    (second : Reachable next middle final) : Reachable next start final := by
  induction second with
  | refl => exact first
  | tail _ step inductionHypothesis => exact inductionHypothesis.tail step

/-- What an executed list of labels leads to is reachable. -/
theorem Reachable.of_run {labels : List α} (executed : run next labels start = some final) :
    Reachable next start final := by
  induction labels generalizing start with
  | nil =>
      cases executed
      exact Reachable.refl
  | cons label rest inductionHypothesis =>
      rw [run] at executed
      cases step : next label start with
      | none =>
          rw [step] at executed
          cases executed
      | some state =>
          rw [step] at executed
          exact (Reachable.refl.tail step).trans (inductionHypothesis executed)

/-- A property of the start that every step keeps holds in every reachable
state. -/
theorem Reachable.invariant {motive : σ → Prop} (initially : motive start)
    (preserved : ∀ {state state' : σ} {label : α}, motive state →
      next label state = some state' → motive state')
    (reachable : Reachable next start final) : motive final := by
  induction reachable with
  | refl => exact initially
  | tail _ step inductionHypothesis => exact preserved inductionHypothesis step

/-- A map of states that takes every step of one system to a step of another or to
no step takes reachable states to reachable states. -/
theorem Reachable.image {τ : Type*} {β : Type*} {next' : β → τ → Option τ} (inv : σ → Prop)
    (image : σ → τ)
    (preserved : ∀ {state state' : σ} {label : α}, inv state →
      next label state = some state' → inv state')
    (simulated : ∀ {state state' : σ} {label : α}, inv state → next label state = some state' →
      image state' = image state ∨ ∃ label', next' label' (image state) = some (image state'))
    (initially : inv start) (reachable : Reachable next start final) :
    Reachable next' (image start) (image final) := by
  suffices inv final ∧ Reachable next' (image start) (image final) from this.2
  induction reachable with
  | refl => exact ⟨initially, Reachable.refl⟩
  | tail _ step inductionHypothesis =>
      rcases inductionHypothesis with ⟨holds, reached⟩
      constructor
      · exact preserved holds step
      · rcases simulated holds step with same | ⟨label', step'⟩
        · rw [same]
          exact reached
        · exact reached.tail step'

/-! ## Systems that may do less -/

/-- The same system when a label is performed only where it is allowed. -/
def restrict (allowed : α → σ → Prop) [∀ label state, Decidable (allowed label state)]
    (next : α → σ → Option σ) (label : α) (state : σ) : Option σ :=
  if allowed label state then next label state else none

theorem restrict_eq_some {allowed : α → σ → Prop} [∀ label state, Decidable (allowed label state)]
    {label : α} {state state' : σ} :
    restrict allowed next label state = some state' ↔
      allowed label state ∧ next label state = some state' := by
  unfold restrict
  split <;> simp_all

/-- Whatever a restricted system reaches is reached. -/
theorem Reachable.of_restrict {allowed : α → σ → Prop}
    [∀ label state, Decidable (allowed label state)]
    (reachable : Reachable (restrict allowed next) start final) : Reachable next start final := by
  induction reachable with
  | refl => exact Reachable.refl
  | tail _ step inductionHypothesis =>
      exact inductionHypothesis.tail (restrict_eq_some.mp step).2

/-- A restricted system reaches what another one reaches when what it performs on its way
is allowed to the other one. -/
theorem Reachable.widen {allowed allowed' : α → σ → Prop}
    [∀ label state, Decidable (allowed label state)]
    [∀ label state, Decidable (allowed' label state)]
    (wider : ∀ {state state' : σ} {label : α}, Reachable (restrict allowed next) start state →
      next label state = some state' → allowed label state → allowed' label state)
    (reachable : Reachable (restrict allowed next) start final) :
    Reachable (restrict allowed' next) start final := by
  induction reachable with
  | refl => exact Reachable.refl
  | tail before step inductionHypothesis =>
      rcases restrict_eq_some.mp step with ⟨isAllowed, performed⟩
      apply inductionHypothesis.tail
      exact restrict_eq_some.mpr ⟨wider before performed isAllowed, performed⟩

/-! ## Properties of the steps of a run -/

/-- Every step that a list of labels performs has a property. -/
def Along (next : α → σ → Option σ) (good : σ → α → σ → Prop) : List α → σ → Prop
  | [], _ => True
  | label :: rest, state =>
      ∀ state', next label state = some state' →
        good state label state' ∧ Along next good rest state'

/-- When an invariant makes a condition on a step the same as a property of the
step, and steps with the property keep the invariant, a run has the property at
every step exactly when it meets the condition at every step. -/
theorem along_iff_of_step (inv : σ → Prop) {good : σ → α → σ → Prop} {condition : σ → α → Prop}
    (good_iff : ∀ {state state' : σ} {label : α}, inv state → next label state = some state' →
      (good state label state' ↔ condition state label))
    (preserved : ∀ {state state' : σ} {label : α}, inv state → next label state = some state' →
      good state label state' → inv state')
    (labels : List α) (initially : inv start) :
    Along next good labels start ↔
      Along next (fun state label _ => condition state label) labels start := by
  induction labels generalizing start with
  | nil => exact Iff.rfl
  | cons label rest inductionHypothesis =>
      constructor
      · intro along state' step
        rcases along state' step with ⟨first, others⟩
        constructor
        · exact (good_iff initially step).mp first
        · exact (inductionHypothesis (preserved initially step first)).mp others
      · intro along state' step
        rcases along state' step with ⟨first, others⟩
        have firstGood := (good_iff initially step).mpr first
        constructor
        · exact firstGood
        · exact (inductionHypothesis (preserved initially step firstGood)).mpr others

end PpiwTrading.Transition
