import PpiwTrading.Transition.Labelled

/-!
# Potentials

Some steps of a system are idle: they may be made again and again.  When a
natural number, the potential of a state, falls with every other step and does
not grow with an idle one, a run has only so many steps that are not idle.  When
moreover every state that is not at rest leads to one of smaller potential, every
state leads to one at rest.
-/

namespace PpiwTrading.Transition

universe u v

variable {σ : Type u} {α : Type v}

/-- `state` is reached from `start` with `n` steps that are not idle. -/
inductive Spends (next : α → σ → Option σ) (idle : σ → α → σ → Prop) (start : σ) :
    Nat → σ → Prop
  | refl : Spends next idle start 0 start
  | idle {n : Nat} {state state' : σ} {label : α} :
      Spends next idle start n state → next label state = some state' →
      idle state label state' → Spends next idle start n state'
  | work {n : Nat} {state state' : σ} {label : α} :
      Spends next idle start n state → next label state = some state' →
      ¬ idle state label state' → Spends next idle start (n + 1) state'

variable {next : α → σ → Option σ} {idle : σ → α → σ → Prop} {start final : σ}

theorem Spends.reachable {n : Nat} (spends : Spends next idle start n final) :
    Reachable next start final := by
  induction spends with
  | refl => exact Reachable.refl
  | idle _ step _ inductionHypothesis => exact inductionHypothesis.tail step
  | work _ step _ inductionHypothesis => exact inductionHypothesis.tail step

/-- Every reachable state is reached with some number of steps that are not idle. -/
theorem Reachable.exists_spends (reachable : Reachable next start final) :
    ∃ n, Spends next idle start n final := by
  induction reachable with
  | refl => exact ⟨0, Spends.refl⟩
  | @tail state state' label _ step inductionHypothesis =>
      rcases inductionHypothesis with ⟨n, spends⟩
      by_cases isIdle : idle state label state'
      · exact ⟨n, spends.idle step isIdle⟩
      · exact ⟨n + 1, spends.work step isIdle⟩

variable (inv : σ → Prop) (potential : σ → Nat)

/-- The potential pays for the steps that are not idle. -/
theorem Spends.add_potential_le
    (preserved : ∀ {state state' : σ} {label : α}, inv state →
      next label state = some state' → inv state')
    (falls : ∀ {state state' : σ} {label : α}, inv state → next label state = some state' →
      ¬ idle state label state' → potential state' < potential state)
    (stays : ∀ {state state' : σ} {label : α}, inv state → next label state = some state' →
      idle state label state' → potential state' ≤ potential state)
    {n : Nat} (initially : inv start) (spends : Spends next idle start n final) :
    inv final ∧ n + potential final ≤ potential start := by
  induction spends with
  | refl => exact ⟨initially, by omega⟩
  | idle _ step isIdle inductionHypothesis =>
      rcases inductionHypothesis with ⟨holds, paid⟩
      have bound := stays holds step isIdle
      exact ⟨preserved holds step, by omega⟩
  | work _ step notIdle inductionHypothesis =>
      rcases inductionHypothesis with ⟨holds, paid⟩
      have bound := falls holds step notIdle
      exact ⟨preserved holds step, by omega⟩

/-- A system that can always lower its potential unless it is at rest can always
come to rest. -/
theorem exists_reachable_rest {rest : σ → Prop}
    (preserved : ∀ {state state' : σ} {label : α}, inv state →
      next label state = some state' → inv state')
    (descends : ∀ {state : σ}, inv state → ¬ rest state →
      ∃ state', Reachable next state state' ∧ potential state' < potential state)
    (initially : inv start) : ∃ final, Reachable next start final ∧ rest final := by
  induction bound : potential start using Nat.strongRecOn generalizing start with
  | ind n inductionHypothesis =>
      by_cases atRest : rest start
      · exact ⟨start, Reachable.refl, atRest⟩
      · rcases descends initially atRest with ⟨middle, reached, smaller⟩
        have holds : inv middle :=
          Reachable.invariant (motive := inv) initially preserved reached
        rcases inductionHypothesis (potential middle) (by omega) holds rfl with
          ⟨final, continued, finallyRest⟩
        exact ⟨final, reached.trans continued, finallyRest⟩

/-- A system that chooses among the steps of another: when it can answer each step with
the same step or by lowering the potential, it can lower the potential whenever the other
one can. -/
theorem Reachable.lowered {τ : Type*} {β : Type*} {next' : β → τ → Option τ} (image : τ → σ)
    (preserved : ∀ {state state' : σ} {label : α}, inv state →
      next label state = some state' → inv state')
    (bounded : ∀ {state state' : σ} {label : α}, inv state →
      next label state = some state' → potential state' ≤ potential state)
    (answered : ∀ {chosen : τ} {state' : σ} {label : α}, inv (image chosen) →
      next label (image chosen) = some state' → ∃ chosen', Reachable next' chosen chosen' ∧
        (image chosen' = state' ∨ potential (image chosen') < potential (image chosen)))
    {origin : τ} (initially : inv (image origin)) (reachable : Reachable next (image origin) final)
    (lower : potential final < potential (image origin)) :
    ∃ later, Reachable next' origin later ∧ potential (image later) < potential (image origin) := by
  by_contra never
  -- As long as nothing is lowered every step is answered with the same step.
  suffices ∃ later, Reachable next' origin later ∧ image later = final by
    rcases this with ⟨later, reached, same⟩
    exact never ⟨later, reached, same ▸ lower⟩
  clear lower
  suffices inv final ∧ potential final ≤ potential (image origin) ∧
      ∃ later, Reachable next' origin later ∧ image later = final from this.2.2
  induction reachable with
  | refl => exact ⟨initially, Nat.le_refl _, origin, Reachable.refl, rfl⟩
  | tail _ step inductionHypothesis =>
      rcases inductionHypothesis with ⟨holds, paid, later, reached, rfl⟩
      use preserved holds step, (bounded holds step).trans paid
      rcases answered holds step with ⟨next, continued, same | lower⟩
      · exact ⟨next, reached.trans continued, same⟩
      · exact absurd ⟨next, reached.trans continued, lower.trans_le paid⟩ never

end PpiwTrading.Transition
