import PpiwTrading.Transition.Labelled

/-!
# Systems that run alike

Two systems over the same labels are matched by a relation of their states when a
label is enabled in both of two related states or in neither, and leads to related
states.  Such systems perform the same lists of labels, and what one of them can reach
is related to what the other can reach.
-/

namespace PpiwTrading.Transition

universe u v w

variable {σ : Type u} {τ : Type v} {α : Type w}

/-- Related states enable the same labels, which lead to related states. -/
def Bisimulation (next : α → σ → Option σ) (next' : α → τ → Option τ)
    (related : σ → τ → Prop) : Prop :=
  ∀ (state : σ) (state' : τ), related state state' →
    ∀ label, Option.Rel related (next label state) (next' label state')

variable {next : α → σ → Option σ} {next' : α → τ → Option τ} {related : σ → τ → Prop}
  {start final : σ} {start' final' : τ}

/-- A list of labels is performed by both systems or by neither. -/
theorem Bisimulation.run (bisimulation : Bisimulation next next' related)
    (labels : List α) (initially : related start start') :
    Option.Rel related (run next labels start) (run next' labels start') := by
  induction labels generalizing start start' with
  | nil => exact .some initially
  | cons label rest inductionHypothesis =>
      have step := bisimulation _ _ initially label
      rw [Transition.run, Transition.run]
      cases performed : next label start with
      | none =>
          cases performed' : next' label start' with
          | none => exact .none
          | some state' =>
              rw [performed, performed'] at step
              cases step
      | some state =>
          cases performed' : next' label start' with
          | none =>
              rw [performed, performed'] at step
              cases step
          | some state' =>
              rw [performed, performed'] at step
              cases step with
              | some later => exact inductionHypothesis later

/-- The systems may change places. -/
theorem Bisimulation.symm (bisimulation : Bisimulation next next' related) :
    Bisimulation next' next fun state' state => related state state' := by
  intro state' state matched label
  have step := bisimulation _ _ matched label
  cases performed : next label state with
  | none =>
      rw [performed] at step
      generalize next' label state' = performed' at step
      cases step
      exact .none
  | some later =>
      rw [performed] at step
      generalize next' label state' = performed' at step
      cases step with
      | some matchedLater => exact .some matchedLater

/-- What the first system reaches is related to something the second one reaches. -/
theorem Bisimulation.reachable (bisimulation : Bisimulation next next' related)
    (initially : related start start') (reachable : Reachable next start final) :
    ∃ final', Reachable next' start' final' ∧ related final final' := by
  induction reachable with
  | refl => exact ⟨start', Reachable.refl, initially⟩
  | @tail state later label _ performed inductionHypothesis =>
      rcases inductionHypothesis with ⟨state', reached, matched⟩
      have step := bisimulation _ _ matched label
      rw [performed] at step
      cases performed' : next' label state' with
      | none =>
          rw [performed'] at step
          cases step
      | some later' =>
          rw [performed'] at step
          cases step with
          | some later => exact ⟨later', reached.tail performed', later⟩

end PpiwTrading.Transition
