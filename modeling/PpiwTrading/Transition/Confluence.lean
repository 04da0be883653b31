import PpiwTrading.Transition.Labelled

/-!
# Confluent systems

The labels of a system are independent when two of them that are enabled in a state
stay enabled after one another and lead to the same state in either order.  A state
in which no label is enabled is then reached from every state that the start leads
to, so a system has one such state at most, and every schedule that goes on as long
as it can ends there.
-/

namespace PpiwTrading.Transition

universe u v

variable {σ : Type u} {α : Type v}

/-- No label is enabled. -/
def Terminal (next : α → σ → Option σ) (state : σ) : Prop :=
  ∀ label, next label state = none

/-- Two labels that are enabled in a state may be performed in either order. -/
def Independent (next : α → σ → Option σ) : Prop :=
  ∀ (first second : α) (state left right : σ), first ≠ second →
    next first state = some left → next second state = some right →
    ∃ joined, next second left = some joined ∧ next first right = some joined

variable {next : α → σ → Option σ} {start middle left final : σ}

/-- Nothing but itself is reached from a terminal state. -/
theorem Terminal.eq (terminal : Terminal next start) (reachable : Reachable next start final) :
    final = start := by
  induction reachable with
  | refl => rfl
  | @tail state state' label _ step inductionHypothesis =>
      rw [inductionHypothesis, terminal label] at step
      cases step

/-- A label that is enabled at the start is performed on the way to a state, or is
still enabled there. -/
theorem Independent.performed_or_enabled (independent : Independent next) {label : α}
    (reachable : Reachable next start final) (step : next label start = some left) :
    Reachable next left final ∨
      ∃ joined, next label final = some joined ∧ Reachable next left joined := by
  induction reachable with
  | refl => exact Or.inr ⟨left, step, Reachable.refl⟩
  | @tail state state' other _ last inductionHypothesis =>
      rcases inductionHypothesis with performed | ⟨joined, enabled, reached⟩
      · exact Or.inl (performed.tail last)
      · by_cases same : label = other
        · -- the last step performs the label
          left
          rw [same, last] at enabled
          cases enabled
          exact reached
        · right
          rcases independent _ _ _ _ _ same enabled last with ⟨later, continued, delayed⟩
          exact ⟨later, delayed, reached.tail continued⟩

/-- A terminal state is reached from every state that the start leads to. -/
theorem Independent.reaches_terminal (independent : Independent next)
    (reachable : Reachable next start middle) (reachesFinal : Reachable next start final)
    (terminal : Terminal next final) : Reachable next middle final := by
  induction reachable with
  | refl => exact reachesFinal
  | @tail state state' label _ step inductionHypothesis =>
      rcases independent.performed_or_enabled inductionHypothesis step with
        performed | ⟨joined, enabled, _⟩
      · exact performed
      · rw [terminal label] at enabled
        cases enabled

/-- A start leads to one terminal state at most. -/
theorem Independent.terminal_unique (independent : Independent next)
    (reachable : Reachable next start middle) (terminalMiddle : Terminal next middle)
    (reachesFinal : Reachable next start final) (terminal : Terminal next final) : final = middle :=
  terminalMiddle.eq (independent.reaches_terminal reachable reachesFinal terminal)

end PpiwTrading.Transition
