import Mathlib

/-!
# Machines that answer calls

A machine is a function that answers a call in a state and leaves a new state,
or fails.  Two machines whose states stay related while they answer every single
call alike answer all sequences of calls alike.
-/

namespace PpiwTrading.Transition

universe u v

variable {α σ τ β ε : Type u}

/-- Make calls one after another; the answers and the last state. -/
def answers (call : α → σ → Except ε (β × σ)) : List α → σ → Except ε (List β × σ)
  | [], state => .ok ([], state)
  | first :: rest, state =>
      match call first state with
      | .error failure => .error failure
      | .ok (answer, next) =>
          match answers call rest next with
          | .error failure => .error failure
          | .ok (others, last) => .ok (answer :: others, last)

/-- The same answer and related states, or the same failure. -/
inductive Agree (R : σ → τ → Prop) : Except ε (β × σ) → Except ε (β × τ) → Prop
  | ok {answer : β} {state : σ} {state' : τ} (related : R state state') :
      Agree R (.ok (answer, state)) (.ok (answer, state'))
  | error (failure : ε) : Agree R (.error failure) (.error failure)

/-- Every call in related states is answered alike. -/
def Refines (R : σ → τ → Prop) (concrete : α → σ → Except ε (β × σ))
    (abstract : α → τ → Except ε (β × τ)) : Prop :=
  ∀ label state state', R state state' → Agree R (concrete label state) (abstract label state')

section Agree

variable {R : σ → τ → Prop} {concrete : Except ε (β × σ)} {abstract : Except ε (β × τ)}

/-- What agrees with an answer. -/
theorem Agree.exists_ok (agree : Agree R concrete abstract) {answer : β} {state' : τ}
    (answered : abstract = .ok (answer, state')) :
    ∃ state, concrete = .ok (answer, state) ∧ R state state' := by
  cases agree with
  | ok related =>
      cases answered
      exact ⟨_, rfl, related⟩
  | error failure => cases answered

/-- What an answer agrees with. -/
theorem Agree.exists_abstract (agree : Agree R concrete abstract) {answer : β} {state : σ}
    (answered : concrete = .ok (answer, state)) :
    ∃ state', abstract = .ok (answer, state') ∧ R state state' := by
  cases agree with
  | ok related =>
      cases answered
      exact ⟨_, rfl, related⟩
  | error failure => cases answered

theorem Agree.error_iff (agree : Agree R concrete abstract) {failure : ε} :
    concrete = .error failure ↔ abstract = .error failure := by
  cases agree with
  | ok related =>
      apply iff_of_false
      · intro failed
        cases failed
      · intro failed
        cases failed
  | error other =>
      constructor
      · intro failed
        cases failed
        rfl
      · intro failed
        cases failed
        rfl

end Agree

variable {R : σ → τ → Prop} {concrete : α → σ → Except ε (β × σ)}
  {abstract : α → τ → Except ε (β × τ)}

/-- Any number of calls in related states are answered alike. -/
theorem Refines.answers (refines : Refines R concrete abstract) (calls : List α) {state : σ}
    {state' : τ} (related : R state state') :
    Agree R (answers concrete calls state) (answers abstract calls state') := by
  induction calls generalizing state state' with
  | nil => exact Agree.ok related
  | cons first rest inductionHypothesis =>
      have agree := refines first state state' related
      rw [Transition.answers, Transition.answers]
      revert agree
      generalize concrete first state = called
      generalize abstract first state' = called'
      intro agree
      cases agree with
      | error failure => exact Agree.error failure
      | ok related =>
          have others := inductionHypothesis related
          simp only
          revert others
          generalize Transition.answers concrete rest _ = continued
          generalize Transition.answers abstract rest _ = continued'
          intro others
          cases others with
          | error failure => exact Agree.error failure
          | ok related => exact Agree.ok related

/-- A failure of some calls is a failure of one of them. -/
theorem exists_error_of_answers {calls : List α} {state : σ} {failure : ε}
    (failed : answers concrete calls state = .error failure) :
    ∃ label state, concrete label state = .error failure := by
  induction calls generalizing state with
  | nil => cases failed
  | cons first rest inductionHypothesis =>
      rw [answers] at failed
      cases called : concrete first state with
      | error other =>
          rw [called] at failed
          cases failed
          exact ⟨first, state, called⟩
      | ok result =>
          rw [called] at failed
          cases continued : answers concrete rest result.2 with
          | error other =>
              simp only [continued] at failed
              cases failed
              exact inductionHypothesis continued
          | ok last =>
              simp only [continued] at failed
              cases failed

end PpiwTrading.Transition
