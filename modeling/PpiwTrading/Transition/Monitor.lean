import PpiwTrading.Transition.Answers
import PpiwTrading.Transition.Labelled

/-!
# Monitors with condition variables

The calls of a monitor run under its lock.  A call whose predicate does not hold goes to
sleep on its condition variable and gives the lock back; a call that completes may notify
all that sleep on a condition variable.  A thread that has been woken, by a notification
or for no reason, looks at its predicate again when it gets the lock.

When a call that makes the predicate of another one true notifies it, no thread sleeps
while its call could complete.  And whatever the threads do, the calls that have completed
are those of one sequential run.
-/

namespace PpiwTrading.Transition

universe u v

variable {α σ β ε : Type u} {ι κ : Type v}

/-- The calls of an object, the failure of a call that has to wait, the condition variable
it sleeps on, and those that a call notifies when it completes with an answer. -/
structure Monitor (α σ β ε : Type u) (κ : Type v) where
  call : α → σ → Except ε (β × σ)
  waits : ε
  condition : α → κ
  notifies : α → σ → β → κ → Bool

/-- What a thread does: it is outside of the monitor, it sleeps in a call, or it is about
to look at the predicate of its call again. -/
inductive Phase (α : Type u)
  | idle
  | asleep (label : α)
  | awake (label : α)

/-- The object, its threads, and the calls that have completed, each with its thread and
its answer. -/
structure Monitored (ι : Type v) (α σ β : Type u) where
  shared : σ
  threads : ι → Phase α
  completed : List (ι × α × β)

inductive MonitorAction (ι : Type v) (α : Type u)
  /-- A thread makes a call. -/
  | call (thread : ι) (label : α)
  /-- A thread is woken without a notification. -/
  | wake (thread : ι)
  /-- A thread that is awake gets the lock. -/
  | resume (thread : ι)

/-- Wake a thread that sleeps on a condition variable with a property. -/
def Phase.notify (condition : α → κ) (notified : κ → Bool) : Phase α → Phase α
  | .asleep label => if notified (condition label) then .awake label else .asleep label
  | other => other

/-- The call a thread is in. -/
def Phase.pending : Phase α → Option α
  | .idle => none
  | .asleep label => some label
  | .awake label => some label

@[simp]
theorem Phase.pending_notify (condition : α → κ) (notified : κ → Bool) (phase : Phase α) :
    (phase.notify condition notified).pending = phase.pending := by
  cases phase with
  | idle => rfl
  | asleep label =>
      rw [notify]
      split <;> rfl
  | awake label => rfl

namespace Monitor

variable [DecidableEq ι] [DecidableEq ε] (monitor : Monitor α σ β ε κ)

/-- A thread makes a call under the lock; `none` when the call fails. -/
def attempt (thread : ι) (label : α) (state : Monitored ι α σ β) : Option (Monitored ι α σ β) :=
  match monitor.call label state.shared with
  | .error failure =>
      if failure = monitor.waits then
        some { state with threads := Function.update state.threads thread (.asleep label) }
      else none
  | .ok (answer, shared) =>
      some
        { shared := shared
          threads := Function.update
            (fun other => (state.threads other).notify monitor.condition
              (monitor.notifies label state.shared answer)) thread .idle
          completed := state.completed ++ [(thread, label, answer)] }

def next (action : MonitorAction ι α) (state : Monitored ι α σ β) : Option (Monitored ι α σ β) :=
  match action with
  | .call thread label =>
      match state.threads thread with
      | .idle => monitor.attempt thread label state
      | _ => none
  | .wake thread =>
      match state.threads thread with
      | .asleep label =>
          some { state with threads := Function.update state.threads thread (.awake label) }
      | _ => none
  | .resume thread =>
      match state.threads thread with
      | .awake label => monitor.attempt thread label state
      | _ => none

end Monitor

/-- No thread has made a call yet. -/
def Monitored.new (shared : σ) : Monitored ι α σ β :=
  ⟨shared, fun _ => .idle, []⟩

/-! ## Sequential runs -/

/-- One more call after some others. -/
theorem answers_concat {call : α → σ → Except ε (β × σ)} {calls : List α} {results : List β}
    {start state state' : σ} {label : α} {answer : β}
    (before : answers call calls start = .ok (results, state))
    (last : call label state = .ok (answer, state')) :
    answers call (calls ++ [label]) start = .ok (results ++ [answer], state') := by
  induction calls generalizing start results with
  | nil =>
      cases before
      simp only [List.nil_append, answers, last]
  | cons first rest inductionHypothesis =>
      rw [answers] at before
      cases called : call first start with
      | error failure =>
          rw [called] at before
          cases before
      | ok result =>
          rcases result with ⟨firstAnswer, middle⟩
          rw [called] at before
          cases continued : answers call rest middle with
          | error failure =>
              simp only [continued] at before
              cases before
          | ok others =>
              simp only [continued] at before
              cases before
              simp only [List.cons_append, answers, called, inductionHypothesis continued]

/-! ## Sleeping threads -/

section Sleeping

variable [DecidableEq ι] [DecidableEq ε] (monitor : Monitor α σ β ε κ) (inv : σ → Prop)

/-- A call that completes keeps the invariant, and notifies every call that had to wait
before and need not wait afterwards. -/
structure Monitor.Wakes : Prop where
  preserved : ∀ {state state' label answer}, inv state →
    monitor.call label state = .ok (answer, state') → inv state'
  notified : ∀ {state state' label answer}, inv state →
    monitor.call label state = .ok (answer, state') → ∀ other,
      monitor.call other state = .error monitor.waits →
      monitor.call other state' = .error monitor.waits ∨
        monitor.notifies label state answer (monitor.condition other) = true

/-- The completed calls are a sequential run, the calls of sleeping threads have to wait,
and a thread that is in a call has had to wait. -/
structure Monitored.Orderly (start : σ) (state : Monitored ι α σ β) : Prop where
  holds : inv state.shared
  sequential : answers monitor.call (state.completed.map fun entry => entry.2.1) start =
    .ok (state.completed.map fun entry => entry.2.2, state.shared)
  sleeping : ∀ thread label, state.threads thread = .asleep label →
    monitor.call label state.shared = .error monitor.waits
  waited : ∀ thread label, (state.threads thread).pending = some label →
    ∃ shared, inv shared ∧ monitor.call label shared = .error monitor.waits

variable {monitor inv} {start : σ} {state state' : Monitored ι α σ β}

omit [DecidableEq ι] [DecidableEq ε] in
theorem Monitored.Orderly.new (initially : inv start) :
    Orderly monitor inv start (Monitored.new start : Monitored ι α σ β) where
  holds := initially
  sequential := rfl
  sleeping := by
    intro thread label asleep
    cases asleep
  waited := by
    intro thread label pending
    cases pending

/-- A sleeping thread that was not woken by a notification slept before. -/
theorem Phase.asleep_of_notify {condition : α → κ} {notified : κ → Bool} {phase : Phase α}
    {label : α} (asleep : phase.notify condition notified = .asleep label) :
    phase = .asleep label ∧ notified (condition label) = false := by
  cases phase with
  | idle => cases asleep
  | asleep other =>
      rw [notify] at asleep
      split at asleep
      · cases asleep
      · rename_i still
        cases asleep
        exact ⟨rfl, Bool.eq_false_iff.mpr still⟩
  | awake other => cases asleep

omit [DecidableEq ε] in
/-- What holds of a thread after a change of one thread holds of the change, or it held of
the thread before. -/
theorem Phase.of_update (property : Phase α → Prop) {threads : ι → Phase α} {thread other : ι}
    {phase : Phase α} (later : property (Function.update threads thread phase other)) :
    property phase ∨ property (threads other) := by
  by_cases here : other = thread
  · subst here
    rw [Function.update_self] at later
    exact Or.inl later
  · rw [Function.update_of_ne here] at later
    exact Or.inr later

theorem Monitored.Orderly.attempt (orderly : Orderly monitor inv start state)
    (wakes : monitor.Wakes inv) {thread : ι} {label : α}
    (performed : monitor.attempt thread label state = some state') :
    Orderly monitor inv start state' := by
  rw [Monitor.attempt] at performed
  split at performed
  · rename_i failure failed
    split at performed
    · rename_i isWaiting
      cases performed
      refine ⟨orderly.holds, orderly.sequential, ?_, ?_⟩
      · intro other otherLabel asleep
        rcases Phase.of_update (· = .asleep otherLabel) asleep with isLabel | slept
        · cases isLabel
          rw [failed, isWaiting]
        · exact orderly.sleeping other otherLabel slept
      · intro other otherLabel pending
        rcases Phase.of_update (·.pending = some otherLabel) pending with isLabel | before
        · cases isLabel
          exact ⟨state.shared, orderly.holds, by rw [failed, isWaiting]⟩
        · exact orderly.waited other otherLabel before
    · cases performed
  · rename_i answer shared completes
    cases performed
    refine ⟨wakes.preserved orderly.holds completes, ?_, ?_, ?_⟩
    · rw [List.map_append, List.map_append]
      exact answers_concat orderly.sequential completes
    · intro other otherLabel asleep
      simp only at asleep
      rcases Phase.of_update (· = .asleep otherLabel) asleep with isLabel | stillAsleep
      · cases isLabel
      · rcases Phase.asleep_of_notify stillAsleep with ⟨slept, notNotified⟩
        have waited := orderly.sleeping other otherLabel slept
        rcases wakes.notified orderly.holds completes otherLabel waited with still | notified
        · exact still
        · rw [notNotified] at notified
          cases notified
    · intro other otherLabel pending
      simp only at pending
      rcases Phase.of_update (·.pending = some otherLabel) pending with isLabel | before
      · cases isLabel
      · rw [Phase.pending_notify] at before
        exact orderly.waited other otherLabel before

theorem Monitored.Orderly.next (orderly : Orderly monitor inv start state)
    (wakes : monitor.Wakes inv) {action : MonitorAction ι α}
    (performed : monitor.next action state = some state') :
    Orderly monitor inv start state' := by
  cases action with
  | call thread label =>
      rw [Monitor.next] at performed
      split at performed
      · exact orderly.attempt wakes performed
      · cases performed
  | wake thread =>
      rw [Monitor.next] at performed
      split at performed
      · cases performed
        rename_i label slept
        refine ⟨orderly.holds, orderly.sequential, ?_, ?_⟩
        · intro other otherLabel asleep
          rcases Phase.of_update (· = .asleep otherLabel) asleep with isLabel | asleepBefore
          · cases isLabel
          · exact orderly.sleeping other otherLabel asleepBefore
        · intro other otherLabel pending
          rcases Phase.of_update (·.pending = some otherLabel) pending with isLabel | before
          · cases isLabel
            apply orderly.waited thread label
            rw [slept, Phase.pending]
          · exact orderly.waited other otherLabel before
      · cases performed
  | resume thread =>
      rw [Monitor.next] at performed
      split at performed
      · exact orderly.attempt wakes performed
      · cases performed

/-- Whatever the threads do, their calls are those of a sequential run, and none of them
sleeps while its call could complete. -/
theorem Reachable.orderly (wakes : monitor.Wakes inv) (initially : inv start)
    (reachable : Reachable monitor.next (Monitored.new start : Monitored ι α σ β) state) :
    state.Orderly monitor inv start :=
  Reachable.invariant (motive := Monitored.Orderly monitor inv start)
    (Monitored.Orderly.new initially) (fun orderly performed => orderly.next wakes performed)
    reachable

/-- A thread that is awake completes its call, or it has to wait and sleeps again. -/
theorem Monitor.resume_cases {thread : ι} {label : α}
    (awake : state.threads thread = .awake label)
    (onlyWaits : ∀ failure, monitor.call label state.shared = .error failure →
      failure = monitor.waits) :
    ∃ state', monitor.next (.resume thread) state = some state' ∧
      (state'.threads thread = .idle ∨ state'.threads thread = .asleep label ∧
        monitor.call label state.shared = .error monitor.waits) := by
  simp only [Monitor.next, awake, Monitor.attempt]
  cases completes : monitor.call label state.shared with
  | ok result =>
      refine ⟨_, rfl, Or.inl ?_⟩
      simp only [Function.update_self]
  | error failure =>
      have isWaiting := onlyWaits failure completes
      subst isWaiting
      exact ⟨_, if_pos rfl, Or.inr ⟨Function.update_self .., rfl⟩⟩

end Sleeping

/-- An object that answers as another one does notifies whom it has to, if the other one
does. -/
theorem Monitor.Wakes.of_refines {τ : Type u} {R : σ → τ → Prop} {monitor : Monitor α σ β ε κ}
    {abstract : Monitor α τ β ε κ} {inv : τ → Prop} (wakes : abstract.Wakes inv)
    (refines : Refines R monitor.call abstract.call) (sameWaits : monitor.waits = abstract.waits)
    (sameCondition : monitor.condition = abstract.condition)
    (sameNotifies : ∀ {state state'} label answer, R state state' →
      monitor.notifies label state answer = abstract.notifies label state' answer) :
    monitor.Wakes fun state => ∃ state', R state state' ∧ inv state' := by
  constructor
  · rintro state later label answer ⟨state', related, holds⟩ completes
    rcases (refines label state state' related).exists_abstract completes with
      ⟨later', completes', relatedLater⟩
    exact ⟨later', relatedLater, wakes.preserved holds completes'⟩
  · rintro state later label answer ⟨state', related, holds⟩ completes other waited
    rcases (refines label state state' related).exists_abstract completes with
      ⟨later', completes', relatedLater⟩
    rw [sameWaits] at waited ⊢
    rw [(refines other state state' related).error_iff] at waited
    rw [(refines other later later' relatedLater).error_iff, sameNotifies label answer related,
      sameCondition]
    exact wakes.notified holds completes' other waited

end PpiwTrading.Transition
