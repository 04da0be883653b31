import PpiwTrading.Common.BlockQueue
import PpiwTrading.Common.SlidingWindow
import PpiwTrading.Transition.Monitor

/-!
# Blocking calls

The threads of a process share the queues and the windows, and a blocking call sleeps on a
condition variable until its predicate holds.  A queue notifies all that sleep on
`m_cond_empty` when it stores an element and all that sleep on `m_cond_full` when it takes
one out; a window notifies only when the slot that is filled is that of the head.  No
wake-up is lost in either.
-/

namespace PpiwTrading

open PpiwTrading.Transition

variable {T : Type}

/-! ## Queues -/

inductive QueueCondition
  | mCondEmpty
  | mCondFull
  deriving DecidableEq, Repr

/-- The condition variable a call sleeps on; only `put` and `take` can have to wait. -/
def queueCondition : QueueCall T → QueueCondition
  | .put _ => .mCondFull
  | _ => .mCondEmpty

/-- Whether a call that completes with an answer notifies a condition variable. -/
def queueNotifies : QueueCall T → QueueAnswer T → QueueCondition → Bool
  | .put _, _, .mCondEmpty => true
  | .take, _, .mCondFull => true
  | .offer _, .offered result, .mCondEmpty => result
  | .poll, .polled t, .mCondFull => t.isSome
  | _, _, _ => false

/-- A queue with calls of the given kind, under the lock `m_mutex`. -/
def queueMonitor {σ : Type} (call : QueueCall T → σ → Except Stuck (QueueAnswer T × σ)) :
    Monitor (QueueCall T) σ (QueueAnswer T) Stuck QueueCondition where
  call := call
  waits := .waits
  condition := queueCondition
  notifies := fun label _ answer => queueNotifies label answer

namespace Fifo

variable {capacity : Nat} {fifo fifo' : Fifo T capacity}

/-- A `take` waits for an element and a `put` for room. -/
theorem waits_iff {label : QueueCall T} :
    Fifo.call label fifo = .error .waits ↔
      label = .take ∧ fifo.items = [] ∨
        (∃ t, label = .put t) ∧ fifo.items.length = capacity := by
  rcases fifo with ⟨items, within⟩
  cases label with
  | put t =>
      rw [Fifo.call]
      split
      · rename_i room
        simp [Nat.ne_of_lt room]
      · rename_i full
        simp [Nat.le_antisymm within (Nat.le_of_not_lt full)]
  | take => cases items <;> simp [Fifo.call]
  | offer t =>
      rw [Fifo.call]
      split <;> simp
  | poll => cases items <;> simp [Fifo.call]
  | empty => simp [Fifo.call]
  | full => simp [Fifo.call]
  | size => simp [Fifo.call]

/-- A call that completes leaves the queue as it is, or it stores an element and notifies
those that wait for one, or it takes one out and notifies those that wait for room. -/
theorem call_cases {label : QueueCall T} {answer : QueueAnswer T}
    (completes : Fifo.call label fifo = .ok (answer, fifo')) :
    fifo' = fifo ∨
      (fifo.items.length < capacity ∧ queueNotifies label answer .mCondEmpty = true) ∨
      (fifo.items ≠ [] ∧ queueNotifies label answer .mCondFull = true) := by
  rcases fifo with ⟨items, within⟩
  cases label with
  | put t =>
      rw [Fifo.call] at completes
      split at completes
      · rename_i room
        exact Or.inr (Or.inl ⟨room, rfl⟩)
      · cases completes
  | take =>
      cases items with
      | nil => cases completes
      | cons t rest => exact Or.inr (Or.inr ⟨List.cons_ne_nil t rest, rfl⟩)
  | offer t =>
      rw [Fifo.call] at completes
      split at completes
      · rename_i room
        cases completes
        exact Or.inr (Or.inl ⟨room, rfl⟩)
      · cases completes
        exact Or.inl rfl
  | poll =>
      cases items with
      | nil =>
          cases completes
          exact Or.inl rfl
      | cons t rest =>
          cases completes
          exact Or.inr (Or.inr ⟨List.cons_ne_nil t rest, rfl⟩)
  | empty =>
      cases completes
      exact Or.inl rfl
  | full =>
      cases completes
      exact Or.inl rfl
  | size =>
      cases completes
      exact Or.inl rfl

/-- No wake-up is lost. -/
theorem wakes :
    (queueMonitor (Fifo.call : QueueCall T → Fifo T capacity → _)).Wakes fun _ => True where
  preserved := fun _ _ => trivial
  notified := by
    intro fifo fifo' label answer _ completes other waited
    rcases waits_iff.mp waited with ⟨rfl, empty⟩ | ⟨⟨t, rfl⟩, full⟩
    · rcases call_cases completes with same | ⟨_, notified⟩ | ⟨some, _⟩
      · left
        rw [same]
        exact waited
      · exact Or.inr notified
      · exact absurd empty some
    · rcases call_cases completes with same | ⟨room, _⟩ | ⟨_, notified⟩
      · left
        rw [same]
        exact waited
      · exact absurd full room.ne
      · exact Or.inr notified

end Fifo

/-- The element that a completed call has stored. -/
def storedBy {ι : Type} : ι × QueueCall T × QueueAnswer T → Option T
  | (_, .put t, _) => some t
  | (_, .offer t, .offered true) => some t
  | _ => none

/-- The element that a completed call has taken out. -/
def takenBy {ι : Type} : ι × QueueCall T × QueueAnswer T → Option T
  | (_, _, .taken t) => some t
  | (_, _, .polled (some t)) => some t
  | _ => none

namespace Fifo

variable {ι : Type} {capacity : Nat} {fifo fifo' : Fifo T capacity}

theorem filterMap_cons_toList {α β : Type} (f : α → Option β) (first : α) (rest : List α) :
    (first :: rest).filterMap f = (f first).toList ++ rest.filterMap f := by
  cases result : f first with
  | none => simp [result]
  | some b => simp [result]

theorem call_items {thread : ι} {label : QueueCall T} {answer : QueueAnswer T}
    (completes : Fifo.call label fifo = .ok (answer, fifo')) :
    fifo.items ++ (storedBy (thread, label, answer)).toList =
      (takenBy (thread, label, answer)).toList ++ fifo'.items := by
  rcases fifo with ⟨items, within⟩
  cases label with
  | put t =>
      rw [Fifo.call] at completes
      split at completes
      · cases completes
        rfl
      · cases completes
  | take =>
      cases items with
      | nil => cases completes
      | cons t rest =>
          cases completes
          simp [storedBy, takenBy]
  | offer t =>
      rw [Fifo.call] at completes
      split at completes
      · cases completes
        rfl
      · cases completes
        simp [storedBy, takenBy]
  | poll =>
      cases items with
      | nil =>
          cases completes
          rfl
      | cons t rest =>
          cases completes
          simp [storedBy, takenBy]
  | empty =>
      cases completes
      simp [storedBy, takenBy]
  | full =>
      cases completes
      simp [storedBy, takenBy]
  | size =>
      cases completes
      simp [storedBy, takenBy]

/-- The elements are taken out in the order in which they were stored. -/
theorem answers_items {entries : List (ι × QueueCall T × QueueAnswer T)}
    (sequential : answers Fifo.call (entries.map fun entry => entry.2.1) fifo =
      .ok (entries.map fun entry => entry.2.2, fifo')) :
    fifo.items ++ entries.filterMap storedBy = entries.filterMap takenBy ++ fifo'.items := by
  induction entries generalizing fifo with
  | nil =>
      cases sequential
      simp
  | cons entry rest inductionHypothesis =>
      rcases entry with ⟨thread, label, answer⟩
      simp only [List.map_cons, answers] at sequential
      cases called : Fifo.call label fifo with
      | error failure =>
          rw [called] at sequential
          cases sequential
      | ok result =>
          rcases result with ⟨first, middle⟩
          rw [called] at sequential
          cases continued : answers Fifo.call (rest.map fun entry => entry.2.1) middle with
          | error failure =>
              simp only [continued] at sequential
              cases sequential
          | ok last =>
              simp only [continued, Except.ok.injEq, Prod.mk.injEq, List.cons.injEq] at sequential
              rcases sequential with ⟨⟨rfl, sameRest⟩, sameLast⟩
              have others := inductionHypothesis (continued.trans (by rw [← sameRest, ← sameLast]))
              have here : fifo.items ++ (storedBy (thread, label, first)).toList =
                  (takenBy (thread, label, first)).toList ++ middle.items := call_items called
              rw [filterMap_cons_toList, filterMap_cons_toList, ← List.append_assoc, here,
                List.append_assoc, others, List.append_assoc]

end Fifo

section Threads

variable {ι σ : Type} [DecidableEq ι] {capacity : Nat}
  {call : QueueCall T → σ → Except Stuck (QueueAnswer T × σ)} {R : σ → Fifo T capacity → Prop}

/-- What holds of a queue and the threads that use it, when it holds the elements `fifo`. -/
structure Shared (call : QueueCall T → σ → Except Stuck (QueueAnswer T × σ))
    (fifo : Fifo T capacity) (state : Monitored ι (QueueCall T) σ (QueueAnswer T)) : Prop where
  /-- The completed calls, with their answers, are those of one bounded queue. -/
  sequential : answers Fifo.call (state.completed.map fun entry => entry.2.1) Fifo.nil =
    .ok (state.completed.map fun entry => entry.2.2, fifo)
  /-- The elements were taken out in the order in which they were stored. -/
  elements : state.completed.filterMap storedBy = state.completed.filterMap takenBy ++ fifo.items
  /-- A thread sleeps only in a `take` of an empty queue or in a `put` into a full one. -/
  sleeping : ∀ thread label, state.threads thread = .asleep label →
    label = .take ∧ fifo.items = [] ∨ (∃ t, label = .put t) ∧ fifo.items.length = capacity
  /-- A thread that is awake completes its call, or it has to wait. -/
  waking : ∀ thread label, state.threads thread = .awake label →
    ∃ state', (queueMonitor call).next (.resume thread) state = some state' ∧
      (state'.threads thread = .idle ∨ state'.threads thread = .asleep label ∧
        Fifo.call label fifo = .error .waits)

theorem Shared.of_reachable (refines : Refines R call Fifo.call) {start : σ}
    (related : R start Fifo.nil) {state : Monitored ι (QueueCall T) σ (QueueAnswer T)}
    (reachable : Reachable (queueMonitor call).next (Monitored.new start) state) :
    ∃ fifo, R state.shared fifo ∧ Shared call fifo state := by
  have wakes : (queueMonitor call).Wakes fun state => ∃ fifo, R state fifo ∧ True :=
    Fifo.wakes.of_refines refines rfl rfl fun _ _ _ => rfl
  have orderly := Reachable.orderly wakes ⟨Fifo.nil, related, trivial⟩ reachable
  have sequential := refines.answers (state.completed.map fun entry => entry.2.1) related
  rcases sequential.exists_abstract orderly.sequential with ⟨fifo, abstractRun, holds⟩
  have waits_iff : ∀ label, call label state.shared = .error .waits ↔
      Fifo.call label fifo = .error .waits :=
    fun label => (refines label state.shared fifo holds).error_iff
  use fifo, holds
  constructor
  · exact abstractRun
  · exact Fifo.answers_items abstractRun
  · intro thread label asleep
    exact Fifo.waits_iff.mp ((waits_iff label).mp (orderly.sleeping thread label asleep))
  · intro thread label awake
    rcases (queueMonitor call).resume_cases awake (fun failure failed =>
      Fifo.eq_waits ((refines label state.shared fifo holds).error_iff.mp failed)) with
      ⟨state', resumed, idle | ⟨asleep, waits⟩⟩
    · exact ⟨state', resumed, Or.inl idle⟩
    · exact ⟨state', resumed, Or.inr ⟨asleep, (waits_iff label).mp waits⟩⟩

/-- No one sleeps for an element and for room at once. -/
theorem Shared.not_both {fifo : Fifo T capacity}
    {state : Monitored ι (QueueCall T) σ (QueueAnswer T)} (shared : Shared call fifo state)
    (positive : 1 ≤ capacity) {taker putter : ι} {t : T}
    (taking : state.threads taker = .asleep .take) :
    state.threads putter ≠ .asleep (.put t) := by
  intro putting
  rcases shared.sleeping taker _ taking with ⟨_, empty⟩ | ⟨⟨_, isPut⟩, _⟩
  · rcases shared.sleeping putter _ putting with ⟨isTake, _⟩ | ⟨_, full⟩
    · cases isTake
    · rw [empty] at full
      exact absurd full.symm (Nat.ne_of_gt positive)
  · cases isPut

end Threads

/-- Any number of threads may call a `BlockQueue` in any order: their completed calls are
answered as by one bounded queue, its elements come out in the order in which they went in,
no thread sleeps in a call that could complete, and not both a `take` and a `put` sleep. -/
theorem blockQueue_threads {ι : Type} [DecidableEq ι] [Inhabited T] {capacity : Nat}
    (positive : 1 ≤ capacity) (isInt : (capacity : Int) ≤ intMax)
    {state : Monitored ι (QueueCall T) (BlockQueue T) (QueueAnswer T)}
    (reachable : Reachable (queueMonitor BlockQueue.call).next
      (Monitored.new (BlockQueue.new capacity)) state) :
    ∃ fifo : Fifo T capacity, state.shared.Holds capacity fifo ∧
      Shared BlockQueue.call fifo state ∧
      ∀ taker putter t, state.threads taker = .asleep .take →
        state.threads putter ≠ .asleep (.put t) := by
  rcases Shared.of_reachable (BlockQueue.refines isInt) (BlockQueue.Holds.new positive)
    reachable with ⟨fifo, holds, shared⟩
  exact ⟨fifo, holds, shared, fun _ _ _ taking => shared.not_both positive taking⟩

/-- The first thread takes from the empty queue and sleeps; the second one puts an element. -/
def smallThreads : Monitored Nat (QueueCall Nat) (BlockQueue Nat) (QueueAnswer Nat) :=
  let start := Monitored.new (BlockQueue.new 1)
  (run (queueMonitor BlockQueue.call).next [.call 0 .take, .call 1 (.put 7)] start).getD start

theorem blockQueue_threads_two :
    smallThreads.threads 0 = .awake .take ∧
      ∃ fifo : Fifo Nat 1, smallThreads.shared.Holds 1 fifo ∧
        Shared BlockQueue.call fifo smallThreads := by
  have executed : run (queueMonitor BlockQueue.call).next [.call 0 .take, .call 1 (.put 7)]
      (Monitored.new (BlockQueue.new 1)) = some smallThreads := rfl
  rcases blockQueue_threads (by decide) (by decide) (Reachable.of_run executed) with
    ⟨fifo, holds, shared, _⟩
  exact ⟨rfl, fifo, holds, shared⟩

/-! ## Windows -/

inductive WindowCall (T : Type)
  | put (t : T) (idx : Nat)
  | get
  | poll

inductive WindowAnswer (T : Type)
  | done
  | got (t : T)
  | polled (t : Option T)
  /-- The assertion of `put` throws. -/
  | threw (fault : Fault)

namespace SlidingWindow

/-- `SlidingWindow::get`. -/
def get (window : SlidingWindow T) : Except Stuck (T × SlidingWindow T) :=
  if window.capacity ≤ window.head then .error .outside
  else
    match window.slots window.head with
    | none => .error .waits
    | some res =>
        .ok (res,
          { window with
            slots := Function.update window.slots window.head none
            head := (window.head + 1) % window.capacity })

def call : WindowCall T → SlidingWindow T → Except Stuck (WindowAnswer T × SlidingWindow T)
  | .put t idx, window =>
      match window.put t idx with
      | .error .outsideWindow => .error .outside
      | .error fault => .ok (.threw fault, window)
      | .ok window' => .ok (.done, window')
  | .get, window => window.get.map fun (t, window') => (.got t, window')
  | .poll, window =>
      -- `avaliable_[head_]` of a window without slots
      if window.capacity ≤ window.head then .error .outside
      else
        match window.poll with
        | none => .ok (.polled none, window)
        | some (t, window') => .ok (.polled (some t), window')

/-- A window under its lock; `put` notifies when it fills the slot of the head. -/
def monitor : Monitor (WindowCall T) (SlidingWindow T) (WindowAnswer T) Stuck Unit where
  call := call
  waits := .waits
  condition := fun _ => ()
  notifies := fun label window answer _ =>
    match label, answer with
    | .put _ idx, .done => idx = window.head
    | _, _ => false

variable {window window' : SlidingWindow T}

/-- Only a `get` waits, and only for the slot of the head. -/
theorem waits_iff {label : WindowCall T} :
    call label window = .error .waits ↔
      label = .get ∧ window.head < window.capacity ∧ window.slots window.head = none := by
  cases label with
  | put t idx =>
      rw [call]
      split <;> simp
  | get =>
      rw [call, get]
      split
      · rename_i outside
        simp [Except.map, not_lt.mpr outside]
      · rename_i inside
        split
        · rename_i free
          simp [free, Except.map, not_le.mp inside]
        · rename_i held
          simp [held, Except.map]
  | poll =>
      rw [call]
      split
      · simp
      · split <;> simp

/-- A `get` of a slot fails only by waiting. -/
theorem eq_waits (inside : window.head < window.capacity) {stuck : Stuck}
    (failed : call .get window = .error stuck) : stuck = .waits := by
  rw [call, get, if_neg (not_le.mpr inside)] at failed
  split at failed
  · cases failed
    rfl
  · cases failed

/-- What a call that completes does to the window: it leaves it as it is, fills a slot, or
empties the slot of the head and moves on. -/
theorem call_cases {label : WindowCall T} {answer : WindowAnswer T}
    (completes : call label window = .ok (answer, window')) :
    window' = window ∨
      (∃ t idx, label = .put t idx ∧ answer = .done ∧
        window' = { window with slots := Function.update window.slots idx (some t) }) ∨
      (window.head < window.capacity ∧ window.slots window.head ≠ none ∧
        window' = { window with
          slots := Function.update window.slots window.head none
          head := (window.head + 1) % window.capacity }) := by
  cases label with
  | put t idx =>
      rw [call] at completes
      split at completes
      · cases completes
      · cases completes
        exact Or.inl rfl
      · rename_i stored
        cases completes
        rcases put_cases stored with ⟨_, _, isStored⟩
        exact Or.inr (Or.inl ⟨t, idx, rfl, rfl, isStored⟩)
  | get =>
      rw [call, get] at completes
      split at completes
      · cases completes
      · rename_i inside
        split at completes
        · cases completes
        · rename_i held
          cases completes
          refine Or.inr (Or.inr ⟨not_le.mp inside, ?_, rfl⟩)
          rw [held]
          exact Option.some_ne_none _
  | poll =>
      rw [call, poll] at completes
      split at completes
      · cases completes
      · rename_i inside
        cases held : window.slots window.head with
        | none =>
            simp only [held] at completes
            cases completes
            exact Or.inl rfl
        | some t =>
            simp only [held] at completes
            cases completes
            exact Or.inr (Or.inr ⟨not_le.mp inside, Option.some_ne_none t, rfl⟩)

/-- The head is one of the slots, if there are any. -/
def Within (capacity : Nat) (window : SlidingWindow T) : Prop :=
  window.capacity = capacity ∧ (0 < capacity → window.head < capacity)

theorem Within.call {capacity : Nat} (within : Within capacity window) {label : WindowCall T}
    {answer : WindowAnswer T} (completes : call label window = .ok (answer, window')) :
    Within capacity window' := by
  rcases call_cases completes with rfl | ⟨t, idx, rfl, rfl, rfl⟩ | ⟨_, _, rfl⟩
  · exact within
  · exact within
  · refine ⟨within.1, fun positive => ?_⟩
    simp only [within.1]
    exact Nat.mod_lt _ positive

/-- No wake-up is lost, although a `put` into another slot does not notify. -/
theorem wakes (capacity : Nat) : (monitor (T := T)).Wakes (Within capacity) where
  preserved := fun within completes => within.call completes
  notified := by
    intro window window' label answer _ completes other waited
    rcases waits_iff.mp waited with ⟨rfl, inside, free⟩
    rcases call_cases completes with rfl | ⟨t, idx, rfl, rfl, rfl⟩ | ⟨_, held, _⟩
    · exact Or.inl waited
    · by_cases atHead : idx = window.head
      · right
        simp [monitor, atHead]
      · left
        have stillFree : Function.update window.slots idx (some t) window.head = none := by
          rw [Function.update_of_ne (Ne.symm atHead)]
          exact free
        rw [monitor, waits_iff]
        exact ⟨rfl, inside, stillFree⟩
    · exact absurd free held

end SlidingWindow

/-- Any number of threads may call a `SlidingWindow` in any order: their completed calls are
those of one sequential run, a thread sleeps only in a `get` while the slot of the head is
free, and a thread that is awake completes its `get` unless the slot is free. -/
theorem slidingWindow_threads {ι : Type} [DecidableEq ι] {capacity : Nat}
    {state : Monitored ι (WindowCall T) (SlidingWindow T) (WindowAnswer T)}
    (reachable : Reachable SlidingWindow.monitor.next
      (Monitored.new (SlidingWindow.new capacity)) state) :
    answers SlidingWindow.call (state.completed.map fun entry => entry.2.1)
        (SlidingWindow.new capacity) =
      .ok (state.completed.map fun entry => entry.2.2, state.shared) ∧
    (∀ thread label, state.threads thread = .asleep label →
      label = .get ∧ state.shared.slots state.shared.head = none) ∧
    ∀ thread label, state.threads thread = .awake label →
      ∃ state', SlidingWindow.monitor.next (.resume thread) state = some state' ∧
        (state'.threads thread = .idle ∨ state'.threads thread = .asleep label ∧
          state.shared.slots state.shared.head = none) := by
  have within : SlidingWindow.Within capacity (SlidingWindow.new capacity : SlidingWindow T) :=
    ⟨rfl, fun positive => positive⟩
  have orderly := Reachable.orderly (SlidingWindow.wakes capacity) within reachable
  use orderly.sequential
  constructor
  · intro thread label asleep
    rcases SlidingWindow.waits_iff.mp (orderly.sleeping thread label asleep) with ⟨isGet, _, free⟩
    exact ⟨isGet, free⟩
  · intro thread label awake
    have pending : (state.threads thread).pending = some label := by
      rw [awake, Phase.pending]
    rcases orderly.waited thread label pending with ⟨earlier, withinEarlier, waited⟩
    rcases SlidingWindow.waits_iff.mp waited with ⟨rfl, insideEarlier, _⟩
    -- the thread has waited for a slot, so there are slots
    have positive : 0 < capacity := by
      rw [← withinEarlier.1]
      exact Nat.zero_lt_of_lt insideEarlier
    have inside : state.shared.head < state.shared.capacity := by
      rw [orderly.holds.1]
      exact orderly.holds.2 positive
    rcases SlidingWindow.monitor.resume_cases awake (fun _ failed =>
      SlidingWindow.eq_waits inside failed) with ⟨state', resumed, idle | ⟨asleep, waits⟩⟩
    · exact ⟨state', resumed, Or.inl idle⟩
    · rw [SlidingWindow.monitor, SlidingWindow.waits_iff] at waits
      exact ⟨state', resumed, Or.inr ⟨asleep, waits.2.2⟩⟩

/-- The first thread waits for the head of a window of two, the second one fills the other
slot and then the head. -/
def smallWindow : Monitored Nat (WindowCall Nat) (SlidingWindow Nat) (WindowAnswer Nat) :=
  let start := Monitored.new (SlidingWindow.new 2)
  (run SlidingWindow.monitor.next [.call 0 .get, .call 1 (.put 8 1), .call 1 (.put 7 0)]
    start).getD start

theorem slidingWindow_threads_two :
    smallWindow.threads 0 = .awake .get ∧
      ∃ state', SlidingWindow.monitor.next (.resume 0) smallWindow = some state' ∧
        state'.threads 0 = .idle := by
  have executed : run SlidingWindow.monitor.next
      [.call 0 .get, .call 1 (.put 8 1), .call 1 (.put 7 0)]
      (Monitored.new (SlidingWindow.new 2)) = some smallWindow := rfl
  have awake : smallWindow.threads 0 = .awake .get := rfl
  rcases (slidingWindow_threads (Reachable.of_run executed)).2.2 0 .get awake with
    ⟨state', resumed, idle | ⟨_, free⟩⟩
  · exact ⟨awake, state', resumed, idle⟩
  · cases free

end PpiwTrading
