import PpiwTrading.System.FlowControl

/-!
# A call of `comsumeOrder`

The loop of `comsumeOrder` polls a window that the order receiver refills while
the loop runs.  It ends because the traders wait for an acknowledgement: an order
that has arrived is at most a window above the last acknowledgement that was put,
and the one for the orders of this call is put after the loop.

A call takes its steps in between any steps of the other threads.
-/

namespace PpiwTrading.System

open PpiwTrading.Heap
open PpiwTrading.Sequence
open PpiwTrading.Trader
open PpiwTrading.Exchange

variable {P : Type}

deriving instance DecidableEq for Action

/-- The acknowledgement for the orders of a call. -/
def ackOf (stkCode : Int) (orders : List (Order P)) : Option OrderAck :=
  orders.getLast?.map fun last => ⟨stkCode, last.orderId⟩

/-- Where a call of `comsumeOrder` is, with its vector `orders`: polling the
window, about to put the acknowledgement, or back with what it has put. -/
inductive Call (P : Type)
  | polling (orders : List (Order P))
  | putting (orders : List (Order P)) (ack : OrderAck)
  | returned (orders : List (Order P)) (ack : Option OrderAck)

/-- A step while a thread is in a call: of the call, or of another thread. -/
inductive CallAction
  | call
  | other (action : Action)
  deriving DecidableEq

namespace Call

def orders : Call P → List (Order P)
  | polling orders => orders
  | putting orders _ => orders
  | returned orders _ => orders

/-- What has been put. -/
def acks : Call P → List OrderAck
  | polling _ => []
  | putting _ _ => []
  | returned _ ack => ack.toList

theorem acks_eq_nil {call : Call P} (going : ∀ orders ack, call ≠ .returned orders ack) :
    call.acks = [] := by
  cases call with
  | polling orders => rfl
  | putting orders ack => rfl
  | returned orders ack => exact absurd rfl (going orders ack)

/-- The number of steps a call has made. -/
def steps : Call P → Nat
  | polling orders => orders.length
  | putting orders _ => orders.length + 1
  | returned orders ack => orders.length + 1 + ack.toList.length

section Step

variable [LinearOrder P] [Zero P] (algorithms : HeapAlgorithms) (config : Config)
  (inputs : Nat → TraderInput P) (e : Nat) (s : Int)

/-- A step of `comsumeOrder`; `none` while the acknowledgement cannot be put. -/
def step (network : Network P) : Call P → Option (Network P × Call P)
  | polling orders =>
      match ((network.exchanges e).orderBuffer s).poll with
      | some (order, _) =>
          (Network.next algorithms config inputs (.work e s) network).map fun network' =>
            (network', polling (orders ++ [order]))
      | none =>
          match ackOf s orders with
          | some ack =>
              (Network.next algorithms config inputs (.work e s) network).map fun network' =>
                (network', putting orders ack)
          | none =>
              if network.ExchangeRuns config e then some (network, returned orders none) else none
  | putting orders ack =>
      (Network.next algorithms config inputs (.work e s) network).map fun network' =>
        (network', returned orders (some ack))
  | returned _ _ => none

/-- A step of the system while the thread of stock `s` is in a call. -/
def next (action : CallAction) (state : Network P × Call P) : Option (Network P × Call P) :=
  match action with
  | .call => step algorithms config inputs e s state.1 state.2
  | .other action =>
      if action = .work e s then none
      else (Network.next algorithms config inputs action state.1).map fun network' =>
        (network', state.2)

end Step

/-- The phase of the thread agrees with the call, and the acknowledgement is that
of its orders. -/
def Agrees (s : Int) (phase : Phase P) : Call P → Prop
  | polling orders => phase = .consuming orders
  | putting orders ack => phase = .acking orders ∧ ackOf s orders = some ack
  | returned orders ack => ackOf s orders = ack

end Call

/-! ## Steps of the threads -/

theorem threads_receiveOrder (config : Config) (partitionIdx : Nat) (ex : ExchangeState P)
    (traderIdx : Nat) (order : Order P) :
    (ex.receiveOrder config partitionIdx traderIdx order).threads = ex.threads := by
  simp only [ExchangeState.receiveOrder]
  split <;> rfl

section Work

variable [LinearOrder P] [Zero P] {algorithms : HeapAlgorithms} {config : Config}
  {ex ex' : ExchangeState P} {s : Int} {orders : List (Order P)}

theorem work_poll (consuming : (ex.threads s).phase = .consuming orders) {order : Order P}
    {window : SlidingWindow (Order P)} (polled : (ex.orderBuffer s).poll = some (order, window))
    (step : ex.work algorithms config s = some ex') :
    (ex'.threads s).phase = .consuming (orders ++ [order]) ∧
      (ex'.threads s).polled = (ex.threads s).polled ++ [order] ∧ ex'.sent = ex.sent := by
  simp only [ExchangeState.work, consuming, ExchangeState.pollSlot, polled] at step
  cases step
  simp [ExchangeState.setThread]

theorem work_stop (consuming : (ex.threads s).phase = .consuming orders)
    (free : (ex.orderBuffer s).poll = none) (step : ex.work algorithms config s = some ex') :
    (ex'.threads s).phase = .acking orders ∧
      (ex'.threads s).polled = (ex.threads s).polled ∧ ex'.sent = ex.sent := by
  simp only [ExchangeState.work, consuming, ExchangeState.pollSlot, free] at step
  split at step
  · cases step
  · cases step
    simp [ExchangeState.setThread]

theorem work_ack (acking : (ex.threads s).phase = .acking orders) {ack : OrderAck}
    (isAck : ackOf s orders = some ack) (step : ex.work algorithms config s = some ex') :
    (ex'.threads s).polled = (ex.threads s).polled ∧ ex'.sent = ex.sent ++ [.ack ack] := by
  rcases Option.map_eq_some_iff.mp isAck with ⟨last, isLast, rfl⟩
  simp only [ExchangeState.work, acking, ExchangeState.ackOrders, isLast] at step
  split at step
  · cases step
    simp [ExchangeState.setThread, ExchangeState.putMsg]
  · cases step

omit [LinearOrder P] [Zero P] in
theorem threads_setThread_of_ne {s' : Int} (other : s' ≠ s) (ex : ExchangeState P)
    (thread : StockThread P) : (ex.setThread s' thread).threads s = ex.threads s := by
  rw [ExchangeState.setThread]
  exact Function.update_of_ne other.symm thread ex.threads

/-- A thread leaves the other threads and their acknowledgements as they are. -/
theorem work_other {s' : Int} (other : s' ≠ s) (step : ex.work algorithms config s' = some ex') :
    ex'.threads s = ex.threads s ∧ acksOf s ex'.sent = acksOf s ex.sent := by
  have others := threads_setThread_of_ne (P := P) other
  unfold ExchangeState.work at step
  simp only at step
  split at step
  · unfold ExchangeState.pollSlot at step
    split at step
    · cases step
      exact ⟨others _ _, rfl⟩
    · split at step
      · cases step
      · cases step
        exact ⟨others _ _, rfl⟩
  · unfold ExchangeState.ackOrders at step
    split at step
    · cases step
    · rename_i last _
      split at step
      · cases step
        have foreign : acksOf s [(Msg.ack ⟨s', last.orderId⟩ : Msg P)] = [] :=
          acksOf_of_ne other
        constructor
        · exact others _ _
        · simp only [ExchangeState.setThread, ExchangeState.putMsg]
          rw [acksOf_append, foreign, List.append_nil]
      · cases step
  · unfold ExchangeState.produceTrade at step
    split at step
    · cases step
      exact ⟨others _ _, by simp [ExchangeState.setThread, ExchangeState.putMsg, acksOf_append]⟩
    · cases step
  · cases step
    unfold ExchangeState.receiveNext
    split
    · exact ⟨rfl, rfl⟩
    · exact ⟨others _ _, rfl⟩
  · cases step
    exact ⟨others _ _, rfl⟩

end Work

variable [LinearOrder P] [Zero P] {algorithms : HeapAlgorithms} {config : Config}
  {inputs : Nat → TraderInput P} {network network' start : Network P} {orderNum : Int → Nat}
  {e : Nat} {s : Int}

/-- The step of a thread is a step of its exchange. -/
theorem next_work (performed : Network.next algorithms config inputs (.work e s) network =
      some network') :
    (network.exchanges e).work algorithms config s = some (network'.exchanges e) := by
  simp only [Network.next] at performed
  split at performed
  · rcases Option.map_eq_some_iff.mp performed with ⟨ex, step, rfl⟩
    rw [step]
    simp [Network.setExchange]
  · cases performed

/-- The thread of a stock and its acknowledgements are as before. -/
def SameThread (e : Nat) (s : Int) (network network' : Network P) : Prop :=
  (network'.exchanges e).threads s = (network.exchanges e).threads s ∧
    acksOf s (network'.exchanges e).sent = acksOf s (network.exchanges e).sent

section SameThread

omit [LinearOrder P] [Zero P]

theorem SameThread.update {e' : Nat} {ex : ExchangeState P}
    (exchanges : network'.exchanges = Function.update network.exchanges e' ex)
    (same : e' = e → ex.threads s = (network.exchanges e').threads s ∧
      acksOf s ex.sent = acksOf s (network.exchanges e').sent) :
    SameThread e s network network' := by
  rw [SameThread, exchanges]
  by_cases isSame : e' = e
  · subst isSame
    rw [Function.update_self]
    exact same rfl
  · rw [Function.update_of_ne (Ne.symm isSame)]
    exact ⟨rfl, rfl⟩

/-- A step of an exchange that concerns no thread and puts nothing. -/
theorem SameThread.frame {e' : Nat} {ex : ExchangeState P}
    (exchanges : network'.exchanges = Function.update network.exchanges e' ex)
    (threads : ex.threads = (network.exchanges e').threads)
    (sent : ex.sent = (network.exchanges e').sent) : SameThread e s network network' := by
  apply SameThread.update exchanges
  intro _
  rw [threads, sent]
  exact ⟨rfl, rfl⟩

end SameThread

/-- A step of another thread leaves the thread and its acknowledgements as they
are. -/
theorem sameThread_of_other {action : Action} (other : action ≠ .work e s)
    (performed : Network.next algorithms config inputs action network = some network') :
    SameThread e s network network' := by
  cases action with
  | work e' s' =>
      simp only [Network.next] at performed
      split at performed
      · rcases Option.map_eq_some_iff.mp performed with ⟨ex, step, rfl⟩
        apply SameThread.update rfl
        rintro rfl
        apply work_other _ step
        rintro rfl
        exact other rfl
      · cases performed
  | receiveOrder tr e' =>
      simp only [Network.next] at performed
      split at performed
      · split at performed
        · cases performed
        · cases performed
          exact SameThread.frame rfl (threads_receiveOrder _ _ _ _ _)
            (receiveOrder_sender _ _ _ _ _).1
      · cases performed
  | takeMsg e' =>
      simp only [Network.next] at performed
      split at performed
      · rcases Option.map_eq_some_iff.mp performed with ⟨ex, step, rfl⟩
        rcases takeMsg_frame step with ⟨-, threads, sent, -, -⟩
        exact SameThread.frame rfl threads sent
      · cases performed
  | sendMsg e' =>
      simp only [Network.next] at performed
      split at performed
      · rcases Option.map_eq_some_iff.mp performed with ⟨⟨⟨msg, idx⟩, ex⟩, step, rfl⟩
        rcases sendMsg_frame step with ⟨-, threads, sent, -, -⟩
        exact SameThread.frame rfl threads sent
      · cases performed
  | control tr | pollOrder tr e' | sendOrder tr e' =>
      -- a trader changes no exchange
      simp only [Network.next] at performed
      split at performed
      · rcases Option.map_eq_some_iff.mp performed with ⟨trader, -, rfl⟩
        exact ⟨rfl, rfl⟩
      · cases performed
  | receiveMsg tr e' =>
      simp only [Network.next] at performed
      split at performed
      · split at performed
        · cases performed
        · cases performed
          exact ⟨rfl, rfl⟩
      · cases performed

/-! ## The bound of the traders -/

/-- An order that has arrived is at most a window above the last acknowledgement
that was put. -/
theorem Consistent.arrived_le (consistent : Consistent algorithms config inputs network)
    (exchange : e < config.exchangeNum) {o : Order P}
    (arrived : (network.exchanges e).Arrived s o) :
    o.orderId ≤ lastAck s (network.exchanges e).sent + config.slidingWindowSize := by
  rcases consistent.arrived_accepted exchange arrived with ⟨owns, tr, trader, _, accepted⟩
  have bounded := (consistent.dispatched tr trader).bounded s o accepted
  have start := (consistent.informed tr trader).starts s
  have known := consistent.lastAck_seen_le trader exchange owns
  rw [owns.2] at start
  omega

/-- While the head is available, less than a window is polled and not
acknowledged. -/
theorem Consistent.unacked_lt (consistent : Consistent algorithms config inputs network)
    (exchange : e < config.exchangeNum) (owns : config.Owns e s) {order : Order P}
    {window : SlidingWindow (Order P)}
    (polled : ((network.exchanges e).orderBuffer s).poll = some (order, window)) :
    ((network.exchanges e).threads s).phase.unacked.length < config.slidingWindowSize := by
  have serves := (consistent.serving e exchange).serves s owns
  rcases serves.tracks.poll polled with ⟨arrived, isNext, -, -⟩
  have bounded := consistent.arrived_le exchange arrived
  have acked : lastAck s (network.exchanges e).sent + _ = _ := serves.acked
  omega

/-! ## The steps of a call -/

/-- What a call that began in `start` has done so far. -/
structure Calling (config : Config) (e : Nat) (s : Int) (start network : Network P)
    (call : Call P) : Prop where
  agrees : call.Agrees s ((network.exchanges e).threads s).phase
  polled : ((network.exchanges e).threads s).polled =
    ((start.exchanges e).threads s).polled ++ call.orders
  acks : acksOf s (network.exchanges e).sent =
    acksOf s (start.exchanges e).sent ++ call.acks.map OrderAck.orderId
  bounded : call.orders.length ≤ config.slidingWindowSize

omit [LinearOrder P] [Zero P] in
theorem Calling.begin (begins : ((start.exchanges e).threads s).phase = .consuming []) :
    Calling config e s start start (.polling []) where
  agrees := begins
  polled := (List.append_nil _).symm
  acks := (List.append_nil _).symm
  bounded := Nat.zero_le _

/-- A step of another thread. -/
theorem Calling.other {call : Call P} (calling : Calling config e s start network call)
    {action : Action} (other : action ≠ .work e s)
    (performed : Network.next algorithms config inputs action network = some network') :
    Calling config e s start network' call := by
  rcases sameThread_of_other other performed with ⟨thread, acks⟩
  constructor
  · rw [thread]
    exact calling.agrees
  · rw [thread]
    exact calling.polled
  · rw [acks]
    exact calling.acks
  · exact calling.bounded

section Own

variable (consistent : Consistent algorithms config inputs network)
  (exchange : e < config.exchangeNum) (owns : config.Owns e s)

include consistent exchange owns in
/-- A poll that takes an order. -/
theorem Calling.poll {orders : List (Order P)}
    (calling : Calling config e s start network (.polling orders)) {order : Order P}
    {window : SlidingWindow (Order P)}
    (head : ((network.exchanges e).orderBuffer s).poll = some (order, window))
    (worked : (network.exchanges e).work algorithms config s = some (network'.exchanges e)) :
    Calling config e s start network' (.polling (orders ++ [order])) := by
  have agrees : ((network.exchanges e).threads s).phase = .consuming orders := calling.agrees
  have below := consistent.unacked_lt exchange owns head
  rw [agrees] at below
  rcases work_poll agrees head worked with ⟨phase, polled, sent⟩
  constructor
  · exact phase
  · rw [polled, calling.polled]
    exact List.append_assoc _ _ _
  · rw [sent]
    exact calling.acks
  · simp only [Call.orders, List.length_append, List.length_singleton]
    exact below

omit consistent exchange owns

/-- A poll that finds the head free after orders were polled. -/
theorem Calling.stop {orders : List (Order P)}
    (calling : Calling config e s start network (.polling orders))
    (free : ((network.exchanges e).orderBuffer s).poll = none) {ack : OrderAck}
    (isAck : ackOf s orders = some ack)
    (worked : (network.exchanges e).work algorithms config s = some (network'.exchanges e)) :
    Calling config e s start network' (.putting orders ack) := by
  rcases work_stop calling.agrees free worked with ⟨phase, polled, sent⟩
  constructor
  · exact ⟨phase, isAck⟩
  · rw [polled]
    exact calling.polled
  · rw [sent]
    exact calling.acks
  · exact calling.bounded

/-- The acknowledgement is put. -/
theorem Calling.put {orders : List (Order P)} {ack : OrderAck}
    (calling : Calling config e s start network (.putting orders ack))
    (worked : (network.exchanges e).work algorithms config s = some (network'.exchanges e)) :
    Calling config e s start network' (.returned orders (some ack)) := by
  rcases calling.agrees with ⟨acking, isAck⟩
  rcases work_ack acking isAck worked with ⟨polled, sent⟩
  rcases Option.map_eq_some_iff.mp isAck with ⟨last, -, ofStock⟩
  constructor
  · exact isAck
  · rw [polled]
    exact calling.polled
  · rw [sent, acksOf_append, acksOf_ack_self (ofStock ▸ rfl), calling.acks]
    simp [Call.acks]
  · exact calling.bounded

include consistent exchange owns in
/-- A step of the call itself. -/
theorem Calling.step {call call' : Call P} (calling : Calling config e s start network call)
    (performed : Call.step algorithms config inputs e s network call = some (network', call')) :
    Calling config e s start network' call' ∧ call'.steps = call.steps + 1 ∧
      (network' = network ∨
        Network.next algorithms config inputs (.work e s) network = some network') := by
  cases call with
  | polling orders =>
      simp only [Call.step] at performed
      cases head : ((network.exchanges e).orderBuffer s).poll with
      | some found =>
          rcases found with ⟨order, window⟩
          rw [head] at performed
          rcases Option.map_eq_some_iff.mp performed with ⟨reached, worked, same⟩
          cases same
          exact ⟨calling.poll consistent exchange owns head (next_work worked),
            List.length_append, Or.inr worked⟩
      | none =>
          rw [head] at performed
          simp only at performed
          cases isAck : ackOf s orders with
          | some ack =>
              rw [isAck] at performed
              rcases Option.map_eq_some_iff.mp performed with ⟨reached, worked, same⟩
              cases same
              exact ⟨calling.stop head isAck (next_work worked), rfl, Or.inr worked⟩
          | none =>
              -- nothing was polled, and the call returns without a step of the thread
              rw [isAck] at performed
              simp only at performed
              split at performed
              · cases performed
                exact ⟨⟨isAck, calling.polled, calling.acks, calling.bounded⟩, rfl, Or.inl rfl⟩
              · cases performed
  | putting orders ack =>
      rcases Option.map_eq_some_iff.mp performed with ⟨reached, worked, same⟩
      cases same
      exact ⟨calling.put (next_work worked), rfl, Or.inr worked⟩
  | returned orders ack => cases performed

end Own

/-- After a whole window the head is free. -/
theorem Calling.free_of_whole {orders : List (Order P)}
    (calling : Calling config e s start network (.polling orders))
    (consistent : Consistent algorithms config inputs network)
    (exchange : e < config.exchangeNum) (owns : config.Owns e s)
    (whole : orders.length = config.slidingWindowSize) :
    ((network.exchanges e).orderBuffer s).poll = none := by
  have agrees : ((network.exchanges e).threads s).phase = .consuming orders := calling.agrees
  cases head : ((network.exchanges e).orderBuffer s).poll with
  | none => rfl
  | some found =>
      have below := consistent.unacked_lt exchange owns head
      rw [agrees] at below
      exact absurd whole below.ne

/-- A poll never waits. -/
theorem Calling.step_isSome {orders : List (Order P)}
    (calling : Calling config e s start network (.polling orders)) (owns : config.Owns e s)
    (runs : network.ExchangeRuns config e) :
    (Call.step algorithms config inputs e s network (.polling orders)).isSome = true := by
  have agrees : ((network.exchanges e).threads s).phase = .consuming orders := calling.agrees
  have enabled : network.ExchangeRuns config e ∧ config.Owns e s := ⟨runs, owns⟩
  rw [Call.step]
  cases head : ((network.exchanges e).orderBuffer s).poll with
  | some found =>
      simp [Network.next, enabled, ExchangeState.work, agrees, ExchangeState.pollSlot, head]
  | none =>
      cases isAck : ackOf s orders with
      | some ack =>
          have polled : orders ≠ [] := by
            rintro rfl
            cases isAck
          simp [Network.next, enabled, ExchangeState.work, agrees, ExchangeState.pollSlot, head,
            polled]
      | none => simp [runs]

/-- The acknowledgement is put as soon as the message queue has room. -/
theorem Calling.put_returns {orders : List (Order P)} {ack : OrderAck}
    (calling : Calling config e s start network (.putting orders ack)) (owns : config.Owns e s)
    (runs : network.ExchangeRuns config e)
    (room : (network.exchanges e).msgQueue.length < config.msgQueueCapacity) :
    ∃ network', Call.step algorithms config inputs e s network (.putting orders ack) =
      some (network', .returned orders (some ack)) := by
  rcases calling.agrees with ⟨acking, isAck⟩
  rcases Option.map_eq_some_iff.mp isAck with ⟨last, isLast, -⟩
  have enabled : network.ExchangeRuns config e ∧ config.Owns e s := ⟨runs, owns⟩
  rw [Call.step]
  simp [Network.next, enabled, ExchangeState.work, acking, ExchangeState.ackOrders, isLast, room]

omit [LinearOrder P] [Zero P] in
theorem Calling.steps_le {call : Call P} (calling : Calling config e s start network call) :
    call.steps ≤ config.slidingWindowSize + 2 := by
  have bounded := calling.bounded
  cases call with
  | polling orders => exact bounded.trans (Nat.le_add_right _ 2)
  | putting orders ack => exact Nat.succ_le_succ (bounded.trans (Nat.le_succ _))
  | returned orders ack =>
      have atMostOne : ack.toList.length ≤ 1 := by cases ack <;> simp
      simp only [Call.steps, Call.orders] at bounded ⊢
      omega

section Run

variable (partitioned : Partitioned config inputs orderNum) (exchange : e < config.exchangeNum)
  (owns : config.Owns e s) {call call' : Call P}

include partitioned exchange owns

/-- A step during a call. -/
theorem Calling.next {action : CallAction}
    (reachable : Network.Reachable algorithms config inputs network)
    (calling : Calling config e s start network call)
    (performed : Call.next algorithms config inputs e s action (network, call) =
      some (network', call')) :
    Network.Reachable algorithms config inputs network' ∧
      Calling config e s start network' call' ∧
      call'.steps = call.steps + [action].count .call := by
  cases action with
  | call =>
      rcases calling.step (reachable.consistent partitioned) exchange owns performed with
        ⟨calling', counted, still | moved⟩
      · exact ⟨still ▸ reachable, calling', counted⟩
      · exact ⟨reachable.tail moved, calling', counted⟩
  | other action =>
      simp only [Call.next] at performed
      split at performed
      · cases performed
      · rename_i other
        rcases Option.map_eq_some_iff.mp performed with ⟨reached, moved, same⟩
        cases same
        exact ⟨reachable.tail moved, calling.other other moved, rfl⟩

/-- Any number of steps during a call. -/
theorem Calling.run {actions : List CallAction}
    (reachable : Network.Reachable algorithms config inputs network)
    (calling : Calling config e s start network call)
    (executed : Transition.run (Call.next algorithms config inputs e s) actions (network, call) =
      some (network', call')) :
    Network.Reachable algorithms config inputs network' ∧
      Calling config e s start network' call' ∧ call'.steps = call.steps + actions.count .call := by
  induction actions generalizing network call with
  | nil =>
      cases executed
      exact ⟨reachable, calling, rfl⟩
  | cons action rest inductionHypothesis =>
      rw [Transition.run] at executed
      cases performed : Call.next algorithms config inputs e s action (network, call) with
      | none =>
          rw [performed] at executed
          cases executed
      | some state =>
          rw [performed] at executed
          rcases Calling.next partitioned exchange owns reachable calling performed with
            ⟨reachable₁, calling₁, first⟩
          rcases inductionHypothesis reachable₁ calling₁ executed with
            ⟨reachable', calling', others⟩
          constructor
          · exact reachable'
          constructor
          · exact calling'
          · rw [others, first, Nat.add_assoc, ← List.count_append, List.singleton_append]

end Run

/-! ## The call as a whole -/

/-- What holds of a call that began in `start` after `steps` steps of its own:
it has polled at most a window, after a whole window the head is free, and the
poll that comes next is always possible while the process runs; so it has left
the loop when it has made more steps than a window has slots.  Then it holds the
acknowledgement of its last order and puts it as soon as the message queue has room.
Until it returns it has put no acknowledgement, and then it has put the one of its
last order exactly if it has polled an order. -/
structure CallEnds (algorithms : HeapAlgorithms) (config : Config)
    (inputs : Nat → TraderInput P) (e : Nat) (s : Int) (start network : Network P) (call : Call P)
    (steps : Nat) : Prop where
  polled : ((network.exchanges e).threads s).polled =
    ((start.exchanges e).threads s).polled ++ call.orders
  bounded : call.orders.length ≤ config.slidingWindowSize
  full : ∀ orders, call = .polling orders → orders.length = config.slidingWindowSize →
    ((network.exchanges e).orderBuffer s).poll = none
  polls : ∀ orders, call = .polling orders → network.ExchangeRuns config e →
    (Call.step algorithms config inputs e s network call).isSome = true
  leaves : ∀ orders, call = .polling orders → steps ≤ config.slidingWindowSize
  puts : ∀ orders ack, call = .putting orders ack →
    orders.getLast?.map (fun last => ⟨s, last.orderId⟩) = some ack ∧
      (network.ExchangeRuns config e →
        (network.exchanges e).msgQueue.length < config.msgQueueCapacity →
        ∃ network', Call.step algorithms config inputs e s network call =
          some (network', .returned orders (some ack)))
  ends : steps ≤ config.slidingWindowSize + 2
  silent : (∀ orders ack, call ≠ .returned orders ack) →
    acksOf s (network.exchanges e).sent = acksOf s (start.exchanges e).sent
  acked : ∀ orders ack, call = .returned orders ack →
    ack = orders.getLast?.map (fun last => ⟨s, last.orderId⟩) ∧
      acksOf s (network.exchanges e).sent = acksOf s (start.exchanges e).sent ++
        (orders.getLast?.map Order.orderId).toList

/-- In every reachable state and whatever the other threads do meanwhile, a call
of `comsumeOrder` polls at most a window of orders, leaves its loop, and puts one
acknowledgement with the id of its last order, or none when it has polled nothing. -/
theorem comsumeOrder_ends (partitioned : Partitioned config inputs orderNum)
    (reachable : Network.Reachable algorithms config inputs start)
    (exchange : e < config.exchangeNum) (owns : config.Owns e s)
    (begins : ((start.exchanges e).threads s).phase = .consuming []) {actions : List CallAction}
    {call : Call P}
    (executed : Transition.run (Call.next algorithms config inputs e s) actions
      (start, .polling []) = some (network, call)) :
    CallEnds algorithms config inputs e s start network call (actions.count .call) := by
  rcases Calling.run partitioned exchange owns reachable (Calling.begin begins) executed with
    ⟨reachable', calling, steps⟩
  have consistent := reachable'.consistent partitioned
  have counted : actions.count .call = call.steps := by
    rw [steps]
    exact (Nat.zero_add _).symm
  rw [counted]
  constructor
  · exact calling.polled
  · exact calling.bounded
  · rintro orders rfl whole
    exact calling.free_of_whole consistent exchange owns whole
  · rintro orders rfl runs
    exact calling.step_isSome owns runs
  · rintro orders rfl
    exact calling.bounded
  · rintro orders ack rfl
    exact ⟨calling.agrees.2, calling.put_returns owns⟩
  · exact calling.steps_le
  · intro going
    rw [calling.acks, Call.acks_eq_nil going]
    exact List.append_nil _
  · rintro orders ack rfl
    have isAck : ackOf s orders = ack := calling.agrees
    constructor
    · exact isAck.symm
    · rw [calling.acks, Call.acks, ← isAck, ackOf]
      cases orders.getLast? <;> rfl

/-- The two orders of stock 1 have arrived. -/
def smallArrivals : Network Int :=
  Network.after binaryHeap smallConfig smallInputs (smallRun.take 21)

theorem smallArrivals_reachable :
    Network.Reachable binaryHeap smallConfig smallInputs smallArrivals :=
  Network.after_reachable (by decide +kernel)

/-- A call polls both orders, with a step of a trader in between. -/
theorem comsumeOrder_ends_small :
    ∃ network call,
      Transition.run (Call.next binaryHeap smallConfig smallInputs 1 1)
          [.call, .other (.control 0), .call, .call, .call] (smallArrivals, .polling []) =
          some (network, call) ∧
        call.orders.length = 2 ∧
        CallEnds binaryHeap smallConfig smallInputs 1 1 smallArrivals network call 4 := by
  have performed : (Transition.run (Call.next binaryHeap smallConfig smallInputs 1 1)
      [.call, .other (.control 0), .call, .call, .call] (smallArrivals, .polling [])).map
        (fun state => state.2.orders.length) = some 2 := by decide +kernel
  rcases Option.map_eq_some_iff.mp performed with ⟨⟨network, call⟩, executed, two⟩
  use network, call, executed, two
  exact comsumeOrder_ends smallInputs_partitioned smallArrivals_reachable (by decide) (by decide)
    (by rfl) executed

end PpiwTrading.System
