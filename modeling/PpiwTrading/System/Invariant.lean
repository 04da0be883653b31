import PpiwTrading.System.Network

/-!
# The invariant of the system

`Consistent` puts the invariants of the processes together with two laws of the
channels: what a trader has sent to an exchange is what the exchange has
received followed by what is in the channel, and what an exchange has put is
what a trader has seen followed by what is on its way to it.

The processes depend on each other in a circle.  An order fits into its window
because the trader has seen no acknowledgement beyond the last polled order, and
acknowledgements arrive in order because the exchange has polled in order.  Each
step needs only the state before it, so the invariant is inductive as a whole.
-/

namespace PpiwTrading.System

open PpiwTrading.Heap
open PpiwTrading.Trader
open PpiwTrading.Exchange

variable {P : Type} [LinearOrder P] [Zero P]

structure Consistent (algorithms : HeapAlgorithms) (config : Config)
    (inputs : Nat → TraderInput P) (network : Network P) : Prop where
  running : ∀ tr < config.traderNum, (network.traders tr).fault = none
  informed : ∀ tr < config.traderNum, Informed config (inputs tr) (network.traders tr).info
    (network.traders tr).tradeIdxs (network.traders tr).seen
  dispatched : ∀ tr < config.traderNum, Dispatched config (inputs tr) (network.traders tr)
  serving : ∀ e < config.exchangeNum, Serving algorithms config e (network.exchanges e)
  orders : ∀ tr < config.traderNum, ∀ e < config.exchangeNum,
    (network.traders tr).sent e =
      (network.exchanges e).received tr ++ network.orderChannel (tr, e)
  known : ∀ e < config.exchangeNum, ∀ tr, ∀ o ∈ (network.exchanges e).received tr,
    tr < config.traderNum
  messages : ∀ tr < config.traderNum, ∀ e < config.exchangeNum,
    (network.exchanges e).sent = (network.traders tr).seen e ++
      (network.msgChannel (tr, e) ++ (network.exchanges e).unsent tr)

variable {algorithms : HeapAlgorithms} {config : Config} {inputs : Nat → TraderInput P}
  {network network' : Network P} {orderNum : Int → Nat}

theorem Consistent.new (algorithms : HeapAlgorithms) (config : Config)
    (inputs : Nat → TraderInput P) :
    Consistent algorithms config inputs (Network.new config inputs) where
  running := fun _ _ => rfl
  informed := fun tr _ => Informed.new config (inputs tr)
  dispatched := fun tr _ => Dispatched.new config (inputs tr)
  serving := fun e _ => Serving.new algorithms config e
  orders := fun _ _ _ _ => rfl
  known := by
    intro e _ tr o member
    cases member
  messages := fun _ _ _ _ => rfl

/-! ## What the invariant says about orders -/

/-- What is sent to an exchange was let through for its stock. -/
theorem Consistent.sent_accepted (consistent : Consistent algorithms config inputs network)
    {tr e : Nat} (trader : tr < config.traderNum) {o : Order P}
    (sent : o ∈ (network.traders tr).sent e) :
    config.Owns e o.stkCode ∧ o ∈ (network.traders tr).accepted config o.stkCode := by
  apply (consistent.dispatched tr trader).mem_accepted
  simp [TraderState.outbox, sent]

/-- What has arrived at an exchange was let through by a trader. -/
theorem Consistent.arrived_accepted (consistent : Consistent algorithms config inputs network)
    {e : Nat} (exchange : e < config.exchangeNum) {s : Int} {o : Order P}
    (arrived : (network.exchanges e).Arrived s o) :
    config.Owns e s ∧ ∃ tr < config.traderNum, o ∈ (network.exchanges e).received tr ∧
      o ∈ (network.traders tr).accepted config s := by
  rcases arrived with ⟨rfl, tr, received⟩
  have trader := consistent.known e exchange tr o received
  have sent : o ∈ (network.traders tr).sent e := by
    rw [consistent.orders tr trader e exchange]
    exact List.mem_append_left _ received
  rcases consistent.sent_accepted trader sent with ⟨owns, accepted⟩
  exact ⟨owns, tr, trader, received, accepted⟩

section Accepted

variable (consistent : Consistent algorithms config inputs network)
  (partitioned : Partitioned config inputs orderNum) {tr tr' : Nat} {s : Int} {o p : Order P}

include consistent partitioned

/-- A trader lets the orders of a stock through by increasing id. -/
theorem Consistent.accepted_increasing (trader : tr < config.traderNum)
    (listed : config.Listed s) :
    ((network.traders tr).accepted config s).Pairwise
      fun first second => first.orderId < second.orderId := by
  rw [← List.pairwise_map (f := Order.orderId),
    (consistent.dispatched tr trader).accepted_ids, List.pairwise_map]
  exact (partitioned.sorted s listed tr trader).take

theorem Consistent.accepted_range (trader : tr < config.traderNum) (listed : config.Listed s)
    (accepted : o ∈ (network.traders tr).accepted config s) :
    1 ≤ o.orderId ∧ o.orderId ≤ orderNum s := by
  rcases (consistent.dispatched tr trader).exists_data accepted with ⟨data, inData, isChecked⟩
  have sameId : o.orderId = data.orderId := by rw [isChecked.fields]
  rw [sameId]
  exact (partitioned.covered s listed data.orderId).mp ⟨tr, trader, data, inData, rfl⟩

/-- An id of a stock is let through by one trader only. -/
theorem Consistent.accepted_trader (trader : tr < config.traderNum)
    (trader' : tr' < config.traderNum) (listed : config.Listed s)
    (accepted : o ∈ (network.traders tr).accepted config s)
    (accepted' : p ∈ (network.traders tr').accepted config s)
    (sameId : o.orderId = p.orderId) : tr = tr' := by
  rcases (consistent.dispatched tr trader).exists_data accepted with ⟨data, inData, isChecked⟩
  rcases (consistent.dispatched tr' trader').exists_data accepted' with
    ⟨data', inData', isChecked'⟩
  apply partitioned.disjoint s listed tr trader tr' trader' data inData data' inData'
  rw [isChecked.fields, isChecked'.fields] at sameId
  exact sameId

/-- An id of a stock is let through once. -/
theorem Consistent.accepted_unique (trader : tr < config.traderNum)
    (trader' : tr' < config.traderNum) (listed : config.Listed s)
    (accepted : o ∈ (network.traders tr).accepted config s)
    (accepted' : p ∈ (network.traders tr').accepted config s)
    (sameId : o.orderId = p.orderId) : o = p := by
  have sameTrader := consistent.accepted_trader partitioned trader trader' listed accepted
    accepted' sameId
  subst sameTrader
  have increasing := consistent.accepted_increasing partitioned trader listed
  have distinct : (((network.traders tr).accepted config s).map Order.orderId).Nodup :=
    List.pairwise_map.mpr (increasing.imp fun smaller => smaller.ne)
  exact List.inj_on_of_nodup_map distinct accepted accepted' sameId

/-- The first order in a channel: it belongs to the exchange, was let through,
and no order with its id has arrived. -/
theorem Consistent.incoming (trader : tr < config.traderNum) {e : Nat}
    (exchange : e < config.exchangeNum) {rest : List (Order P)}
    (channel : network.orderChannel (tr, e) = o :: rest) :
    config.Owns e o.stkCode ∧ o ∈ (network.traders tr).accepted config o.stkCode ∧
      1 ≤ o.orderId ∧
      ∀ p, (network.exchanges e).Arrived o.stkCode p → p.orderId ≠ o.orderId := by
  have sent := consistent.orders tr trader e exchange
  rw [channel] at sent
  have isSent : o ∈ (network.traders tr).sent e := by simp [sent]
  rcases consistent.sent_accepted trader isSent with ⟨owns, accepted⟩
  have range := consistent.accepted_range partitioned trader owns.1 accepted
  refine ⟨owns, accepted, range.1, ?_⟩
  intro p arrived sameId
  rcases consistent.arrived_accepted exchange arrived with ⟨_, tr', trader', received, accepted'⟩
  have sameTrader := consistent.accepted_trader partitioned trader' trader owns.1 accepted'
    accepted sameId
  subst sameTrader
  -- the two orders come over one channel, along which ids increase
  have increasing := consistent.accepted_increasing partitioned trader owns.1
  rw [TraderState.accepted, owns.2, TraderState.outbox, sent, List.append_assoc,
    List.append_assoc, List.append_assoc, List.filter_append] at increasing
  have before := (List.pairwise_append.mp increasing).2.2 p (by simp [received, arrived.1]) o
    (by simp)
  omega

/-- Two orders of a stock that have arrived with the same id are the same. -/
theorem Consistent.arrived_unique {e : Nat} (exchange : e < config.exchangeNum)
    (arrived : (network.exchanges e).Arrived s o) (arrived' : (network.exchanges e).Arrived s p)
    (sameId : o.orderId = p.orderId) : o = p := by
  rcases consistent.arrived_accepted exchange arrived with ⟨owns, tr, trader, _, accepted⟩
  rcases consistent.arrived_accepted exchange arrived' with ⟨_, tr', trader', _, accepted'⟩
  exact consistent.accepted_unique partitioned trader trader' owns.1 accepted accepted' sameId

end Accepted

/-- No trader has seen a later acknowledgement than its exchange has put. -/
theorem Consistent.lastAck_seen_le (consistent : Consistent algorithms config inputs network)
    {tr e : Nat} {s : Int} (trader : tr < config.traderNum) (exchange : e < config.exchangeNum)
    (owns : config.Owns e s) :
    lastAck s ((network.traders tr).seen e) ≤ lastAck s (network.exchanges e).sent := by
  have serves := (consistent.serving e exchange).serves s owns
  rcases lastAck_eq_zero_or_mem s ((network.traders tr).seen e) with none | old
  · rw [none]
    rcases lastAck_eq_zero_or_mem s (network.exchanges e).sent with zero | put
    · exact zero.ge
    · have positive := (serves.acks_bounded _ put).1
      omega
  · apply (serves.acks_bounded _ _).2
    rw [consistent.messages tr trader e exchange, acksOf_append]
    exact List.mem_append_left _ old

/-- No trader has seen an acknowledgement beyond the orders polled. -/
theorem Consistent.lastAck_le (consistent : Consistent algorithms config inputs network)
    {tr e : Nat} {s : Int} (trader : tr < config.traderNum) (exchange : e < config.exchangeNum)
    (owns : config.Owns e s) :
    lastAck s ((network.traders tr).seen e) ≤
      (((network.exchanges e).threads s).polled.length : Int) := by
  have serves := (consistent.serving e exchange).serves s owns
  have known := consistent.lastAck_seen_le trader exchange owns
  have acked : lastAck s (network.exchanges e).sent + _ = _ := serves.acked
  omega

/-- An order in a channel fits into the window of its stock. -/
theorem Consistent.fits (consistent : Consistent algorithms config inputs network)
    {tr e : Nat} (trader : tr < config.traderNum) (exchange : e < config.exchangeNum)
    {o : Order P} (owns : config.Owns e o.stkCode)
    (accepted : o ∈ (network.traders tr).accepted config o.stkCode) :
    o.orderId ≤
      ((network.exchanges e).threads o.stkCode).polled.length + config.slidingWindowSize := by
  have bounded := (consistent.dispatched tr trader).bounded o.stkCode o accepted
  have start := (consistent.informed tr trader).starts o.stkCode
  have known := consistent.lastAck_le trader exchange owns
  rw [owns.2] at start
  omega

/-- The first message of a channel: it is about a stock of its exchange, and no
later acknowledgement has been seen. -/
theorem Consistent.delivered (consistent : Consistent algorithms config inputs network)
    {tr e : Nat} (trader : tr < config.traderNum) (exchange : e < config.exchangeNum)
    {msg : Msg P} {rest : List (Msg P)} (channel : network.msgChannel (tr, e) = msg :: rest) :
    config.Owns e msg.stkCode ∧ ∀ ack, msg = .ack ack →
      lastAck ack.stkCode ((network.traders tr).seen (config.exchangeOf ack.stkCode)) ≤
        ack.orderId := by
  have messages := consistent.messages tr trader e exchange
  rw [channel] at messages
  have owns := (consistent.serving e exchange).origin msg (by simp [messages])
  refine ⟨owns, ?_⟩
  rintro ack rfl
  have atExchange : config.exchangeOf ack.stkCode = e := owns.2
  have serves := (consistent.serving e exchange).serves ack.stkCode owns
  have acks : acksOf ack.stkCode (network.exchanges e).sent =
      acksOf ack.stkCode ((network.traders tr).seen e) ++
        ack.orderId :: acksOf ack.stkCode (rest ++ (network.exchanges e).unsent tr) := by
    rw [messages, acksOf_append, List.cons_append, ← List.singleton_append (x := Msg.ack ack),
      acksOf_append, acksOf_ack_self rfl]
    rfl
  have increasing := serves.acks_increasing
  have positive := (serves.acks_bounded ack.orderId (by simp [acks])).1
  rw [acks, List.pairwise_append] at increasing
  rw [atExchange]
  rcases lastAck_eq_zero_or_mem ack.stkCode ((network.traders tr).seen e) with none | old
  · rw [none]
    omega
  · exact (increasing.2.2 _ old _ List.mem_cons_self).le

/-! ## Steps of a trader -/

/-- A step of one trader, with its channels. -/
theorem Consistent.updateTrader (consistent : Consistent algorithms config inputs network)
    {tr : Nat} {trader' : TraderState P} (running : trader'.fault = none)
    (informed : Informed config (inputs tr) trader'.info trader'.tradeIdxs trader'.seen)
    (dispatched : Dispatched config (inputs tr) trader')
    (orders : ∀ e < config.exchangeNum, trader'.sent e =
      (network.exchanges e).received tr ++ network'.orderChannel (tr, e))
    (messages : ∀ e < config.exchangeNum, (network.exchanges e).sent =
      trader'.seen e ++ (network'.msgChannel (tr, e) ++ (network.exchanges e).unsent tr))
    (traders : network'.traders = Function.update network.traders tr trader')
    (exchanges : network'.exchanges = network.exchanges)
    (otherOrders : ∀ tr' ≠ tr, ∀ e,
      network'.orderChannel (tr', e) = network.orderChannel (tr', e))
    (otherMessages : ∀ tr' ≠ tr, ∀ e,
      network'.msgChannel (tr', e) = network.msgChannel (tr', e)) :
    Consistent algorithms config inputs network' := by
  constructor
  · rw [traders]
    exact (Function.forall_update_iff network.traders fun tr' state =>
      tr' < config.traderNum → state.fault = none).mpr
        ⟨fun _ => running, fun tr' _ => consistent.running tr'⟩
  · rw [traders]
    exact (Function.forall_update_iff network.traders fun tr' state => tr' < config.traderNum →
      Informed config (inputs tr') state.info state.tradeIdxs state.seen).mpr
        ⟨fun _ => informed, fun tr' _ => consistent.informed tr'⟩
  · rw [traders]
    exact (Function.forall_update_iff network.traders fun tr' state => tr' < config.traderNum →
      Dispatched config (inputs tr') state).mpr
        ⟨fun _ => dispatched, fun tr' _ => consistent.dispatched tr'⟩
  · rw [exchanges]
    exact consistent.serving
  · rw [traders, exchanges]
    refine (Function.forall_update_iff network.traders fun tr' state => tr' < config.traderNum →
      ∀ e < config.exchangeNum, state.sent e =
        (network.exchanges e).received tr' ++ network'.orderChannel (tr', e)).mpr
          ⟨fun _ => orders, ?_⟩
    intro tr' different inRange e exchange
    rw [otherOrders tr' different]
    exact consistent.orders tr' inRange e exchange
  · rw [exchanges]
    exact consistent.known
  · rw [traders, exchanges]
    refine (Function.forall_update_iff network.traders fun tr' state => tr' < config.traderNum →
      ∀ e < config.exchangeNum, (network.exchanges e).sent = state.seen e ++
        (network'.msgChannel (tr', e) ++ (network.exchanges e).unsent tr')).mpr
          ⟨fun _ => messages, ?_⟩
    intro tr' different inRange e exchange
    rw [otherMessages tr' different]
    exact consistent.messages tr' inRange e exchange

/-- A step of a trader that receives and sends nothing. -/
theorem Consistent.internal (consistent : Consistent algorithms config inputs network)
    {tr : Nat} {trader' : TraderState P} (trader : tr < config.traderNum)
    (dispatched : Dispatched config (inputs tr) trader')
    (internal : Internal (network.traders tr) trader') :
    Consistent algorithms config inputs (network.setTrader tr trader') := by
  refine consistent.updateTrader ?_ ?_ dispatched ?_ ?_ rfl rfl (fun _ _ _ => rfl)
    fun _ _ _ => rfl
  · exact internal.fault.trans (consistent.running tr trader)
  · rw [internal.info, internal.tradeIdxs, internal.seen]
    exact consistent.informed tr trader
  · rw [internal.sent]
    exact consistent.orders tr trader
  · rw [internal.seen]
    exact consistent.messages tr trader

theorem Consistent.sendOrder (consistent : Consistent algorithms config inputs network)
    {tr e : Nat} {trader' : TraderState P} {order : Order P} (trader : tr < config.traderNum)
    (step : (network.traders tr).sendOrder e = some (order, trader')) :
    Consistent algorithms config inputs ((network.setTrader tr trader').setOrderChannel tr e
      (network.orderChannel (tr, e) ++ [order])) := by
  rcases (consistent.dispatched tr trader).sendOrder step with
    ⟨dispatched, info, tradeIdxs, fault, seen, sent⟩
  refine consistent.updateTrader ?_ ?_ dispatched ?_ ?_ rfl rfl ?_ fun _ _ _ => rfl
  · exact fault.trans (consistent.running tr trader)
  · rw [info, tradeIdxs, seen]
    exact consistent.informed tr trader
  · intro e' exchange
    have before := consistent.orders tr trader e' exchange
    by_cases same : e' = e
    · subst same
      simp [sent, Network.setOrderChannel, before]
    · simp [sent, Network.setOrderChannel, Network.setTrader, same, before]
  · rw [seen]
    exact consistent.messages tr trader
  · intro tr' different e'
    apply Function.update_of_ne
    simp [different]

theorem Consistent.receiveMsg (consistent : Consistent algorithms config inputs network)
    {tr e : Nat} (trader : tr < config.traderNum) (exchange : e < config.exchangeNum)
    {msg : Msg P} {rest : List (Msg P)} (channel : network.msgChannel (tr, e) = msg :: rest) :
    Consistent algorithms config inputs
      ((network.setTrader tr ((network.traders tr).receive e msg)).setMsgChannel tr e rest) := by
  have informed := consistent.informed tr trader
  rcases consistent.delivered trader exchange channel with ⟨owns, current⟩
  rcases informed.receive owns.2 current with ⟨info, tradeIdxs, received, informed'⟩
  have grows := informed.grows informed' owns.2 current
  have dispatched := consistent.dispatched tr trader
  rw [received]
  refine consistent.updateTrader ?_ informed' ?_ ?_ ?_ rfl rfl (fun _ _ _ => rfl) ?_
  · exact consistent.running tr trader
  · refine dispatched.frame grows ?_ rfl rfl rfl
    intro t orderIdLimits collecting
    have limits := dispatched.limits t orderIdLimits collecting
    have moved := grows.starts ((t : Int) + 1)
    exact ⟨limits.1, by simp only; omega⟩
  · exact consistent.orders tr trader
  · intro e' exchange'
    have before := consistent.messages tr trader e' exchange'
    by_cases same : e' = e
    · subst same
      simp [Network.setMsgChannel, before, channel]
    · simp [Network.setMsgChannel, Network.setTrader, same, before]
  · intro tr' different e'
    apply Function.update_of_ne
    simp [different]

/-! ## Steps of an exchange -/

/-- A step of one exchange, with its channels. -/
theorem Consistent.updateExchange (consistent : Consistent algorithms config inputs network)
    {e : Nat} {ex' : ExchangeState P} (serving : Serving algorithms config e ex')
    (orders : ∀ tr < config.traderNum, (network.traders tr).sent e =
      ex'.received tr ++ network'.orderChannel (tr, e))
    (known : ∀ tr, ∀ o ∈ ex'.received tr, tr < config.traderNum)
    (messages : ∀ tr < config.traderNum, ex'.sent =
      (network.traders tr).seen e ++ (network'.msgChannel (tr, e) ++ ex'.unsent tr))
    (traders : network'.traders = network.traders)
    (exchanges : network'.exchanges = Function.update network.exchanges e ex')
    (otherOrders : ∀ e' ≠ e, ∀ tr,
      network'.orderChannel (tr, e') = network.orderChannel (tr, e'))
    (otherMessages : ∀ e' ≠ e, ∀ tr,
      network'.msgChannel (tr, e') = network.msgChannel (tr, e')) :
    Consistent algorithms config inputs network' := by
  constructor
  · rw [traders]
    exact consistent.running
  · rw [traders]
    exact consistent.informed
  · rw [traders]
    exact consistent.dispatched
  · rw [exchanges]
    exact (Function.forall_update_iff network.exchanges fun e' ex => e' < config.exchangeNum →
      Serving algorithms config e' ex).mpr
        ⟨fun _ => serving, fun e' _ => consistent.serving e'⟩
  · rw [traders, exchanges]
    intro tr inRange
    refine (Function.forall_update_iff network.exchanges fun e' ex => e' < config.exchangeNum →
      (network.traders tr).sent e' = ex.received tr ++ network'.orderChannel (tr, e')).mpr
        ⟨fun _ => orders tr inRange, ?_⟩
    intro e' different exchange
    rw [otherOrders e' different]
    exact consistent.orders tr inRange e' exchange
  · rw [exchanges]
    exact (Function.forall_update_iff network.exchanges fun e' ex => e' < config.exchangeNum →
      ∀ tr, ∀ o ∈ ex.received tr, tr < config.traderNum).mpr
        ⟨fun _ => known, fun e' _ => consistent.known e'⟩
  · rw [traders, exchanges]
    intro tr inRange
    refine (Function.forall_update_iff network.exchanges fun e' ex => e' < config.exchangeNum →
      ex.sent = (network.traders tr).seen e' ++
        (network'.msgChannel (tr, e') ++ ex.unsent tr)).mpr
          ⟨fun _ => messages tr inRange, ?_⟩
    intro e' different exchange
    rw [otherMessages e' different]
    exact consistent.messages tr inRange e' exchange

theorem Consistent.receiveOrder (consistent : Consistent algorithms config inputs network)
    (partitioned : Partitioned config inputs orderNum) {tr e : Nat}
    (trader : tr < config.traderNum) (exchange : e < config.exchangeNum) {order : Order P}
    {rest : List (Order P)} (channel : network.orderChannel (tr, e) = order :: rest) :
    Consistent algorithms config inputs
      ((network.setExchange e
        ((network.exchanges e).receiveOrder config e tr order)).setOrderChannel tr e rest) := by
  rcases consistent.incoming partitioned trader exchange channel with
    ⟨owns, accepted, positive, fresh⟩
  have received : ((network.exchanges e).receiveOrder config e tr order).received =
      Function.update (network.exchanges e).received tr
        ((network.exchanges e).received tr ++ [order]) := rfl
  rcases receiveOrder_sender config e (network.exchanges e) tr order with ⟨sent, unsent⟩
  refine consistent.updateExchange ?_ ?_ ?_ ?_ rfl rfl ?_ fun _ _ _ => rfl
  · exact (consistent.serving e exchange).receiveOrder owns fresh positive
      (consistent.fits trader exchange owns accepted)
  · intro tr' inRange
    have before := consistent.orders tr' inRange e exchange
    by_cases same : tr' = tr
    · subst same
      simp [received, Network.setOrderChannel, before, channel]
    · simp [received, Network.setOrderChannel, Network.setExchange, same, before]
  · intro tr' o member
    by_cases same : tr' = tr
    · rw [same]
      exact trader
    · rw [received, Function.update_of_ne same] at member
      exact consistent.known e exchange tr' o member
  · rw [sent, unsent]
    intro tr' inRange
    exact consistent.messages tr' inRange e exchange
  · intro e' different tr'
    apply Function.update_of_ne
    simp [different]

theorem Consistent.work (consistent : Consistent algorithms config inputs network) {e : Nat}
    (exchange : e < config.exchangeNum) {s : Int} (owns : config.Owns e s)
    {ex' : ExchangeState P}
    (step : (network.exchanges e).work algorithms config s = some ex') :
    Consistent algorithms config inputs (network.setExchange e ex') := by
  rcases (consistent.serving e exchange).work owns step with ⟨serving, new, puts⟩
  refine consistent.updateExchange serving ?_ ?_ ?_ rfl rfl (fun _ _ _ => rfl) fun _ _ _ => rfl
  · intro tr inRange
    rw [puts.received]
    exact consistent.orders tr inRange e exchange
  · rw [puts.received]
    exact consistent.known e exchange
  · intro tr inRange
    have before := consistent.messages tr inRange e exchange
    rw [puts.sent, puts.unsent, before]
    simp [Network.setExchange]

theorem Consistent.takeMsg (consistent : Consistent algorithms config inputs network) {e : Nat}
    (exchange : e < config.exchangeNum) {ex' : ExchangeState P}
    (step : (network.exchanges e).takeMsg config = some ex') :
    Consistent algorithms config inputs (network.setExchange e ex') := by
  rcases takeMsg_frame step with ⟨buffer, threads, sent, received, cerr⟩
  refine consistent.updateExchange
    ((consistent.serving e exchange).sender buffer threads sent received cerr) ?_ ?_ ?_ rfl rfl
    (fun _ _ _ => rfl) fun _ _ _ => rfl
  · intro tr inRange
    rw [received]
    exact consistent.orders tr inRange e exchange
  · rw [received]
    exact consistent.known e exchange
  · intro tr inRange
    rw [sent, unsent_takeMsg inRange step]
    exact consistent.messages tr inRange e exchange

theorem Consistent.sendMsg (consistent : Consistent algorithms config inputs network) {e : Nat}
    (exchange : e < config.exchangeNum) {msg : Msg P} {idx : Nat} {ex' : ExchangeState P}
    (step : (network.exchanges e).sendMsg config = some ((msg, idx), ex')) :
    Consistent algorithms config inputs
      ((network.setExchange e ex').setMsgChannel idx e (network.msgChannel (idx, e) ++ [msg])) := by
  rcases sendMsg_frame step with ⟨buffer, threads, sent, received, cerr⟩
  refine consistent.updateExchange
    ((consistent.serving e exchange).sender buffer threads sent received cerr) ?_ ?_ ?_ rfl rfl
    (fun _ _ _ => rfl) ?_
  · intro tr inRange
    rw [received]
    exact consistent.orders tr inRange e exchange
  · rw [received]
    exact consistent.known e exchange
  · intro tr inRange
    have before := consistent.messages tr inRange e exchange
    rw [sent, before, unsent_sendMsg inRange step]
    by_cases same : tr = idx
    · subst same
      simp [Network.setMsgChannel]
    · simp [Network.setMsgChannel, Network.setExchange, same]
  · intro e' different tr
    apply Function.update_of_ne
    simp [different]

/-! ## All runs -/

theorem Consistent.step (consistent : Consistent algorithms config inputs network)
    (partitioned : Partitioned config inputs orderNum)
    (step : network.Step algorithms config inputs network') :
    Consistent algorithms config inputs network' := by
  cases step with
  | control runs step =>
      rcases (consistent.dispatched _ runs.1).control (consistent.informed _ runs.1) step with
        ⟨dispatched, internal⟩
      exact consistent.internal runs.1 dispatched internal
  | pollOrder runs step =>
      rcases (consistent.dispatched _ runs.1).pollOrder step with ⟨dispatched, internal⟩
      exact consistent.internal runs.1 dispatched internal
  | sendOrder runs _ step => exact consistent.sendOrder runs.1 step
  | receiveOrder trader runs channel =>
      exact consistent.receiveOrder partitioned trader runs.1 channel
  | work runs owns step => exact consistent.work runs.1 owns step
  | takeMsg runs step => exact consistent.takeMsg runs.1 step
  | sendMsg runs step => exact consistent.sendMsg runs.1 step
  | receiveMsg runs exchange channel => exact consistent.receiveMsg runs.1 exchange channel

/-- The invariant holds under every interleaving. -/
theorem Network.Reachable.consistent
    (reachable : Network.Reachable algorithms config inputs network)
    (partitioned : Partitioned config inputs orderNum) :
    Consistent algorithms config inputs network :=
  Transition.Reachable.invariant (motive := Consistent algorithms config inputs)
    (Consistent.new algorithms config inputs)
    (fun consistent performed => consistent.step partitioned (Network.next_step performed))
    reachable

end PpiwTrading.System
