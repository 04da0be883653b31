import PpiwTrading.Exchange.TradeCount
import PpiwTrading.Sequence.UpdatedSum
import PpiwTrading.System.Capacity
import PpiwTrading.System.Quiescence
import PpiwTrading.Transition.Potential

/-!
# A run has only so much to do

Every order has a price: the number of steps that are still to be made for it,
which depends on where it is.  On its way it is let through, queued, taken, sent,
received, polled and committed; it may be acknowledged and may lead to one trade,
and either message is put, taken, and sent to and received by each trader.

The sum of the prices is a potential.  Every step lowers it, save those by which a
controller goes on in its loops without finding an order.
-/

namespace PpiwTrading.System

open PpiwTrading.Heap
open PpiwTrading.Sequence
open PpiwTrading.Trader
open PpiwTrading.Exchange

variable {P : Type}

/-! ## Prices -/

section Effort

variable (config : Config)

/-- The stocks in use. -/
def stocks : Finset Int :=
  (idsUpTo config.stockNum).toFinset

/-- The steps for a message that has been put. -/
def msgEffort : Nat :=
  2 * config.traderNum + 1

/-- The steps for an order that the engine has not been given: the engine, and a
trade that it may lead to. -/
def engineEffort : Nat :=
  msgEffort config + 2

/-- The steps for an order in its slot: it is polled, and the polled orders may be
acknowledged because of it. -/
def slotEffort : Nat :=
  engineEffort config + msgEffort config + 4

/-- The steps for an order that has not been let through. -/
def orderEffort : Nat :=
  slotEffort config + 5

def traderEffort (input : TraderInput P) (trader : TraderState P) : Nat :=
  ∑ s ∈ stocks config,
      ((input.sortedOrders s).length - trader.nextSortedStructIdx s) * orderEffort config +
    trader.orderToSend.length * (slotEffort config + 4) +
    ∑ e ∈ Finset.range config.exchangeNum, (trader.orderQueue e).length * (slotEffort config + 3) +
    ∑ e ∈ Finset.range config.exchangeNum,
      (trader.orderMsg e).toList.length * (slotEffort config + 2)

/-- The steps for the orders in the hands of a stock thread. -/
def phaseEffort : Phase P → Nat
  | .consuming [] => 0
  | .consuming (first :: rest) =>
      (first :: rest).length * engineEffort config + msgEffort config + 3
  | .acking orders => orders.length * engineEffort config + msgEffort config + 2
  | .receiving orders _ => orders.length * engineEffort config + 1

def windowEffort (window : SlidingWindow (Order P)) : Nat :=
  ∑ j ∈ Finset.range config.slidingWindowSize,
    (window.slots j).toList.length * slotEffort config

/-- The steps for a stock thread; every committed order may lead to a trade. -/
def threadEffort (thread : StockThread P) : Nat :=
  phaseEffort config thread.phase +
    (thread.committed.length - thread.produced.length) * (msgEffort config + 1)

def sendingEffort : Option (Msg P × Nat) → Nat
  | none => 0
  | some (_, idx) => 2 * (config.traderNum - idx)

def exchangeEffort (partitionIdx : Nat) (ex : ExchangeState P) : Nat :=
  ∑ s ∈ (ownedStocks config partitionIdx).toFinset, windowEffort config (ex.orderBuffer s) +
    ∑ s ∈ (ownedStocks config partitionIdx).toFinset, threadEffort config (ex.threads s) +
    ex.msgQueue.length * msgEffort config + sendingEffort config ex.sending

/-- The channels between the traders and the exchanges. -/
def channels : Finset (Nat × Nat) :=
  Finset.range config.traderNum ×ˢ Finset.range config.exchangeNum

/-- The potential of a state. -/
def effort (inputs : Nat → TraderInput P) (network : Network P) : Nat :=
  ∑ tr ∈ Finset.range config.traderNum, traderEffort config (inputs tr) (network.traders tr) +
    ∑ e ∈ Finset.range config.exchangeNum, exchangeEffort config e (network.exchanges e) +
    ∑ p ∈ channels config, (network.orderChannel p).length * (slotEffort config + 1) +
    ∑ p ∈ channels config, (network.msgChannel p).length

end Effort

/-- A step by which a controller goes on in its loops and does nothing else. -/
def Idle (network : Network P) (action : Action) (network' : Network P) : Prop :=
  ∃ tr pc, action = .control tr ∧
    network' = network.setTrader tr { network.traders tr with pc := pc }

theorem mem_stocks {config : Config} {s : Int} : s ∈ stocks config ↔ config.Listed s := by
  simp [stocks, Config.Listed]

theorem mem_channels {config : Config} {tr e : Nat} :
    (tr, e) ∈ channels config ↔ tr < config.traderNum ∧ e < config.exchangeNum := by
  simp [channels]

/-! ## One process or channel changes -/

section Change

variable {config : Config} {tr e : Nat}

theorem effort_setTrader (inputs : Nat → TraderInput P) (network : Network P)
    (trader : tr < config.traderNum) (trader' : TraderState P) :
    effort config inputs (network.setTrader tr trader') +
        traderEffort config (inputs tr) (network.traders tr) =
      effort config inputs network + traderEffort config (inputs tr) trader' := by
  have changed := sum_update_add (Finset.mem_range.mpr trader)
    (fun tr state => traderEffort config (inputs tr) state) network.traders trader'
  simp only [effort, Network.setTrader]
  omega

theorem effort_setExchange (inputs : Nat → TraderInput P) (network : Network P)
    (exchange : e < config.exchangeNum) (ex : ExchangeState P) :
    effort config inputs (network.setExchange e ex) +
        exchangeEffort config e (network.exchanges e) =
      effort config inputs network + exchangeEffort config e ex := by
  have changed := sum_update_add (Finset.mem_range.mpr exchange)
    (fun e state => exchangeEffort config e state) network.exchanges ex
  simp only [effort, Network.setExchange]
  omega

theorem effort_setOrderChannel (inputs : Nat → TraderInput P) (network : Network P)
    (trader : tr < config.traderNum) (exchange : e < config.exchangeNum) (orders : List (Order P)) :
    effort config inputs (network.setOrderChannel tr e orders) +
        (network.orderChannel (tr, e)).length * (slotEffort config + 1) =
      effort config inputs network + orders.length * (slotEffort config + 1) := by
  have changed := sum_update_add (mem_channels.mpr ⟨trader, exchange⟩)
    (fun _ (orders : List (Order P)) => orders.length * (slotEffort config + 1))
    network.orderChannel orders
  simp only [effort, Network.setOrderChannel]
  omega

theorem effort_setMsgChannel (inputs : Nat → TraderInput P) (network : Network P)
    (trader : tr < config.traderNum) (exchange : e < config.exchangeNum) (msgs : List (Msg P)) :
    effort config inputs (network.setMsgChannel tr e msgs) +
        (network.msgChannel (tr, e)).length =
      effort config inputs network + msgs.length := by
  have changed := sum_update_add (mem_channels.mpr ⟨trader, exchange⟩)
    (fun _ (msgs : List (Msg P)) => msgs.length) network.msgChannel msgs
  simp only [effort, Network.setMsgChannel]
  omega

end Change

/-! ## Steps of a trader -/

section TraderSteps

variable {config : Config} {input : TraderInput P} {trader trader' : TraderState P}

/-- Letting an order through. -/
theorem traderEffort_accept {s : Int} (listed : config.Listed s) (checked : Order P)
    {data : Order P} (next : (input.sortedOrders s)[trader.nextSortedStructIdx s]? = some data) :
    traderEffort config input (trader.accept s checked) + orderEffort config =
      traderEffort config input trader + (slotEffort config + 4) := by
  have inRange := (List.getElem?_eq_some_iff.mp next).1
  have changed := sum_update_add (mem_stocks.mpr listed)
    (fun s taken => ((input.sortedOrders s).length - taken) * orderEffort config)
    trader.nextSortedStructIdx (trader.nextSortedStructIdx s + 1)
  have oneLess : ((input.sortedOrders s).length - trader.nextSortedStructIdx s) *
      orderEffort config =
        ((input.sortedOrders s).length - (trader.nextSortedStructIdx s + 1)) *
          orderEffort config + orderEffort config := by
    rw [← Nat.succ_mul]
    congr 1
    omega
  have oneMore : (trader.orderToSend ++ [checked]).length * (slotEffort config + 4) =
      trader.orderToSend.length * (slotEffort config + 4) + (slotEffort config + 4) := by
    rw [List.length_append, List.length_singleton, Nat.succ_mul]
  simp only [traderEffort, TraderState.accept] at changed ⊢
  omega

/-- Handing an order to a sender. -/
theorem traderEffort_putOrder (input : TraderInput P) {idx : Nat}
    (exchange : idx < config.exchangeNum) {order : Order P} {rest : List (Order P)}
    (collected : trader.orderToSend = order :: rest) :
    traderEffort config input (trader.putOrder idx order rest) + 1 =
      traderEffort config input trader := by
  have changed := sum_update_add (Finset.mem_range.mpr exchange)
    (fun _ (queue : List (Order P)) => queue.length * (slotEffort config + 3))
    trader.orderQueue (trader.orderQueue idx ++ [order])
  simp only [List.length_append, List.length_singleton, Nat.succ_mul] at changed
  simp only [traderEffort, TraderState.putOrder, collected, List.length_cons, Nat.succ_mul]
  omega

theorem traderEffort_pollOrder (input : TraderInput P) {e : Nat} (exchange : e < config.exchangeNum)
    (step : trader.pollOrder e = some trader') :
    traderEffort config input trader' + 1 = traderEffort config input trader := by
  unfold TraderState.pollOrder at step
  split at step
  · rename_i order rest free queued
    cases step
    have queue := sum_update_add (Finset.mem_range.mpr exchange)
      (fun _ (queue : List (Order P)) => queue.length * (slotEffort config + 3))
      trader.orderQueue rest
    have msg := sum_update_add (Finset.mem_range.mpr exchange)
      (fun _ (msg : Option (Order P)) => msg.toList.length * (slotEffort config + 2))
      trader.orderMsg (some order)
    simp only [queued, free, List.length_cons, Nat.succ_mul, Option.toList_some,
      Option.toList_none, List.length_nil] at queue msg
    simp only [traderEffort]
    omega
  · cases step

theorem traderEffort_sendOrder (input : TraderInput P) {e : Nat}
    (exchange : e < config.exchangeNum) {order : Order P}
    (step : trader.sendOrder e = some (order, trader')) :
    traderEffort config input trader' + (slotEffort config + 2) =
      traderEffort config input trader := by
  unfold TraderState.sendOrder at step
  split at step
  · cases step
  · rename_i ready
    cases step
    have msg := sum_update_add (Finset.mem_range.mpr exchange)
      (fun _ (msg : Option (Order P)) => msg.toList.length * (slotEffort config + 2))
      trader.orderMsg none
    simp only [ready, Option.toList_some, Option.toList_none, List.length_nil,
      List.length_singleton] at msg
    simp only [traderEffort]
    omega

theorem traderEffort_receive (config : Config) (input : TraderInput P) (trader : TraderState P)
    (e : Nat) (msg : Msg P) :
    traderEffort config input (trader.receive e msg) = traderEffort config input trader := by
  cases msg with
  | ack ack =>
      simp only [TraderState.receive, TraderState.processOrderAck]
      split <;> rfl
  | trade trade =>
      simp only [TraderState.receive, TraderState.processTradeResult]
      split <;> rfl

variable [LinearOrder P]

/-- A step of the controller goes on in its loops, lets an order through or hands an
order to a sender. -/
theorem control_cases (dispatched : Dispatched config input trader)
    (informed : Informed config input trader.info trader.tradeIdxs trader.seen)
    (step : trader.control config input = some trader') :
    (∃ pc, trader' = { trader with pc := pc }) ∨
    (∃ s data checked, config.Listed s ∧
      (input.sortedOrders s)[trader.nextSortedStructIdx s]? = some data ∧
      trader' = trader.accept s checked) ∨
    ∃ order rest, trader.orderToSend = order :: rest ∧
      (trader.orderQueue (config.exchangeOf order.stkCode)).length < config.orderQueueCapacity ∧
      trader' = trader.putOrder (config.exchangeOf order.stkCode) order rest := by
  unfold TraderState.control at step
  split at step
  · split at step
    · cases step
      exact Or.inl ⟨_, rfl⟩
    · cases step
      exact Or.inl ⟨_, rfl⟩
  · rename_i t orderIdLimits collecting
    cases step
    have inRange := (dispatched.limits t orderIdLimits collecting).1
    rcases collect_cases input trader t orderIdLimits with
      left | ⟨order, fault, failed⟩ | ⟨data, checked, next, _, accepted⟩
    · exact Or.inl ⟨_, left⟩
    · exact absurd failed (checkOrder_ne_error informed order _ _ fault)
    · refine Or.inr (Or.inl ⟨_, data, checked, ?_, next, accepted⟩)
      constructor <;> omega
  · split at step
    · cases step
      exact Or.inl ⟨_, rfl⟩
    · rename_i order rest collected
      simp only at step
      split at step
      · rename_i space
        cases step
        exact Or.inr (Or.inr ⟨order, rest, collected, space, rfl⟩)
      · cases step

end TraderSteps

/-! ## Steps of an exchange -/

section ExchangeSteps

variable {config : Config} {partitionIdx : Nat} {ex ex' : ExchangeState P} {s : Int}

/-- Putting an order into a slot. -/
theorem windowEffort_put (config : Config) {window window' : SlidingWindow (Order P)}
    {order : Order P} {idx : Nat} (put : window.put order idx = .ok window') :
    windowEffort config window' ≤ windowEffort config window + slotEffort config := by
  rcases SlidingWindow.put_cases put with ⟨_, free, rfl⟩
  by_cases inRange : idx ∈ Finset.range config.slidingWindowSize
  · have changed := sum_update_add inRange
      (fun _ (slot : Option (Order P)) => slot.toList.length * slotEffort config)
      window.slots (some order)
    simp only [free, Option.toList_some, Option.toList_none, List.length_nil,
      List.length_singleton] at changed
    simp only [windowEffort]
    omega
  · have same := sum_update_of_notMem inRange
      (fun _ (slot : Option (Order P)) => slot.toList.length * slotEffort config)
      window.slots (some order)
    simp only [windowEffort]
    omega

/-- Polling the head, which is one of the slots. -/
theorem windowEffort_poll {window window' : SlidingWindow (Order P)} {order : Order P}
    (inRange : window.head < config.slidingWindowSize)
    (polled : window.poll = some (order, window')) :
    windowEffort config window' + slotEffort config = windowEffort config window := by
  unfold SlidingWindow.poll at polled
  split at polled
  · cases polled
  · rename_i held
    cases polled
    have changed := sum_update_add (Finset.mem_range.mpr inRange)
      (fun _ (slot : Option (Order P)) => slot.toList.length * slotEffort config)
      window.slots none
    simp only [held, Option.toList_some, Option.toList_none, List.length_nil,
      List.length_singleton] at changed
    simp only [windowEffort]
    omega

theorem exchangeEffort_setThread (ex : ExchangeState P) (owns : config.Owns partitionIdx s)
    (thread : StockThread P) :
    exchangeEffort config partitionIdx (ex.setThread s thread) +
        threadEffort config (ex.threads s) =
      exchangeEffort config partitionIdx ex + threadEffort config thread := by
  have changed := sum_update_add (List.mem_toFinset.mpr (mem_ownedStocks.mpr owns))
    (fun _ thread => threadEffort config thread) ex.threads thread
  simp only [exchangeEffort, ExchangeState.setThread]
  omega

theorem exchangeEffort_setWindow (ex : ExchangeState P) (owns : config.Owns partitionIdx s)
    (window : SlidingWindow (Order P)) :
    exchangeEffort config partitionIdx
          { ex with orderBuffer := Function.update ex.orderBuffer s window } +
        windowEffort config (ex.orderBuffer s) =
      exchangeEffort config partitionIdx ex + windowEffort config window := by
  have changed := sum_update_add (List.mem_toFinset.mpr (mem_ownedStocks.mpr owns))
    (fun _ window => windowEffort config window) ex.orderBuffer window
  simp only [exchangeEffort]
  omega

theorem exchangeEffort_putMsg (config : Config) (partitionIdx : Nat) (ex : ExchangeState P)
    (msg : Msg P) :
    exchangeEffort config partitionIdx (ex.putMsg msg) =
      exchangeEffort config partitionIdx ex + msgEffort config := by
  simp only [exchangeEffort, ExchangeState.putMsg, List.length_append, List.length_singleton,
    Nat.succ_mul]
  omega

/-- Receiving an order adds at most its price in a slot. -/
theorem exchangeEffort_receiveOrder (config : Config) (partitionIdx : Nat) (ex : ExchangeState P)
    (traderIdx : Nat) (order : Order P) :
    exchangeEffort config partitionIdx (ex.receiveOrder config partitionIdx traderIdx order) ≤
      exchangeEffort config partitionIdx ex + slotEffort config := by
  simp only [ExchangeState.receiveOrder]
  cases buffered : ex.bufferOrder config partitionIdx order with
  | error fault =>
      simp only [exchangeEffort]
      omega
  | ok window =>
      unfold ExchangeState.bufferOrder at buffered
      split at buffered
      · rename_i owns
        have added := windowEffort_put config buffered
        have changed := exchangeEffort_setWindow ex owns window
        simp only [exchangeEffort] at changed ⊢
        omega
      · cases buffered

/-- The trade sender taking a message. -/
theorem exchangeEffort_takeMsg (partitionIdx : Nat) (step : ex.takeMsg config = some ex') :
    exchangeEffort config partitionIdx ex' + 1 = exchangeEffort config partitionIdx ex := by
  unfold ExchangeState.takeMsg at step
  split at step
  · rename_i msg rest idle queued
    cases step
    simp only [exchangeEffort, queued, idle, List.length_cons, Nat.succ_mul]
    split
    · simp only [sendingEffort, msgEffort]
      omega
    · simp only [sendingEffort, msgEffort]
      omega
  · cases step

/-- The trade sender sending its message to one trader. -/
theorem exchangeEffort_sendMsg (partitionIdx : Nat) {msg : Msg P} {idx : Nat}
    (inRange : idx < config.traderNum)
    (step : ex.sendMsg config = some ((msg, idx), ex')) :
    exchangeEffort config partitionIdx ex' + 2 = exchangeEffort config partitionIdx ex := by
  unfold ExchangeState.sendMsg at step
  split at step
  · cases step
  · rename_i sending
    cases step
    simp only [exchangeEffort, sending]
    split
    · simp only [sendingEffort]
      omega
    · simp only [sendingEffort]
      omega

/-! ### Steps of a stock thread -/

/-- A thread that only goes on to another phase. -/
theorem exchangeEffort_setPhase (owns : config.Owns partitionIdx s) {phase : Phase P}
    (less : phaseEffort config phase < phaseEffort config (ex.threads s).phase) :
    exchangeEffort config partitionIdx
        (ex.setThread s { ex.threads s with phase := phase }) <
      exchangeEffort config partitionIdx ex := by
  have changed := exchangeEffort_setThread ex owns { ex.threads s with phase := phase }
  simp only [threadEffort] at changed ⊢
  omega

theorem phaseEffort_poll (config : Config) (orders : List (Order P)) (order : Order P) :
    phaseEffort config (.consuming (orders ++ [order])) + 1 ≤
      phaseEffort config (.consuming orders) + slotEffort config := by
  cases orders with
  | nil =>
      simp only [List.nil_append, phaseEffort, slotEffort, List.length_singleton]
      omega
  | cons first rest =>
      simp only [List.cons_append, phaseEffort, slotEffort, List.length_cons, List.length_append,
        List.length_nil, Nat.succ_mul]
      omega

theorem exchangeEffort_pollSlot (owns : config.Owns partitionIdx s) {orders : List (Order P)}
    (consuming : (ex.threads s).phase = .consuming orders)
    (inRange : ∀ order, (ex.orderBuffer s).slots (ex.orderBuffer s).head = some order →
      (ex.orderBuffer s).head < config.slidingWindowSize)
    (step : ex.pollSlot s (ex.threads s) orders = some ex') :
    exchangeEffort config partitionIdx ex' < exchangeEffort config partitionIdx ex := by
  unfold ExchangeState.pollSlot at step
  split at step
  · rename_i order window polled
    cases step
    have held : (ex.orderBuffer s).slots (ex.orderBuffer s).head = some order := by
      unfold SlidingWindow.poll at polled
      split at polled
      · cases polled
      · rename_i held
        cases polled
        exact held
    have taken := windowEffort_poll (inRange order held) polled
    have phase := phaseEffort_poll config orders order
    have buffer := exchangeEffort_setWindow ex owns window
    have thread := exchangeEffort_setThread
      { ex with orderBuffer := Function.update ex.orderBuffer s window } owns
      { ex.threads s with
        phase := .consuming (orders ++ [order])
        polled := (ex.threads s).polled ++ [order] }
    simp only [threadEffort, consuming] at thread
    omega
  · split at step
    · cases step
    · rename_i nonempty
      cases step
      apply exchangeEffort_setPhase owns
      rw [consuming]
      cases orders with
      | nil => exact absurd rfl nonempty
      | cons first rest =>
          simp only [phaseEffort]
          omega

theorem exchangeEffort_ackOrders (owns : config.Owns partitionIdx s) {orders : List (Order P)}
    (acking : (ex.threads s).phase = .acking orders)
    (step : ex.ackOrders config s (ex.threads s) orders = some ex') :
    exchangeEffort config partitionIdx ex' < exchangeEffort config partitionIdx ex := by
  unfold ExchangeState.ackOrders at step
  split at step
  · cases step
  · rename_i last _
    split at step
    · cases step
      have queue := exchangeEffort_putMsg config partitionIdx ex (.ack ⟨s, last.orderId⟩)
      have thread := exchangeEffort_setThread (ex.putMsg (.ack ⟨s, last.orderId⟩)) owns
        { ex.threads s with phase := .receiving orders [] }
      have sameThreads : (ex.putMsg (.ack ⟨s, last.orderId⟩)).threads = ex.threads := rfl
      simp only [threadEffort, sameThreads, acking, phaseEffort] at thread
      omega
    · cases step

theorem exchangeEffort_produceTrade (owns : config.Owns partitionIdx s)
    {orders : List (Order P)} {trade : Trade P} {pending : List (Trade P)}
    (receiving : (ex.threads s).phase = .receiving orders (trade :: pending))
    (budget : (ex.threads s).produced.length < (ex.threads s).committed.length)
    (step : ex.produceTrade config s (ex.threads s) orders trade pending = some ex') :
    exchangeEffort config partitionIdx ex' < exchangeEffort config partitionIdx ex := by
  unfold ExchangeState.produceTrade at step
  split at step
  · cases step
    have queue := exchangeEffort_putMsg config partitionIdx ex (.trade trade)
    have thread := exchangeEffort_setThread (ex.putMsg (.trade trade)) owns
      { ex.threads s with
        phase := .receiving orders pending
        produced := (ex.threads s).produced ++ [trade] }
    have sameThreads : (ex.putMsg (.trade trade)).threads = ex.threads := rfl
    have spent : ((ex.threads s).committed.length - (ex.threads s).produced.length) *
        (msgEffort config + 1) =
          ((ex.threads s).committed.length - ((ex.threads s).produced.length + 1)) *
            (msgEffort config + 1) + (msgEffort config + 1) := by
      rw [← Nat.succ_mul]
      congr 1
      omega
    simp only [threadEffort, sameThreads, receiving, phaseEffort, List.length_append,
      List.length_singleton] at thread
    omega
  · cases step

/-- The engine commits one order and fails not. -/
theorem exchangeEffort_receiveNext (owns : config.Owns partitionIdx s) {order : Order P}
    {rest : List (Order P)} (receiving : (ex.threads s).phase = .receiving (order :: rest) [])
    (budget : (ex.threads s).produced.length ≤ (ex.threads s).committed.length)
    {received : Received P} (one : received.committed = [order]) :
    exchangeEffort config partitionIdx
        (ex.setThread s
          { ex.threads s with
            exchange := received.exchange
            phase := .receiving rest received.trades
            committed := (ex.threads s).committed ++ received.committed }) <
      exchangeEffort config partitionIdx ex := by
  have thread := exchangeEffort_setThread ex owns
    { ex.threads s with
      exchange := received.exchange
      phase := .receiving rest received.trades
      committed := (ex.threads s).committed ++ received.committed }
  have granted : ((ex.threads s).committed.length + 1 - (ex.threads s).produced.length) *
      (msgEffort config + 1) =
        ((ex.threads s).committed.length - (ex.threads s).produced.length) *
          (msgEffort config + 1) + (msgEffort config + 1) := by
    rw [← Nat.succ_mul]
    congr 1
    omega
  simp only [threadEffort, receiving, phaseEffort, one, List.length_append, List.length_cons,
    List.length_nil, Nat.zero_add, Nat.succ_mul, engineEffort] at thread
  simp only [one]
  omega

end ExchangeSteps

/-! ## The engine -/

section Engine

variable [LinearOrder P] [Zero P] {algorithms : HeapAlgorithms} {config : Config}
  {inputs : Nat → TraderInput P} {network network' : Network P}
  (consistent : Consistent algorithms config inputs network)
  (volumes : PositiveVolumes config inputs) {e : Nat} (exchange : e < config.exchangeNum)
  {s : Int} (owns : config.Owns e s)

include consistent volumes exchange owns

/-- A stock has no more trades than committed orders. -/
theorem Consistent.trades_le :
    (((network.exchanges e).threads s).produced ++
        ((network.exchanges e).threads s).phase.pending).length ≤
      ((network.exchanges e).threads s).committed.length := by
  have effect := ((consistent.serving e exchange).serves s owns).committed_eq.2
  have feed := consistent.committed_feed volumes exchange owns
  rcases commitOrders_refines_empty s algorithms feed with ⟨final, committed, _⟩
  rw [effect] at committed
  have counted := Reference.run_size_le s feed StockDeclarationBook.empty
  have empty : (StockDeclarationBook.empty : StockDeclarationBook P).size = 0 := rfl
  rw [(Prod.mk.inj (Except.ok.inj committed)).2]
  omega

/-- The engine receives the next polled order without a fault and commits it. -/
theorem Consistent.engine_returns {order : Order P} {rest : List (Order P)}
    (receiving : ((network.exchanges e).threads s).phase = .receiving (order :: rest) []) :
    ∃ received, Exchange.receiveOrder algorithms ((network.exchanges e).threads s).exchange
        order = .ok received ∧ received.committed = [order] := by
  have serves := (consistent.serving e exchange).serves s owns
  have feed := consistent.polled_feed volumes exchange owns
  cases returned : Exchange.receiveOrder algorithms ((network.exchanges e).threads s).exchange
      order with
  | ok received =>
      refine ⟨received, rfl, ?_⟩
      have before := serves.committed_eq.1
      have after :=
        (serves.receiveNext (fun o arrived => arrived.1) receiving returned).committed_eq.1
      rw [receiving] at before
      simp only [Phase.remaining] at before after
      rw [before, List.append_assoc, List.append_cancel_left_eq] at after
      have same : [order] ++ rest = received.committed ++ rest := after
      exact (List.append_cancel_right same).symm
  | error fault =>
      exfalso
      obtain ⟨consumed, split, drained⟩ := serves.engine
      rw [receiving] at split drained
      have arrivals : ∀ o ∈ consumed ++ [order], o ∈ ((network.exchanges e).threads s).polled := by
        intro o member
        rw [split]
        simp only [Phase.remaining, List.mem_append, List.mem_cons] at member ⊢
        tauto
      have member := arrivals order (by simp)
      have distinct : ((consumed ++ [order]).map Order.orderId).Nodup := by
        have nodup := serves.polled_nodup
        rw [split] at nodup
        apply List.Nodup.sublist (List.Sublist.map _ _) nodup
        simp [Phase.remaining]
      have receives := receiveOrder_receives drained (serves.genuine order member).1
        (serves.polled_positive order member) distinct
      rw [returned] at receives
      exact not_failsOn (fun o inArrivals => feed.volumes o (arrivals o inArrivals)) receives

end Engine

/-! ## Tidy states -/

/-- A message in the hands of a trade sender is on its way to a trader, and a thread
that is about to acknowledge has polled orders. -/
structure Tidy (config : Config) (network : Network P) : Prop where
  sending : ∀ e msg idx, (network.exchanges e).sending = some (msg, idx) →
    idx < config.traderNum
  acking : ∀ e s orders, ((network.exchanges e).threads s).phase = .acking orders → orders ≠ []

section Steps

variable [LinearOrder P] [Zero P] {algorithms : HeapAlgorithms} {config : Config}
  {inputs : Nat → TraderInput P} {network network' : Network P} {orderNum : Int → Nat}

omit [LinearOrder P] [Zero P] in
theorem Tidy.new (inputs : Nat → TraderInput P) : Tidy config (Network.new config inputs) where
  sending := by
    intro e msg idx sending
    cases sending
  acking := by
    intro e s orders acking
    cases acking

omit [LinearOrder P] [Zero P] in
/-- A step of one exchange that leaves its sender and its threads tidy. -/
theorem Tidy.setExchange (tidy : Tidy config network) {e : Nat} {ex : ExchangeState P}
    (sending : ∀ msg idx, ex.sending = some (msg, idx) → idx < config.traderNum)
    (acking : ∀ s orders, (ex.threads s).phase = .acking orders → orders ≠ [])
    (exchanges : network'.exchanges = Function.update network.exchanges e ex) :
    Tidy config network' := by
  constructor
  · rw [exchanges]
    exact (Function.forall_update_iff network.exchanges fun _ state =>
      ∀ msg idx, state.sending = some (msg, idx) → idx < config.traderNum).mpr
        ⟨sending, fun e' _ => tidy.sending e'⟩
  · rw [exchanges]
    exact (Function.forall_update_iff network.exchanges fun _ state =>
      ∀ s orders, (state.threads s).phase = .acking orders → orders ≠ []).mpr
        ⟨acking, fun e' _ => tidy.acking e'⟩

/-- What a step of a stock thread does to the sender and to the phases. -/
theorem work_tidy {ex ex' : ExchangeState P} {stkCode : Int}
    (step : ex.work algorithms config stkCode = some ex')
    (acking : ∀ s orders, (ex.threads s).phase = .acking orders → orders ≠ []) :
    ex'.sending = ex.sending ∧
      ∀ s orders, (ex'.threads s).phase = .acking orders → orders ≠ [] := by
  have updated : ∀ thread : StockThread P,
      (∀ orders, thread.phase = .acking orders → orders ≠ []) →
      ∀ s orders, (Function.update ex.threads stkCode thread s).phase = .acking orders →
        orders ≠ [] := fun thread own =>
    (Function.forall_update_iff ex.threads fun _ thread =>
      ∀ orders, thread.phase = .acking orders → orders ≠ []).mpr
        ⟨own, fun s _ => acking s⟩
  unfold ExchangeState.work at step
  simp only at step
  split at step
  · unfold ExchangeState.pollSlot at step
    split at step
    · cases step
      exact ⟨rfl, updated _ (by simp)⟩
    · split at step
      · cases step
      · rename_i nonempty
        cases step
        refine ⟨rfl, updated _ ?_⟩
        rintro orders ⟨⟩ rfl
        exact nonempty rfl
  · unfold ExchangeState.ackOrders at step
    split at step
    · cases step
    · split at step
      · cases step
        exact ⟨rfl, updated _ (by simp)⟩
      · cases step
  · unfold ExchangeState.produceTrade at step
    split at step
    · cases step
      exact ⟨rfl, updated _ (by simp)⟩
    · cases step
  · cases step
    unfold ExchangeState.receiveNext
    split
    · exact ⟨rfl, acking⟩
    · exact ⟨rfl, updated _ (by simp)⟩
  · cases step
    exact ⟨rfl, updated _ (by simp)⟩

theorem Tidy.step (tidy : Tidy config network)
    (step : network.Step algorithms config inputs network') : Tidy config network' := by
  cases step with
  | control => exact ⟨tidy.sending, tidy.acking⟩
  | pollOrder => exact ⟨tidy.sending, tidy.acking⟩
  | sendOrder => exact ⟨tidy.sending, tidy.acking⟩
  | receiveMsg => exact ⟨tidy.sending, tidy.acking⟩
  | @receiveOrder tr e order rest trader runs channel =>
      have same : ((network.exchanges e).receiveOrder config e tr order).sending =
          (network.exchanges e).sending ∧
          ((network.exchanges e).receiveOrder config e tr order).threads =
            (network.exchanges e).threads := by
        simp only [ExchangeState.receiveOrder]
        split <;> exact ⟨rfl, rfl⟩
      refine tidy.setExchange ?_ ?_ rfl
      · rw [same.1]
        exact tidy.sending e
      · rw [same.2]
        exact tidy.acking e
  | @work e s ex runs owns step =>
      rcases work_tidy step (tidy.acking e) with ⟨sending, acking⟩
      refine tidy.setExchange ?_ acking rfl
      rw [sending]
      exact tidy.sending e
  | @takeMsg e ex runs step =>
      refine tidy.setExchange ?_ ?_ rfl
      · unfold ExchangeState.takeMsg at step
        split at step
        · cases step
          intro msg idx sending
          simp only at sending
          split at sending
          · cases sending
            assumption
          · cases sending
        · cases step
      · rw [(takeMsg_frame step).2.1]
        exact tidy.acking e
  | @sendMsg e idx msg ex runs step =>
      refine tidy.setExchange (e := e) ?_ ?_ rfl
      · unfold ExchangeState.sendMsg at step
        split at step
        · cases step
        · cases step
          intro msg idx sending
          simp only at sending
          split at sending
          · cases sending
            assumption
          · cases sending
      · rw [(sendMsg_frame step).2.1]
        exact tidy.acking e

/-! ## Every step but an idle one lowers the potential -/

/-- A step of a stock thread. -/
theorem Consistent.effort_work (consistent : Consistent algorithms config inputs network)
    (volumes : PositiveVolumes config inputs) {e : Nat} (exchange : e < config.exchangeNum)
    {s : Int} (owns : config.Owns e s) {ex : ExchangeState P}
    (step : (network.exchanges e).work algorithms config s = some ex) :
    exchangeEffort config e ex < exchangeEffort config e (network.exchanges e) := by
  have serves := (consistent.serving e exchange).serves s owns
  have budget := consistent.trades_le volumes exchange owns
  rw [List.length_append] at budget
  unfold ExchangeState.work at step
  simp only at step
  split at step
  · rename_i orders consuming
    apply exchangeEffort_pollSlot owns consuming _ step
    intro order held
    rcases serves.tracks.sound _ order held with ⟨_, lower, upper, _⟩
    rw [serves.capacity] at upper
    rw [serves.tracks.head, serves.capacity]
    exact Nat.mod_lt _ (by omega)
  · rename_i orders acking
    exact exchangeEffort_ackOrders owns acking step
  · rename_i orders trade pending receiving
    apply exchangeEffort_produceTrade owns receiving _ step
    rw [receiving] at budget
    simp only [Phase.pending, List.length_cons] at budget
    omega
  · rename_i order rest receiving
    cases step
    rcases consistent.engine_returns volumes exchange owns receiving with ⟨received, returned, one⟩
    simp only [ExchangeState.receiveNext, returned]
    exact exchangeEffort_receiveNext owns receiving (by omega) one
  · rename_i receiving
    cases step
    apply exchangeEffort_setPhase owns
    rw [receiving]
    simp only [phaseEffort]
    omega

/-- A step of a controller. -/
theorem Consistent.effort_control (consistent : Consistent algorithms config inputs network)
    {tr : Nat} (trader : tr < config.traderNum) {trader' : TraderState P}
    (step : (network.traders tr).control config (inputs tr) = some trader') :
    (∃ pc, trader' = { network.traders tr with pc := pc }) ∨
      effort config inputs (network.setTrader tr trader') < effort config inputs network := by
  have changed := effort_setTrader inputs network trader trader'
  rcases control_cases (consistent.dispatched tr trader) (consistent.informed tr trader) step with
    idle | ⟨s, data, checked, listed, next, rfl⟩ | ⟨order, rest, collected, space, rfl⟩
  · exact Or.inl idle
  · have less := traderEffort_accept listed checked next
    simp only [orderEffort] at less
    omega
  · have someExchange : 0 < config.exchangeNum := by
      rcases Nat.eq_zero_or_pos config.exchangeNum with none | positive
      · rw [Config.orderQueueCapacity, none, Nat.div_zero] at space
        omega
      · exact positive
    have less := traderEffort_putOrder (inputs tr)
      (config.exchangeOf_lt someExchange order.stkCode) collected
    omega

omit [LinearOrder P] [Zero P] in
/-- A sender of a trader sending an order. -/
theorem effort_sendOrder (inputs : Nat → TraderInput P) {tr e : Nat}
    (trader : tr < config.traderNum) (exchange : e < config.exchangeNum) {order : Order P}
    {trader' : TraderState P} (step : (network.traders tr).sendOrder e = some (order, trader')) :
    effort config inputs ((network.setTrader tr trader').setOrderChannel tr e
      (network.orderChannel (tr, e) ++ [order])) < effort config inputs network := by
  have changed := effort_setTrader inputs network trader trader'
  have less := traderEffort_sendOrder (inputs tr) exchange step
  have channel := effort_setOrderChannel inputs (network.setTrader tr trader') trader exchange
    (network.orderChannel (tr, e) ++ [order])
  have sameChannel : (network.setTrader tr trader').orderChannel = network.orderChannel := rfl
  simp only [sameChannel, List.length_append, List.length_singleton, Nat.succ_mul] at channel
  omega

omit [LinearOrder P] [Zero P] in
/-- An exchange receiving an order. -/
theorem effort_receiveOrder (inputs : Nat → TraderInput P) {tr e : Nat}
    (trader : tr < config.traderNum) (exchange : e < config.exchangeNum) {order : Order P}
    {rest : List (Order P)} (held : network.orderChannel (tr, e) = order :: rest) :
    effort config inputs
        ((network.setExchange e
          ((network.exchanges e).receiveOrder config e tr order)).setOrderChannel tr e rest) <
      effort config inputs network := by
  have changed := effort_setExchange inputs network exchange
    ((network.exchanges e).receiveOrder config e tr order)
  have more := exchangeEffort_receiveOrder config e (network.exchanges e) tr order
  have channel := effort_setOrderChannel inputs
    (network.setExchange e ((network.exchanges e).receiveOrder config e tr order)) trader exchange
    rest
  have sameChannel : (network.setExchange e
      ((network.exchanges e).receiveOrder config e tr order)).orderChannel =
        network.orderChannel := rfl
  simp only [sameChannel, held, List.length_cons, Nat.succ_mul] at channel
  omega

omit [LinearOrder P] [Zero P] in
/-- The trade sender of an exchange sending its message to one trader. -/
theorem effort_sendMsg (inputs : Nat → TraderInput P) (tidy : Tidy config network) {e : Nat}
    (exchange : e < config.exchangeNum) {msg : Msg P} {idx : Nat} {ex : ExchangeState P}
    (step : (network.exchanges e).sendMsg config = some ((msg, idx), ex)) :
    effort config inputs ((network.setExchange e ex).setMsgChannel idx e
      (network.msgChannel (idx, e) ++ [msg])) < effort config inputs network := by
  have sending : (network.exchanges e).sending = some (msg, idx) := by
    unfold ExchangeState.sendMsg at step
    split at step
    · cases step
    · rename_i held
      cases step
      exact held
  have trader := tidy.sending e msg idx sending
  have changed := effort_setExchange inputs network exchange ex
  have less := exchangeEffort_sendMsg e trader step
  have channel := effort_setMsgChannel inputs (network.setExchange e ex) trader exchange
    (network.msgChannel (idx, e) ++ [msg])
  have sameChannel : (network.setExchange e ex).msgChannel = network.msgChannel := rfl
  simp only [sameChannel, List.length_append, List.length_singleton] at channel
  omega

omit [LinearOrder P] [Zero P] in
/-- A trader receiving a message. -/
theorem effort_receiveMsg (inputs : Nat → TraderInput P) {tr e : Nat}
    (trader : tr < config.traderNum) (exchange : e < config.exchangeNum) {msg : Msg P}
    {rest : List (Msg P)} (held : network.msgChannel (tr, e) = msg :: rest) :
    effort config inputs
        ((network.setTrader tr ((network.traders tr).receive e msg)).setMsgChannel tr e rest) <
      effort config inputs network := by
  have changed := effort_setTrader inputs network trader ((network.traders tr).receive e msg)
  have same := traderEffort_receive config (inputs tr) (network.traders tr) e msg
  have channel := effort_setMsgChannel inputs
    (network.setTrader tr ((network.traders tr).receive e msg)) trader exchange rest
  have sameChannel : (network.setTrader tr
      ((network.traders tr).receive e msg)).msgChannel = network.msgChannel := rfl
  simp only [sameChannel, held, List.length_cons] at channel
  omega

/-- Every step is idle and leaves the potential, or lowers it. -/
theorem Consistent.effort_step (consistent : Consistent algorithms config inputs network)
    (tidy : Tidy config network) (volumes : PositiveVolumes config inputs) {action : Action}
    (performed : Network.next algorithms config inputs action network = some network') :
    Idle network action network' ∨
      effort config inputs network' < effort config inputs network := by
  cases action with
  | control tr =>
      simp only [Network.next] at performed
      split at performed
      · rename_i runs
        obtain ⟨trader', step, rfl⟩ := Option.map_eq_some_iff.mp performed
        rcases consistent.effort_control runs.1 step with ⟨pc, rfl⟩ | less
        · exact Or.inl ⟨tr, pc, rfl, rfl⟩
        · exact Or.inr less
      · cases performed
  | pollOrder tr e =>
      right
      simp only [Network.next] at performed
      split at performed
      · rename_i runs
        obtain ⟨trader', step, rfl⟩ := Option.map_eq_some_iff.mp performed
        have changed := effort_setTrader inputs network runs.1.1 trader'
        have less := traderEffort_pollOrder (inputs tr) runs.2 step
        omega
      · cases performed
  | sendOrder tr e =>
      right
      simp only [Network.next] at performed
      split at performed
      · rename_i runs
        obtain ⟨⟨order, trader'⟩, step, rfl⟩ := Option.map_eq_some_iff.mp performed
        exact effort_sendOrder inputs runs.1.1 runs.2 step
      · cases performed
  | receiveOrder tr e =>
      right
      simp only [Network.next] at performed
      split at performed
      · rename_i runs
        split at performed
        · cases performed
        · rename_i order rest held
          cases performed
          exact effort_receiveOrder inputs runs.1 runs.2.1 held
      · cases performed
  | work e s =>
      right
      simp only [Network.next] at performed
      split at performed
      · rename_i runs
        obtain ⟨ex, step, rfl⟩ := Option.map_eq_some_iff.mp performed
        have changed := effort_setExchange inputs network runs.1.1 ex
        have less := consistent.effort_work volumes runs.1.1 runs.2 step
        omega
      · cases performed
  | takeMsg e =>
      right
      simp only [Network.next] at performed
      split at performed
      · rename_i runs
        obtain ⟨ex, step, rfl⟩ := Option.map_eq_some_iff.mp performed
        have changed := effort_setExchange inputs network runs.1 ex
        have less := exchangeEffort_takeMsg e step
        omega
      · cases performed
  | sendMsg e =>
      right
      simp only [Network.next] at performed
      split at performed
      · rename_i runs
        obtain ⟨⟨⟨msg, idx⟩, ex⟩, step, rfl⟩ := Option.map_eq_some_iff.mp performed
        exact effort_sendMsg inputs tidy runs.1 step
      · cases performed
  | receiveMsg tr e =>
      right
      simp only [Network.next] at performed
      split at performed
      · rename_i runs
        split at performed
        · cases performed
        · rename_i msg rest held
          cases performed
          exact effort_receiveMsg inputs runs.1.1 runs.2 held
      · cases performed

omit [LinearOrder P] [Zero P] in
theorem Idle.effort_eq {action : Action} (idle : Idle network action network') :
    effort config inputs network' = effort config inputs network := by
  rcases idle with ⟨tr, pc, _, rfl⟩
  have same : ∀ tr', traderEffort config (inputs tr')
      (Function.update network.traders tr { network.traders tr with pc := pc } tr') =
        traderEffort config (inputs tr') (network.traders tr') := by
    intro tr'
    by_cases isTrader : tr' = tr
    · subst isTrader
      rw [Function.update_self]
      rfl
    · rw [Function.update_of_ne isTrader]
  simp only [effort, Network.setTrader, same]

/-! ## All runs -/

omit [LinearOrder P] [Zero P] in
/-- The traders have as many orders of a stock as there are ids. -/
theorem Partitioned.sum_length (partitioned : Partitioned config inputs orderNum) {s : Int}
    (listed : config.Listed s) :
    ∑ tr ∈ Finset.range config.traderNum, ((inputs tr).sortedOrders s).length = orderNum s := by
  have perm : ((List.range config.traderNum).flatMap fun tr =>
      ((inputs tr).sortedOrders s).map Order.orderId).Perm (idsUpTo (orderNum s)) := by
    rw [List.perm_ext_iff_of_nodup _ (idsUpTo_nodup _)]
    · intro i
      rw [mem_idsUpTo, ← partitioned.covered s listed i]
      simp only [List.mem_flatMap, List.mem_range, List.mem_map]
    · rw [List.nodup_flatMap]
      constructor
      · intro tr inRange
        have sorted := partitioned.sorted s listed tr (List.mem_range.mp inRange)
        exact List.pairwise_map.mpr (sorted.imp fun smaller => smaller.ne)
      · apply List.pairwise_lt_range.imp_of_mem
        intro tr tr' inRange inRange' before i inFirst inSecond
        rcases List.mem_map.mp inFirst with ⟨o, member, rfl⟩
        rcases List.mem_map.mp inSecond with ⟨p, member', sameId⟩
        have same := partitioned.disjoint s listed tr (List.mem_range.mp inRange) tr'
          (List.mem_range.mp inRange') o member p member' sameId.symm
        omega
  have total := perm.length_eq
  rw [List.length_flatMap, length_idsUpTo] at total
  simp only [List.length_map] at total
  exact total

omit [LinearOrder P] [Zero P] in
/-- At the start every order has its full price. -/
theorem effort_new (partitioned : Partitioned config inputs orderNum) :
    effort config inputs (Network.new config inputs) =
      (∑ s ∈ stocks config, orderNum s) * (4 * config.traderNum + 13) := by
  have traders : ∑ tr ∈ Finset.range config.traderNum,
      traderEffort config (inputs tr) (TraderState.new (inputs tr)) =
        (∑ s ∈ stocks config, orderNum s) * orderEffort config := by
    simp only [traderEffort, TraderState.new, Nat.sub_zero, List.length_nil, Nat.zero_mul,
      Option.toList_none, Finset.sum_const_zero, Nat.add_zero]
    rw [Finset.sum_comm, Finset.sum_mul]
    apply Finset.sum_congr rfl
    intro s inStocks
    rw [← Finset.sum_mul, partitioned.sum_length (mem_stocks.mp inStocks)]
  have exchanges : ∀ e,
      exchangeEffort config e (ExchangeState.new config : ExchangeState P) = 0 := by
    intro e
    simp [exchangeEffort, ExchangeState.new, windowEffort, SlidingWindow.new, threadEffort,
      StockThread.new, phaseEffort, sendingEffort]
  simp only [effort, Network.new, traders, exchanges, List.length_nil, Nat.zero_mul,
    Finset.sum_const_zero, Nat.add_zero, orderEffort, slotEffort, engineEffort, msgEffort]
  ring

/-- Under any interleaving: of the steps of a run, save those by which a controller
only goes on in its loops, there are at most `4 * traderNum + 13` for each order.
So the system does not work for ever, whatever the schedule is. -/
theorem reachable_effort_bounded (partitioned : Partitioned config inputs orderNum)
    (volumes : PositiveVolumes config inputs) {n : Nat}
    (spends : Transition.Spends (Network.next algorithms config inputs) Idle
      (Network.new config inputs) n network) :
    n ≤ (∑ s ∈ stocks config, orderNum s) * (4 * config.traderNum + 13) := by
  have paid := spends.add_potential_le
    (fun state => Consistent algorithms config inputs state ∧ Tidy config state)
    (effort config inputs)
    (fun invariants performed =>
      ⟨invariants.1.step partitioned (Network.next_step performed),
        invariants.2.step (Network.next_step performed)⟩)
    (fun invariants performed notIdle =>
      (invariants.1.effort_step invariants.2 volumes performed).resolve_left notIdle)
    (fun _ _ idle => idle.effort_eq.le)
    ⟨Consistent.new algorithms config inputs, Tidy.new inputs⟩
  rw [effort_new partitioned] at paid
  omega

end Steps

theorem smallInputs_volumes : PositiveVolumes smallConfig smallInputs := by
  have volumes : ∀ tr < 2, ∀ s ∈ idsUpTo 2, ∀ data ∈ smallOrders tr s,
      0 < data.volume ∧ data.volume ≤ intMax := by decide
  exact fun tr trader s listed => volumes tr trader s (mem_idsUpTo.mpr listed)

theorem reachable_effort_bounded_small :
    ∃ n, Transition.Spends (Network.next binaryHeap smallConfig smallInputs) Idle
        (Network.new smallConfig smallInputs) n smallFinal ∧
      n ≤ (∑ s ∈ stocks smallConfig, if s = 1 then 2 else 1) * (4 * 2 + 13) := by
  rcases Transition.Reachable.exists_spends smallFinal_reachable with ⟨n, spends⟩
  exact ⟨n, spends, reachable_effort_bounded smallInputs_partitioned smallInputs_volumes spends⟩

end PpiwTrading.System
