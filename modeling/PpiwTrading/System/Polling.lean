import PpiwTrading.Network.MessageReceiver
import PpiwTrading.System.Progress

/-!
# The system with its message receivers

The order receiver of an exchange has two ports for each trader, of which the senders
use the first, and the trade receiver of a trader has one port for each exchange.  Which
channel is received from next is what `tryrecv` finds.  Every run of this system is a
run of the system in which any channel may be next, and it too can always come to rest.
-/

namespace PpiwTrading.System

open PpiwTrading.Heap
open PpiwTrading.Sequence
open PpiwTrading.Trader
open PpiwTrading.Exchange
open PpiwTrading.Transition

variable {P : Type}

/-- A system and the offsets of its receivers; the channels are the sockets. -/
structure PolledNetwork (P : Type) where
  network : Network P
  orderOffset : Nat → Nat
  tradeOffset : Nat → Nat

inductive PolledAction
  /-- A step of `TraderController::run_all_in_memory`. -/
  | control (traderIdx : Nat)
  /-- A sender of a trader takes an order from its queue. -/
  | pollOrder (traderIdx exchangeIdx : Nat)
  /-- A sender of a trader sends an order. -/
  | sendOrder (traderIdx exchangeIdx : Nat)
  /-- The order receiver of an exchange calls `tryrecv`. -/
  | tryrecvOrder (exchangeIdx : Nat)
  /-- A step of `StockExchange::run`. -/
  | work (exchangeIdx : Nat) (stkCode : Int)
  /-- The trade sender of an exchange takes a message from its queue. -/
  | takeMsg (exchangeIdx : Nat)
  /-- The trade sender of an exchange sends its message to one trader. -/
  | sendMsg (exchangeIdx : Nat)
  /-- The trade receiver of a trader calls `tryrecv`. -/
  | tryrecvTrade (traderIdx : Nat)

namespace PolledNetwork

def new (config : Config) (inputs : Nat → TraderInput P) : PolledNetwork P :=
  ⟨Network.new config inputs, fun _ => 0, fun _ => 0⟩

/-- The `msg_receiver_` of an order receiver: port `2 * i` is the first channel of the
trader `i`. -/
def orderReceiver (config : Config) (polled : PolledNetwork P) (exchangeIdx : Nat) :
    MessageReceiver (Order P) where
  portNum := 2 * config.traderNum
  receivers := fun port =>
    if port % 2 = 0 then polled.network.orderChannel (port / 2, exchangeIdx) else []
  offset := polled.orderOffset exchangeIdx

/-- The `msg_receiver_` of a trade receiver. -/
def tradeReceiver (config : Config) (polled : PolledNetwork P) (traderIdx : Nat) :
    MessageReceiver (Msg P) where
  portNum := config.exchangeNum
  receivers := fun port => polled.network.msgChannel (traderIdx, port)
  offset := polled.tradeOffset traderIdx

variable [LinearOrder P] [Zero P]

/-- `tryrecv` in the loop of an order receiver, and what it does with an order. -/
def tryrecvOrder (config : Config) (polled : PolledNetwork P) (exchangeIdx : Nat) :
    PolledNetwork P :=
  match (polled.orderReceiver config exchangeIdx).tryrecv with
  | (none, receiver) =>
      { polled with
        orderOffset := Function.update polled.orderOffset exchangeIdx receiver.offset }
  | (some (port, order), receiver) =>
      { polled with
        network := (polled.network.setExchange exchangeIdx
          ((polled.network.exchanges exchangeIdx).receiveOrder config exchangeIdx (port / 2)
            order)).setOrderChannel (port / 2) exchangeIdx (receiver.receivers port)
        orderOffset := Function.update polled.orderOffset exchangeIdx receiver.offset }

/-- `tryrecv` in the loop of a trade receiver, and what it does with a message. -/
def tryrecvTrade (config : Config) (polled : PolledNetwork P) (traderIdx : Nat) :
    PolledNetwork P :=
  match (polled.tradeReceiver config traderIdx).tryrecv with
  | (none, receiver) =>
      { polled with
        tradeOffset := Function.update polled.tradeOffset traderIdx receiver.offset }
  | (some (port, msg), receiver) =>
      { polled with
        network := (polled.network.setTrader traderIdx
          ((polled.network.traders traderIdx).receive port msg)).setMsgChannel traderIdx port
            (receiver.receivers port)
        tradeOffset := Function.update polled.tradeOffset traderIdx receiver.offset }

/-- Perform an action; `none` when it is not enabled. -/
def next (algorithms : HeapAlgorithms) (config : Config) (inputs : Nat → TraderInput P)
    (action : PolledAction) (polled : PolledNetwork P) : Option (PolledNetwork P) :=
  let other (action : Action) : Option (PolledNetwork P) :=
    (Network.next algorithms config inputs action polled.network).map fun network =>
      { polled with network }
  match action with
  | .control traderIdx => other (.control traderIdx)
  | .pollOrder traderIdx exchangeIdx => other (.pollOrder traderIdx exchangeIdx)
  | .sendOrder traderIdx exchangeIdx => other (.sendOrder traderIdx exchangeIdx)
  | .tryrecvOrder exchangeIdx =>
      if polled.network.ExchangeRuns config exchangeIdx then
        some (polled.tryrecvOrder config exchangeIdx)
      else none
  | .work exchangeIdx stkCode => other (.work exchangeIdx stkCode)
  | .takeMsg exchangeIdx => other (.takeMsg exchangeIdx)
  | .sendMsg exchangeIdx => other (.sendMsg exchangeIdx)
  | .tryrecvTrade traderIdx =>
      if polled.network.TraderRuns config traderIdx then
        some (polled.tryrecvTrade config traderIdx)
      else none

end PolledNetwork

/-! ## What a call of `tryrecv` does -/

section Calls

variable {config : Config}

/-- A call finds no order in the channels of the exchange, or it receives the first order
of one of them. -/
theorem tryrecvOrder_cases (polled : PolledNetwork P) (e : Nat) :
    ((∀ tr < config.traderNum, polled.network.orderChannel (tr, e) = []) ∧
      (polled.tryrecvOrder config e).network = polled.network) ∨
    ∃ tr < config.traderNum, ∃ order rest,
      polled.network.orderChannel (tr, e) = order :: rest ∧
      (polled.tryrecvOrder config e).network = (polled.network.setExchange e
        ((polled.network.exchanges e).receiveOrder config e tr order)).setOrderChannel tr e
          rest := by
  rcases (polled.orderReceiver config e).tryrecv_cases with
    ⟨empty, result⟩ | ⟨before, port, after, order, rest, split, _, atPort, result⟩
  · left
    constructor
    · intro tr trader
      have isPort : 2 * tr ∈ (polled.orderReceiver config e).ports := by
        rw [MessageReceiver.mem_ports]
        change 2 * tr < 2 * config.traderNum
        omega
      have atPort := empty _ isPort
      simp only [PolledNetwork.orderReceiver, Nat.mul_mod_right, if_true] at atPort
      rwa [Nat.mul_div_cancel_left tr Nat.two_pos] at atPort
    · rw [PolledNetwork.tryrecvOrder, result]
  · right
    have isPort : port ∈ (polled.orderReceiver config e).ports := by
      rw [split]
      exact List.mem_append_right _ List.mem_cons_self
    have below : port < 2 * config.traderNum := MessageReceiver.mem_ports.mp isPort
    use port / 2
    constructor
    · omega
    · use order, rest
      constructor
      · simp only [PolledNetwork.orderReceiver] at atPort
        split at atPort
        · exact atPort
        · cases atPort
      · rw [PolledNetwork.tryrecvOrder, result]
        simp only [Function.update_self]

/-- A call finds no message in the channels to the trader, or it receives the first
message of one of them. -/
theorem tryrecvTrade_cases (polled : PolledNetwork P) (tr : Nat) :
    ((∀ e < config.exchangeNum, polled.network.msgChannel (tr, e) = []) ∧
      (polled.tryrecvTrade config tr).network = polled.network) ∨
    ∃ e < config.exchangeNum, ∃ msg rest,
      polled.network.msgChannel (tr, e) = msg :: rest ∧
      (polled.tryrecvTrade config tr).network = (polled.network.setTrader tr
        ((polled.network.traders tr).receive e msg)).setMsgChannel tr e rest := by
  rcases (polled.tradeReceiver config tr).tryrecv_cases with
    ⟨empty, result⟩ | ⟨before, e, after, msg, rest, split, _, atPort, result⟩
  · left
    constructor
    · exact fun e exchange => empty e (MessageReceiver.mem_ports.mpr exchange)
    · rw [PolledNetwork.tryrecvTrade, result]
  · right
    have isPort : e ∈ (polled.tradeReceiver config tr).ports := by
      rw [split]
      exact List.mem_append_right _ List.mem_cons_self
    refine ⟨e, MessageReceiver.mem_ports.mp isPort, msg, rest, atPort, ?_⟩
    rw [PolledNetwork.tryrecvTrade, result]
    simp only [Function.update_self]

end Calls

/-! ## Steps of the one system and of the other -/

section Steps

variable [LinearOrder P] [Zero P] {algorithms : HeapAlgorithms} {config : Config}
  {inputs : Nat → TraderInput P} {polled polled' : PolledNetwork P} {e tr : Nat}

/-- A call by a running exchange receives an order or finds none. -/
theorem tryrecvOrder_step (runs : polled.network.ExchangeRuns config e) :
    ((∀ tr < config.traderNum, polled.network.orderChannel (tr, e) = []) ∧
      (polled.tryrecvOrder config e).network = polled.network) ∨
    ∃ tr, Network.next algorithms config inputs (.receiveOrder tr e) polled.network =
      some (polled.tryrecvOrder config e).network := by
  rcases tryrecvOrder_cases polled e with none | ⟨tr, trader, order, rest, channel, result⟩
  · exact Or.inl none
  · right
    use tr
    simp only [Network.next, if_pos (And.intro trader runs), channel, result]

/-- A call by a running trader receives a message or finds none. -/
theorem tryrecvTrade_step (runs : polled.network.TraderRuns config tr) :
    ((∀ e < config.exchangeNum, polled.network.msgChannel (tr, e) = []) ∧
      (polled.tryrecvTrade config tr).network = polled.network) ∨
    ∃ e, Network.next algorithms config inputs (.receiveMsg tr e) polled.network =
      some (polled.tryrecvTrade config tr).network := by
  rcases tryrecvTrade_cases polled tr with none | ⟨e, exchange, msg, rest, channel, result⟩
  · exact Or.inl none
  · right
    use e
    simp only [Network.next, if_pos (And.intro runs exchange), channel, result]

/-- Every step is a step of the system in which any channel may be next, or does nothing
but move an offset. -/
theorem polled_step {action : PolledAction}
    (performed : PolledNetwork.next algorithms config inputs action polled = some polled') :
    polled'.network = polled.network ∨ ∃ action',
      Network.next algorithms config inputs action' polled.network = some polled'.network := by
  have other : ∀ {action' : Action},
      (Network.next algorithms config inputs action' polled.network).map
        (fun network => { polled with network }) = some polled' →
      ∃ action', Network.next algorithms config inputs action' polled.network =
        some polled'.network := by
    intro action' mapped
    rcases Option.map_eq_some_iff.mp mapped with ⟨network, step, rfl⟩
    exact ⟨action', step⟩
  cases action with
  | control tr => exact Or.inr (other performed)
  | pollOrder tr e => exact Or.inr (other performed)
  | sendOrder tr e => exact Or.inr (other performed)
  | tryrecvOrder e =>
      simp only [PolledNetwork.next] at performed
      split at performed
      · rename_i runs
        cases performed
        rcases tryrecvOrder_step runs with ⟨_, same⟩ | ⟨tr, step⟩
        · exact Or.inl same
        · exact Or.inr ⟨_, step⟩
      · cases performed
  | work e s => exact Or.inr (other performed)
  | takeMsg e => exact Or.inr (other performed)
  | sendMsg e => exact Or.inr (other performed)
  | tryrecvTrade tr =>
      simp only [PolledNetwork.next] at performed
      split at performed
      · rename_i runs
        cases performed
        rcases tryrecvTrade_step runs with ⟨_, same⟩ | ⟨e, step⟩
        · exact Or.inl same
        · exact Or.inr ⟨_, step⟩
      · cases performed

/-- Every step of the system in which any channel may be next can be answered with the
same step, or with one that receives from another channel and lowers the potential. -/
theorem polled_answers (healthy : Healthy algorithms config inputs polled.network)
    (volumes : PositiveVolumes config inputs) {action : Action} {network' : Network P}
    (performed : Network.next algorithms config inputs action polled.network = some network') :
    ∃ polled', Reachable (PolledNetwork.next algorithms config inputs) polled polled' ∧
      (polled'.network = network' ∨
        effort config inputs polled'.network < effort config inputs polled.network) := by
  have other : ∀ action' : PolledAction,
      PolledNetwork.next algorithms config inputs action' polled =
        (Network.next algorithms config inputs action polled.network).map
          (fun network => { polled with network }) →
      ∃ polled', Reachable (PolledNetwork.next algorithms config inputs) polled polled' ∧
        (polled'.network = network' ∨
          effort config inputs polled'.network < effort config inputs polled.network) := by
    intro action' same
    rw [performed] at same
    exact ⟨_, Reachable.refl.tail same, Or.inl rfl⟩
  cases action with
  | control tr => exact other (.control tr) rfl
  | pollOrder tr e => exact other (.pollOrder tr e) rfl
  | sendOrder tr e => exact other (.sendOrder tr e) rfl
  | receiveOrder tr e =>
      simp only [Network.next] at performed
      split at performed
      · rename_i runs
        have called : PolledNetwork.next algorithms config inputs (.tryrecvOrder e) polled =
          some (polled.tryrecvOrder config e) := if_pos runs.2
        use polled.tryrecvOrder config e, Reachable.refl.tail called
        rcases tryrecvOrder_step runs.2 with ⟨empty, _⟩ | ⟨tr', step⟩
        · rw [empty tr runs.1] at performed
          cases performed
        · right
          apply (healthy.consistent.effort_step healthy.tidy volumes step).resolve_left
          rintro ⟨_, _, isControl, _⟩
          cases isControl
      · cases performed
  | work e s => exact other (.work e s) rfl
  | takeMsg e => exact other (.takeMsg e) rfl
  | sendMsg e => exact other (.sendMsg e) rfl
  | receiveMsg tr e =>
      simp only [Network.next] at performed
      split at performed
      · rename_i runs
        have called : PolledNetwork.next algorithms config inputs (.tryrecvTrade tr) polled =
          some (polled.tryrecvTrade config tr) := if_pos runs.1
        use polled.tryrecvTrade config tr, Reachable.refl.tail called
        rcases tryrecvTrade_step runs.1 with ⟨empty, _⟩ | ⟨e', step⟩
        · rw [empty e runs.2] at performed
          cases performed
        · right
          apply (healthy.consistent.effort_step healthy.tidy volumes step).resolve_left
          rintro ⟨_, _, isControl, _⟩
          cases isControl
      · cases performed

end Steps

/-! ## Runs -/

section Runs

variable [LinearOrder P] [Zero P] {algorithms : HeapAlgorithms} {config : Config}
  {inputs : Nat → TraderInput P} {polled : PolledNetwork P} {orderNum : Int → Nat}

/-- A run of the system is one of the system in which any channel may be next. -/
theorem polled_reachable
    (reachable : Reachable (PolledNetwork.next algorithms config inputs)
      (PolledNetwork.new config inputs) polled) :
    Network.Reachable algorithms config inputs polled.network :=
  Reachable.image (fun _ => True) PolledNetwork.network (fun _ _ => trivial)
    (fun _ performed => polled_step performed) trivial reachable

/-- From every state the system with its receivers can come to rest.  Without hooks every
order is then committed, and every trader has seen the trades of committing the orders
of a stock by their ids. -/
theorem polled_comes_to_rest (partitioned : Partitioned config inputs orderNum)
    (volumes : PositiveVolumes config inputs) (orderCapacity : 0 < config.orderQueueCapacity)
    (msgCapacity : 0 < config.msgQueueCapacity)
    (reachable : Reachable (PolledNetwork.next algorithms config inputs)
      (PolledNetwork.new config inputs) polled) :
    Network.Reachable algorithms config inputs polled.network ∧
      ∃ final, Reachable (PolledNetwork.next algorithms config inputs) polled final ∧
        Quiescent config inputs final.network ∧
        (Unhooked config inputs → ∀ e < config.exchangeNum, ∀ s, config.Owns e s →
          ((final.network.exchanges e).threads s).committed.map Order.orderId =
              idsUpTo (orderNum s) ∧
            ∃ book, commitOrders algorithms s StockDeclarationBook.empty
                  ((final.network.exchanges e).threads s).committed =
                .ok (book, ((final.network.exchanges e).threads s).produced) ∧
              ∀ tr < config.traderNum,
                tradesOf s ((final.network.traders tr).seen e) =
                  ((final.network.exchanges e).threads s).produced) := by
  have stays : ∀ {state state' : Network P} {action : Action},
      Healthy algorithms config inputs state →
      Network.next algorithms config inputs action state = some state' →
      Healthy algorithms config inputs state' :=
    fun healthy performed => healthy.step partitioned volumes (Network.next_step performed)
  have bounded : ∀ {state state' : Network P} {action : Action},
      Healthy algorithms config inputs state →
      Network.next algorithms config inputs action state = some state' →
      effort config inputs state' ≤ effort config inputs state := by
    intro state state' action healthy performed
    rcases healthy.consistent.effort_step healthy.tidy volumes performed with idle | less
    · exact idle.effort_eq.le
    · exact less.le
  have healthy := (polled_reachable reachable).healthy partitioned volumes
  use polled_reachable reachable
  have rests : ∃ final, Reachable (PolledNetwork.next algorithms config inputs) polled final ∧
      Quiescent config inputs final.network := by
    apply exists_reachable_rest (fun polled => Healthy algorithms config inputs polled.network)
      (fun polled => effort config inputs polled.network)
    · intro state state' action healthy performed
      rcases polled_step performed with same | ⟨action', step⟩
      · rw [same]
        exact healthy
      · exact stays healthy step
    · intro state healthy moving
      rcases (healthy.advances_or_quiescent partitioned volumes orderCapacity
        msgCapacity).resolve_right moving with ⟨network, reached, lower⟩
      exact reached.lowered (Healthy algorithms config inputs) (effort config inputs)
        PolledNetwork.network stays bounded
        (fun healthy performed => polled_answers healthy volumes performed) healthy lower
    · exact healthy
  rcases rests with ⟨final, later, quiescent⟩
  refine ⟨final, later, quiescent, ?_⟩
  intro unhooked e exchange s owns
  have consistent := ((polled_reachable (reachable.trans later)).healthy partitioned
    volumes).consistent
  exact quiescent.committed_traded consistent partitioned orderCapacity unhooked exchange owns

end Runs

/-- A call finds nothing and moves the offset; two later ones receive the order of the second
trader and then that of the first. -/
def smallPolledRun : List PolledAction :=
  List.flatten
    [ List.replicate 8 (.control 0),
      List.replicate 7 (.control 1),
      [.tryrecvOrder 1, .pollOrder 0 1, .pollOrder 1 1, .sendOrder 1 1, .sendOrder 0 1],
      List.replicate 2 (.tryrecvOrder 1)]

/-- The state `smallPolledRun` leads to. -/
def smallPolled : PolledNetwork Int :=
  (run (PolledNetwork.next binaryHeap smallConfig smallInputs) smallPolledRun
    (PolledNetwork.new smallConfig smallInputs)).getD (PolledNetwork.new smallConfig smallInputs)

theorem smallPolled_reachable :
    Reachable (PolledNetwork.next binaryHeap smallConfig smallInputs)
      (PolledNetwork.new smallConfig smallInputs) smallPolled := by
  have performed : (run (PolledNetwork.next binaryHeap smallConfig smallInputs) smallPolledRun
      (PolledNetwork.new smallConfig smallInputs)).isSome = true := by
    decide +kernel
  rcases Option.isSome_iff_exists.mp performed with ⟨final, executed⟩
  rw [smallPolled, executed, Option.getD_some]
  exact Reachable.of_run executed

theorem polled_comes_to_rest_small :
    ((smallPolled.network.exchanges 1).threads 1).polled = [] ∧
      smallPolled.orderOffset 1 = 1 ∧
      ∃ final, Reachable (PolledNetwork.next binaryHeap smallConfig smallInputs)
          smallPolled final ∧
        Quiescent smallConfig smallInputs final.network := by
  rcases (polled_comes_to_rest smallInputs_partitioned smallInputs_volumes (by decide)
    (by decide) smallPolled_reachable).2 with ⟨final, later, quiescent, _⟩
  exact ⟨by decide +kernel, by decide +kernel, final, later, quiescent⟩

end PpiwTrading.System
