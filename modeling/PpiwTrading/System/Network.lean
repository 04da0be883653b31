import PpiwTrading.Exchange.Service
import PpiwTrading.Trader.Dispatch
import PpiwTrading.Transition.Labelled

/-!
# Traders, exchanges and the channels between them

The system has a channel for the orders of each trader to each exchange and one
for the messages of each exchange to each trader.  Channels are reliable and
keep the order of what is sent; nothing is assumed about delays.  An action is
one step of one thread of one process, so a list of actions is an interleaving.
A process that has met a fault takes no further step.
-/

namespace PpiwTrading.System

open PpiwTrading.Heap
open PpiwTrading.Sequence
open PpiwTrading.Trader
open PpiwTrading.Exchange

variable {P : Type}

/-- The processes, and the channels of a pair of a trader and an exchange. -/
structure Network (P : Type) where
  traders : Nat → TraderState P
  exchanges : Nat → ExchangeState P
  orderChannel : Nat × Nat → List (Order P)
  msgChannel : Nat × Nat → List (Msg P)

inductive Action
  /-- A step of `TraderController::run_all_in_memory`. -/
  | control (traderIdx : Nat)
  /-- A sender of a trader takes an order from its queue. -/
  | pollOrder (traderIdx exchangeIdx : Nat)
  /-- A sender of a trader sends an order. -/
  | sendOrder (traderIdx exchangeIdx : Nat)
  /-- The order receiver of an exchange receives an order. -/
  | receiveOrder (traderIdx exchangeIdx : Nat)
  /-- A step of `StockExchange::run`. -/
  | work (exchangeIdx : Nat) (stkCode : Int)
  /-- The trade sender of an exchange takes a message from its queue. -/
  | takeMsg (exchangeIdx : Nat)
  /-- The trade sender of an exchange sends its message to one trader. -/
  | sendMsg (exchangeIdx : Nat)
  /-- The trade receiver of a trader receives a message. -/
  | receiveMsg (traderIdx exchangeIdx : Nat)

namespace Network

def new (config : Config) (inputs : Nat → TraderInput P) : Network P where
  traders := fun traderIdx => TraderState.new (inputs traderIdx)
  exchanges := fun _ => ExchangeState.new config
  orderChannel := fun _ => []
  msgChannel := fun _ => []

/-- A trader process that takes steps. -/
def TraderRuns (config : Config) (network : Network P) (traderIdx : Nat) : Prop :=
  traderIdx < config.traderNum ∧ (network.traders traderIdx).fault = none

/-- An exchange process that takes steps. -/
def ExchangeRuns (config : Config) (network : Network P) (exchangeIdx : Nat) : Prop :=
  exchangeIdx < config.exchangeNum ∧ (network.exchanges exchangeIdx).fault = none

instance (config : Config) (network : Network P) (traderIdx : Nat) :
    Decidable (network.TraderRuns config traderIdx) :=
  inferInstanceAs (Decidable (_ ∧ _))

instance (config : Config) (network : Network P) (exchangeIdx : Nat) :
    Decidable (network.ExchangeRuns config exchangeIdx) :=
  inferInstanceAs (Decidable (_ ∧ _))

def setTrader (network : Network P) (traderIdx : Nat) (trader : TraderState P) : Network P :=
  { network with traders := Function.update network.traders traderIdx trader }

def setExchange (network : Network P) (exchangeIdx : Nat) (ex : ExchangeState P) : Network P :=
  { network with exchanges := Function.update network.exchanges exchangeIdx ex }

def setOrderChannel (network : Network P) (traderIdx exchangeIdx : Nat)
    (orders : List (Order P)) : Network P :=
  { network with
    orderChannel := Function.update network.orderChannel (traderIdx, exchangeIdx) orders }

def setMsgChannel (network : Network P) (traderIdx exchangeIdx : Nat)
    (msgs : List (Msg P)) : Network P :=
  { network with
    msgChannel := Function.update network.msgChannel (traderIdx, exchangeIdx) msgs }

variable [LinearOrder P] [Zero P]

/-- Perform an action; `none` when it is not enabled. -/
def next (algorithms : HeapAlgorithms) (config : Config) (inputs : Nat → TraderInput P)
    (action : Action) (network : Network P) : Option (Network P) :=
  match action with
  | .control traderIdx =>
      if network.TraderRuns config traderIdx then
        ((network.traders traderIdx).control config (inputs traderIdx)).map
          (network.setTrader traderIdx)
      else none
  | .pollOrder traderIdx exchangeIdx =>
      if network.TraderRuns config traderIdx ∧ exchangeIdx < config.exchangeNum then
        ((network.traders traderIdx).pollOrder exchangeIdx).map (network.setTrader traderIdx)
      else none
  | .sendOrder traderIdx exchangeIdx =>
      if network.TraderRuns config traderIdx ∧ exchangeIdx < config.exchangeNum then
        ((network.traders traderIdx).sendOrder exchangeIdx).map fun sending =>
          (network.setTrader traderIdx sending.2).setOrderChannel traderIdx exchangeIdx
            (network.orderChannel (traderIdx, exchangeIdx) ++ [sending.1])
      else none
  | .receiveOrder traderIdx exchangeIdx =>
      if traderIdx < config.traderNum ∧ network.ExchangeRuns config exchangeIdx then
        match network.orderChannel (traderIdx, exchangeIdx) with
        | [] => none
        | order :: rest =>
            some
              ((network.setExchange exchangeIdx
                ((network.exchanges exchangeIdx).receiveOrder config exchangeIdx traderIdx
                  order)).setOrderChannel traderIdx exchangeIdx rest)
      else none
  | .work exchangeIdx stkCode =>
      if network.ExchangeRuns config exchangeIdx ∧ config.Owns exchangeIdx stkCode then
        ((network.exchanges exchangeIdx).work algorithms config stkCode).map
          (network.setExchange exchangeIdx)
      else none
  | .takeMsg exchangeIdx =>
      if network.ExchangeRuns config exchangeIdx then
        ((network.exchanges exchangeIdx).takeMsg config).map (network.setExchange exchangeIdx)
      else none
  | .sendMsg exchangeIdx =>
      if network.ExchangeRuns config exchangeIdx then
        ((network.exchanges exchangeIdx).sendMsg config).map fun sending =>
          (network.setExchange exchangeIdx sending.2).setMsgChannel sending.1.2 exchangeIdx
            (network.msgChannel (sending.1.2, exchangeIdx) ++ [sending.1.1])
      else none
  | .receiveMsg traderIdx exchangeIdx =>
      if network.TraderRuns config traderIdx ∧ exchangeIdx < config.exchangeNum then
        match network.msgChannel (traderIdx, exchangeIdx) with
        | [] => none
        | msg :: rest =>
            some
              ((network.setTrader traderIdx
                ((network.traders traderIdx).receive exchangeIdx msg)).setMsgChannel traderIdx
                  exchangeIdx rest)
      else none

/-- What a single action can do, with the guards under which it is enabled. -/
inductive Step (algorithms : HeapAlgorithms) (config : Config) (inputs : Nat → TraderInput P)
    (network : Network P) : Network P → Prop
  | control {tr : Nat} {trader : TraderState P} (runs : network.TraderRuns config tr)
      (step : (network.traders tr).control config (inputs tr) = some trader) :
      Step algorithms config inputs network (network.setTrader tr trader)
  | pollOrder {tr e : Nat} {trader : TraderState P} (runs : network.TraderRuns config tr)
      (step : (network.traders tr).pollOrder e = some trader) :
      Step algorithms config inputs network (network.setTrader tr trader)
  | sendOrder {tr e : Nat} {trader : TraderState P} {order : Order P}
      (runs : network.TraderRuns config tr) (exchange : e < config.exchangeNum)
      (step : (network.traders tr).sendOrder e = some (order, trader)) :
      Step algorithms config inputs network ((network.setTrader tr trader).setOrderChannel tr e
        (network.orderChannel (tr, e) ++ [order]))
  | receiveOrder {tr e : Nat} {order : Order P} {rest : List (Order P)}
      (trader : tr < config.traderNum) (runs : network.ExchangeRuns config e)
      (channel : network.orderChannel (tr, e) = order :: rest) :
      Step algorithms config inputs network
        ((network.setExchange e
          ((network.exchanges e).receiveOrder config e tr order)).setOrderChannel tr e rest)
  | work {e : Nat} {s : Int} {ex : ExchangeState P} (runs : network.ExchangeRuns config e)
      (owns : config.Owns e s)
      (step : (network.exchanges e).work algorithms config s = some ex) :
      Step algorithms config inputs network (network.setExchange e ex)
  | takeMsg {e : Nat} {ex : ExchangeState P} (runs : network.ExchangeRuns config e)
      (step : (network.exchanges e).takeMsg config = some ex) :
      Step algorithms config inputs network (network.setExchange e ex)
  | sendMsg {e idx : Nat} {msg : Msg P} {ex : ExchangeState P}
      (runs : network.ExchangeRuns config e)
      (step : (network.exchanges e).sendMsg config = some ((msg, idx), ex)) :
      Step algorithms config inputs network ((network.setExchange e ex).setMsgChannel idx e
        (network.msgChannel (idx, e) ++ [msg]))
  | receiveMsg {tr e : Nat} {msg : Msg P} {rest : List (Msg P)}
      (runs : network.TraderRuns config tr) (exchange : e < config.exchangeNum)
      (channel : network.msgChannel (tr, e) = msg :: rest) :
      Step algorithms config inputs network
        ((network.setTrader tr ((network.traders tr).receive e msg)).setMsgChannel tr e rest)

theorem next_step {algorithms : HeapAlgorithms} {config : Config} {inputs : Nat → TraderInput P}
    {action : Action} {network network' : Network P}
    (performed : next algorithms config inputs action network = some network') :
    Step algorithms config inputs network network' := by
  cases action with
  | control tr =>
      simp only [next] at performed
      split at performed
      · rename_i runs
        obtain ⟨trader, step, rfl⟩ := Option.map_eq_some_iff.mp performed
        exact .control runs step
      · cases performed
  | pollOrder tr e =>
      simp only [next] at performed
      split at performed
      · rename_i runs
        obtain ⟨trader, step, rfl⟩ := Option.map_eq_some_iff.mp performed
        exact .pollOrder runs.1 step
      · cases performed
  | sendOrder tr e =>
      simp only [next] at performed
      split at performed
      · rename_i runs
        obtain ⟨⟨order, trader⟩, step, rfl⟩ := Option.map_eq_some_iff.mp performed
        exact .sendOrder runs.1 runs.2 step
      · cases performed
  | receiveOrder tr e =>
      simp only [next] at performed
      split at performed
      · rename_i runs
        split at performed
        · cases performed
        · rename_i order rest channel
          cases performed
          exact .receiveOrder runs.1 runs.2 channel
      · cases performed
  | work e s =>
      simp only [next] at performed
      split at performed
      · rename_i runs
        obtain ⟨ex, step, rfl⟩ := Option.map_eq_some_iff.mp performed
        exact .work runs.1 runs.2 step
      · cases performed
  | takeMsg e =>
      simp only [next] at performed
      split at performed
      · rename_i runs
        obtain ⟨ex, step, rfl⟩ := Option.map_eq_some_iff.mp performed
        exact .takeMsg runs step
      · cases performed
  | sendMsg e =>
      simp only [next] at performed
      split at performed
      · rename_i runs
        obtain ⟨⟨⟨msg, idx⟩, ex⟩, step, rfl⟩ := Option.map_eq_some_iff.mp performed
        exact .sendMsg runs step
      · cases performed
  | receiveMsg tr e =>
      simp only [next] at performed
      split at performed
      · rename_i runs
        split at performed
        · cases performed
        · rename_i msg rest channel
          cases performed
          exact .receiveMsg runs.1 runs.2 channel
      · cases performed

/-- The states of the system under any interleaving. -/
def Reachable (algorithms : HeapAlgorithms) (config : Config) (inputs : Nat → TraderInput P)
    (network : Network P) : Prop :=
  Transition.Reachable (next algorithms config inputs) (new config inputs) network

/-- The state after a list of actions from the start. -/
def after (algorithms : HeapAlgorithms) (config : Config) (inputs : Nat → TraderInput P)
    (actions : List Action) : Network P :=
  (Transition.run (next algorithms config inputs) actions (new config inputs)).getD
    (new config inputs)

/-- A list of actions that are all enabled in turn leads to a reachable state. -/
theorem after_reachable {algorithms : HeapAlgorithms} {config : Config}
    {inputs : Nat → TraderInput P} {actions : List Action}
    (performed : (Transition.run (next algorithms config inputs) actions
      (new config inputs)).isSome = true) :
    Reachable algorithms config inputs (after algorithms config inputs actions) := by
  obtain ⟨final, executed⟩ := Option.isSome_iff_exists.mp performed
  have isFinal : after algorithms config inputs actions = final := by
    rw [after, executed, Option.getD_some]
  rw [isFinal]
  exact Transition.Reachable.of_run executed

end Network

/-- The input of the system: for every stock the traders' orders are sorted by
id and share out the ids from 1 to `orderNum`. -/
structure Partitioned (config : Config) (inputs : Nat → TraderInput P) (orderNum : Int → Nat) :
    Prop where
  sorted : ∀ s, config.Listed s → ∀ traderIdx < config.traderNum,
    ((inputs traderIdx).sortedOrders s).Pairwise fun o p => o.orderId < p.orderId
  covered : ∀ s, config.Listed s → ∀ i : Int,
    (∃ traderIdx < config.traderNum, ∃ o ∈ (inputs traderIdx).sortedOrders s, o.orderId = i) ↔
      1 ≤ i ∧ i ≤ orderNum s
  disjoint : ∀ s, config.Listed s → ∀ first < config.traderNum, ∀ second < config.traderNum,
    ∀ o ∈ (inputs first).sortedOrders s, ∀ p ∈ (inputs second).sortedOrders s,
      o.orderId = p.orderId → first = second

/-- Sorted lists whose ids are together those from 1 to `orderNum` share them out. -/
theorem Partitioned.of_perm {config : Config} {inputs : Nat → TraderInput P}
    {orderNum : Int → Nat}
    (sorted : ∀ s ∈ idsUpTo config.stockNum, ∀ traderIdx < config.traderNum,
      ((inputs traderIdx).sortedOrders s).Pairwise fun o p => o.orderId < p.orderId)
    (shared : ∀ s ∈ idsUpTo config.stockNum,
      ((List.range config.traderNum).flatMap fun traderIdx =>
        ((inputs traderIdx).sortedOrders s).map Order.orderId).Perm (idsUpTo (orderNum s))) :
    Partitioned config inputs orderNum where
  sorted := fun s listed => sorted s (mem_idsUpTo.mpr listed)
  covered := by
    intro s listed i
    rw [← mem_idsUpTo, ← (shared s (mem_idsUpTo.mpr listed)).mem_iff, List.mem_flatMap]
    simp only [List.mem_range, List.mem_map]
  disjoint := by
    intro s listed first isFirst second isSecond o inFirst p inSecond sameId
    have distinct := ((shared s (mem_idsUpTo.mpr listed)).nodup_iff).mpr
      (idsUpTo_nodup _)
    rw [List.nodup_flatMap] at distinct
    have symmetric : Std.Symm (Function.onFun List.Disjoint fun traderIdx =>
        ((inputs traderIdx).sortedOrders s).map Order.orderId) := ⟨fun _ _ apart => apart.symm⟩
    by_contra different
    have apart := distinct.2.forall (List.mem_range.mpr isFirst) (List.mem_range.mpr isSecond)
      different
    exact apart (List.mem_map_of_mem inFirst) (sameId ▸ List.mem_map_of_mem inSecond)

end PpiwTrading.System
