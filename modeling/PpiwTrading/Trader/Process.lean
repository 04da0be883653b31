import PpiwTrading.Common.Config
import PpiwTrading.Common.Message
import PpiwTrading.Trader.Controller

/-!
# The process of a trader

The controller runs through the stocks: it reads the limit of the window of a
stock, collects the orders of the stock that pass the check, goes on to the
next stock, and after the last one hands what it has collected to the senders.
There is one sender for each exchange, with a bounded queue, and one receiver,
which applies acknowledgements and trades to the shared information.

The reads and writes of the shared information and of the queues are the steps
of the process, since each of them is made under a lock.  A failed assertion
ends the process.

The last two fields of the state are logs: the orders each sender has sent, and
the messages that have been received from each exchange.
-/

namespace PpiwTrading.Trader

variable {P : Type}

/-- Where `run_all_in_memory` is: about to read the limit of the stock at index
`t`, in the loop over its orders, or in the loop over `order_to_send`. -/
inductive ControllerPc
  | scan (t : Nat)
  | collect (t : Nat) (orderIdLimits : Int)
  | send

structure TraderState (P : Type) where
  info : SharedTradeInfo
  nextSortedStructIdx : Int → Nat
  pc : ControllerPc
  orderToSend : List (Order P)
  orderQueue : Nat → List (Order P)
  orderMsg : Nat → Option (Order P)
  tradeIdxs : Int → Int
  fault : Option Fault
  sent : Nat → List (Order P)
  seen : Nat → List (Msg P)

namespace TraderState

def new (input : TraderInput P) : TraderState P where
  info := SharedTradeInfo.new input.hookedTrade
  nextSortedStructIdx := fun _ => 0
  pc := .scan 0
  orderToSend := []
  orderQueue := fun _ => []
  orderMsg := fun _ => none
  tradeIdxs := fun _ => 1
  fault := none
  sent := fun _ => []
  seen := fun _ => []

/-- `generate_order`: the data of the sorted struct under the code of its stock. -/
def generateOrder (stkCode : Int) (data : Order P) : Order P :=
  { data with stkCode := stkCode }

/-- The next order of a stock, if there is one left. -/
def nextOrder (input : TraderInput P) (trader : TraderState P) (stkCode : Int) :
    Option (Order P) :=
  ((input.sortedOrders stkCode)[trader.nextSortedStructIdx stkCode]?).map (generateOrder stkCode)

/-- `order_to_send.push_back(order)`, and on to the next sorted struct. -/
def accept (trader : TraderState P) (stkCode : Int) (checked : Order P) : TraderState P :=
  { trader with
    orderToSend := trader.orderToSend ++ [checked]
    nextSortedStructIdx := Function.update trader.nextSortedStructIdx stkCode
      (trader.nextSortedStructIdx stkCode + 1) }

/-- `put_order` on the sender at `idx`, with `rest` still to be sent. -/
def putOrder (trader : TraderState P) (idx : Nat) (order : Order P) (rest : List (Order P)) :
    TraderState P :=
  { trader with
    orderToSend := rest
    orderQueue := Function.update trader.orderQueue idx (trader.orderQueue idx ++ [order]) }

section Controller

variable [LinearOrder P] (config : Config) (input : TraderInput P) (trader : TraderState P)

/-- One turn of the loop over the orders of a stock. -/
def collect (t : Nat) (orderIdLimits : Int) : TraderState P :=
  let stkCode : Int := t + 1
  match nextOrder input trader stkCode with
  | none => { trader with pc := .scan (t + 1) }
  | some order =>
      match checkOrder input trader.info order orderIdLimits stkCode with
      | .error fault => { trader with fault := some fault }
      | .ok none => { trader with pc := .scan (t + 1) }
      | .ok (some checked) => trader.accept stkCode checked

/-- One step of `run_all_in_memory`; `none` while `put_order` waits. -/
def control : Option (TraderState P) :=
  match trader.pc with
  | .scan t =>
      if t < config.stockNum then
        some
          { trader with
            pc := .collect t
              (trader.info.slidingWindowStart (t + 1) + config.slidingWindowSize) }
      else some { trader with pc := .send }
  | .collect t orderIdLimits => some (collect input trader t orderIdLimits)
  | .send =>
      match trader.orderToSend with
      | [] => some { trader with pc := .scan 0 }
      | order :: rest =>
          let idx := config.exchangeOf order.stkCode
          if (trader.orderQueue idx).length < config.orderQueueCapacity then
            some (trader.putOrder idx order rest)
          else none

end Controller

/-- The sender of an exchange takes an order from its queue. -/
def pollOrder (trader : TraderState P) (exchangeIdx : Nat) : Option (TraderState P) :=
  match trader.orderMsg exchangeIdx, trader.orderQueue exchangeIdx with
  | none, order :: rest =>
      some
        { trader with
          orderMsg := Function.update trader.orderMsg exchangeIdx (some order)
          orderQueue := Function.update trader.orderQueue exchangeIdx rest }
  | _, _ => none

/-- The sender of an exchange sends its message. -/
def sendOrder (trader : TraderState P) (exchangeIdx : Nat) :
    Option (Order P × TraderState P) :=
  match trader.orderMsg exchangeIdx with
  | none => none
  | some order =>
      some (order,
        { trader with
          orderMsg := Function.update trader.orderMsg exchangeIdx none
          sent := Function.update trader.sent exchangeIdx (trader.sent exchangeIdx ++ [order]) })

/-- `process_order_ack`. -/
def processOrderAck (trader : TraderState P) (ack : OrderAck) : TraderState P :=
  match trader.info.updateSlidingWindowStart ack.stkCode (ack.orderId + 1) with
  | .error fault => { trader with fault := some fault }
  | .ok info => { trader with info := info }

/-- `process_trade_result`, up to the file of trades. -/
def processTradeResult (trader : TraderState P) (trade : Trade P) : TraderState P :=
  match trader.info.updateIfHooked trade.stkCode (trader.tradeIdxs trade.stkCode)
      trade.volume with
  | .error fault => { trader with fault := some fault }
  | .ok info =>
      { trader with
        info := info
        tradeIdxs := Function.update trader.tradeIdxs trade.stkCode
          (trader.tradeIdxs trade.stkCode + 1) }

/-- The receiver processes a message of an exchange. -/
def receive (trader : TraderState P) (exchangeIdx : Nat) (msg : Msg P) : TraderState P :=
  let trader' :=
    match msg with
    | .ack ack => processOrderAck trader ack
    | .trade trade => processTradeResult trader trade
  { trader' with
    seen := Function.update trader.seen exchangeIdx (trader.seen exchangeIdx ++ [msg]) }

end TraderState

end PpiwTrading.Trader
