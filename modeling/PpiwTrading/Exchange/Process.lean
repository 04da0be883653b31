import PpiwTrading.Common.Config
import PpiwTrading.Common.Message
import PpiwTrading.Common.SlidingWindow
import PpiwTrading.Exchange.ReceiveOrder

/-!
# The process of an exchange

An exchange has one thread for each of its stocks, one that receives orders into
the windows of the stocks, and one that sends messages to the traders.  A stock
thread polls its window until the head is free, acknowledges the last order it
has polled, gives the polled orders one by one to the matching engine and puts
the trades of each into the message queue.

Each access to a window or to the message queue is a step, since it is made
under a lock; the matching engine works on data of its own thread, so a call of
it is one step and its trades are put one by one afterwards.  An exception
thrown while an order is received is caught and reported; a failed assertion of
the engine ends the process.

The last three fields of a thread and the last two of the process are logs.
-/

namespace PpiwTrading.Exchange

open PpiwTrading.Heap

variable {P : Type}

/-- Where the loop of a stock thread is: polling into the local vector `orders`,
about to acknowledge them, or receiving them, with the trades that are still to
be put. -/
inductive Phase (P : Type)
  | consuming (orders : List (Order P))
  | acking (orders : List (Order P))
  | receiving (orders : List (Order P)) (pending : List (Trade P))

structure StockThread (P : Type) where
  exchange : StockExchange P
  phase : Phase P
  polled : List (Order P)
  committed : List (Order P)
  produced : List (Trade P)

structure ExchangeState (P : Type) where
  orderBuffer : Int → SlidingWindow (Order P)
  threads : Int → StockThread P
  msgQueue : List (Msg P)
  sending : Option (Msg P × Nat)
  cerr : List (Order P)
  fault : Option Fault
  received : Nat → List (Order P)
  sent : List (Msg P)

def StockThread.new (stkCode : Int) : StockThread P :=
  ⟨StockExchange.new stkCode, .consuming [], [], [], []⟩

namespace ExchangeState

def new (config : Config) : ExchangeState P where
  orderBuffer := fun _ => SlidingWindow.new config.slidingWindowSize
  threads := StockThread.new
  msgQueue := []
  sending := none
  cerr := []
  fault := none
  received := fun _ => []
  sent := []

/-- `order_buffer.at(order.stk_code).put(order, window_idx)`. -/
def bufferOrder (config : Config) (partitionIdx : Nat) (ex : ExchangeState P) (order : Order P) :
    Except Fault (SlidingWindow (Order P)) :=
  if config.Owns partitionIdx order.stkCode then
    (ex.orderBuffer order.stkCode).put order (windowIdx config.slidingWindowSize order.orderId)
  else .error .unknownStock

/-- `Exchange::receiveOrder` for an order that came from a trader. -/
def receiveOrder (config : Config) (partitionIdx : Nat) (ex : ExchangeState P) (traderIdx : Nat)
    (order : Order P) : ExchangeState P :=
  let ex' :=
    match bufferOrder config partitionIdx ex order with
    | .ok window =>
        { ex with orderBuffer := Function.update ex.orderBuffer order.stkCode window }
    | .error _ => { ex with cerr := ex.cerr ++ [order] }
  { ex' with received := Function.update ex.received traderIdx (ex.received traderIdx ++ [order]) }

def setThread (ex : ExchangeState P) (stkCode : Int) (thread : StockThread P) : ExchangeState P :=
  { ex with threads := Function.update ex.threads stkCode thread }

/-- `msg_queue_.put(msg)`. -/
def putMsg (ex : ExchangeState P) (msg : Msg P) : ExchangeState P :=
  { ex with msgQueue := ex.msgQueue ++ [msg], sent := ex.sent ++ [msg] }

section Work

variable [LinearOrder P] [Zero P] (algorithms : HeapAlgorithms) (config : Config)
  (ex : ExchangeState P) (stkCode : Int)

/-- A step of `comsumeOrder` that polls the window. -/
def pollSlot (thread : StockThread P) (orders : List (Order P)) : Option (ExchangeState P) :=
  match (ex.orderBuffer stkCode).poll with
  | some (order, window) =>
      some
        (setThread { ex with orderBuffer := Function.update ex.orderBuffer stkCode window } stkCode
          { thread with
            phase := .consuming (orders ++ [order])
            polled := thread.polled ++ [order] })
  | none =>
      if orders.isEmpty then none
      else some (ex.setThread stkCode { thread with phase := .acking orders })

/-- The step of `comsumeOrder` that puts the acknowledgement. -/
def ackOrders (thread : StockThread P) (orders : List (Order P)) : Option (ExchangeState P) :=
  match orders.getLast? with
  | none => none
  | some last =>
      if ex.msgQueue.length < config.msgQueueCapacity then
        some ((ex.putMsg (.ack ⟨stkCode, last.orderId⟩)).setThread stkCode
          { thread with phase := .receiving orders [] })
      else none

/-- `receiveOrder` on the next polled order. -/
def receiveNext (thread : StockThread P) (order : Order P) (rest : List (Order P)) :
    ExchangeState P :=
  match Exchange.receiveOrder algorithms thread.exchange order with
  | .error fault => { ex with fault := some fault }
  | .ok received =>
      ex.setThread stkCode
        { thread with
          exchange := received.exchange
          phase := .receiving rest received.trades
          committed := thread.committed ++ received.committed }

/-- `produceTrade` on the next trade of the engine. -/
def produceTrade (thread : StockThread P) (orders : List (Order P)) (trade : Trade P)
    (pending : List (Trade P)) : Option (ExchangeState P) :=
  if ex.msgQueue.length < config.msgQueueCapacity then
    some ((ex.putMsg (.trade trade)).setThread stkCode
      { thread with
        phase := .receiving orders pending
        produced := thread.produced ++ [trade] })
  else none

/-- One step of `StockExchange::run`; `none` while it waits. -/
def work : Option (ExchangeState P) :=
  let thread := ex.threads stkCode
  match thread.phase with
  | .consuming orders => ex.pollSlot stkCode thread orders
  | .acking orders => ex.ackOrders config stkCode thread orders
  | .receiving orders (trade :: pending) =>
      ex.produceTrade config stkCode thread orders trade pending
  | .receiving (order :: rest) [] => some (ex.receiveNext algorithms stkCode thread order rest)
  | .receiving [] [] => some (ex.setThread stkCode { thread with phase := .consuming [] })

end Work

/-- The trade sender takes a message. -/
def takeMsg (config : Config) (ex : ExchangeState P) : Option (ExchangeState P) :=
  match ex.sending, ex.msgQueue with
  | none, msg :: rest =>
      some
        { ex with
          sending := if 0 < config.traderNum then some (msg, 0) else none
          msgQueue := rest }
  | _, _ => none

/-- The trade sender sends its message to the next trader. -/
def sendMsg (config : Config) (ex : ExchangeState P) :
    Option ((Msg P × Nat) × ExchangeState P) :=
  match ex.sending with
  | none => none
  | some (msg, idx) =>
      some ((msg, idx),
        { ex with sending := if idx + 1 < config.traderNum then some (msg, idx + 1) else none })

end ExchangeState

end PpiwTrading.Exchange
