import PpiwTrading.Messages.Layout

/-!
# The messages between traders and exchanges

A message has a code, a number of elements and the elements.  The senders build
it in different ways: the order sender writes the number into its place after it
has appended an order, and the trade sender goes through `CommTrade`.  The
receivers read it with one running offset, where reading outside the message has
no result.
-/

namespace PpiwTrading.Messages

open PpiwTrading.Bytes PpiwTrading.Trader

/-! ## Senders -/

def ORDER_MSG : UInt32 := 1

def TRADE_MSG : UInt32 := 2

def ORDER_ACK_MSG : UInt32 := 3

/-- The loop of `TraderOrderSender::run` that polls the order queue until it has
appended an order; `none` while the queue stays empty. -/
def pollOrders : List (Option OrderObject) → List UInt8 → Nat → Option (List UInt8 × Nat)
  | [], orderMsg, cnt => if cnt = 0 then none else some (orderMsg, cnt)
  | polled :: polls, orderMsg, cnt =>
      if cnt = 0 then
        match polled with
        | none => pollOrders polls orderMsg cnt
        | some object =>
            if 100 ≤ cnt + 1 then some (orderMsg ++ orderCodec.encode object, cnt + 1)
            else pollOrders polls (orderMsg ++ orderCodec.encode object) (cnt + 1)
      else some (orderMsg, cnt)

/-- The message that `TraderOrderSender::run` sends next, with the results of its
polls. -/
def orderMessage (polls : List (Option OrderObject)) : Option (List UInt8) := do
  let header := FixedWidth.word32.encode ORDER_MSG ++ FixedWidth.word32.encode 0
  let polled ← pollOrders polls header 0
  memcpy polled.1 4 (FixedWidth.word32.encode (UInt32.ofNat polled.2))

def convertTradeToCommtrade (trade : Trade UInt64) : CommTrade where
  stkCode := trade.stkCode
  bidId := trade.bidId
  askId := trade.askId
  dummy := 0
  price := trade.price
  volume := trade.volume

/-- `ExchangeTradeSender::put_trade`: the message it puts into the queue. -/
def putTrade (trade : Trade UInt64) : List UInt8 :=
  FixedWidth.word32.encode TRADE_MSG ++ FixedWidth.word32.encode 1 ++
    commTradeCodec.encode (convertTradeToCommtrade trade)

/-- `ExchangeTradeSender::put_order_ack`: the message it puts into the queue. -/
def putOrderAck (ack : OrderAck) : List UInt8 :=
  FixedWidth.word32.encode ORDER_ACK_MSG ++ FixedWidth.word32.encode 1 ++ orderAckCodec.encode ack

/-! ## Receivers -/

/-- How a receiver can fail to process a message. -/
inductive WireFault where
  /-- `"Wrong message type!"` of the order receiver. -/
  | wrongMessageType
  /-- `"Wrong message code!"` of the trade receiver. -/
  | wrongMessageCode
  /-- A read outside the message. -/
  | outside
  deriving DecidableEq, Repr

/-- The elements of a message from `offset` on, after their number. -/
def getElems {α : Type} (codec : FixedWidth α) (msg : List UInt8) (offset : Nat) :
    Option (List α × Nat) := do
  let cnt ← getElemFromBuf FixedWidth.word32 msg 0 offset
  readValues (getElemFromBuf codec msg 0) cnt.1.toNat cnt.2

def orOutside {α : Type} (read : Option α) : Except WireFault α :=
  match read with
  | some a => .ok a
  | none => .error .outside

@[simp]
theorem orOutside_some_bind {α β : Type} (a : α) (next : α → Except WireFault β) :
    orOutside (some a) >>= next = next a :=
  rfl

/-- The body of the loop of `ExchangeOrderReceiver::run`: the orders it gives to
the exchange, and the offset it ends with. -/
def receiveOrders (msg : List UInt8) : Except WireFault (List (Order UInt64) × Nat) := do
  let msgCode ← orOutside (getElemFromBuf FixedWidth.word32 msg 0 0)
  if msgCode.1 = ORDER_MSG then
    let orders ← orOutside (getElems orderCodec msg msgCode.2)
    .ok (orders.1.map OrderObject.order, orders.2)
  else .error .wrongMessageType

/-- `TraderTradeReceiver::process_trade_result` up to its deserialised trades. -/
def processTradeResult (msg : List UInt8) : Option (List (Trade UInt64) × Nat) :=
  (getElems commTradeCodec msg 4).map fun trades =>
    (trades.1.map convertCommtradeToTrade, trades.2)

/-- `TraderTradeReceiver::process_order_ack` up to its deserialised
acknowledgements. -/
def processOrderAck (msg : List UInt8) : Option (List OrderAck × Nat) :=
  getElems orderAckCodec msg 4

/-- The handler that `TraderTradeReceiver::run` has chosen, with the values it
has read and the offset it ended with. -/
inductive Dispatched where
  | acks (acks : List OrderAck) (offset : Nat)
  | trades (trades : List (Trade UInt64)) (offset : Nat)
  deriving DecidableEq, Repr

/-- The body of the loop of `TraderTradeReceiver::run`. -/
def dispatch (msg : List UInt8) : Except WireFault Dispatched := do
  let msgCode ← orOutside (getElemFromBuf FixedWidth.word32 msg 0 0)
  if msgCode.1 = ORDER_ACK_MSG then
    let acks ← orOutside (processOrderAck msg)
    .ok (.acks acks.1 acks.2)
  else if msgCode.1 = TRADE_MSG then
    let trades ← orOutside (processTradeResult msg)
    .ok (.trades trades.1 trades.2)
  else .error .wrongMessageCode

/-! ## Messages of any number of elements -/

section Message

variable {α : Type} (codec : FixedWidth α)

/-- A message with some elements. -/
def message (msgCode : UInt32) (elems : List α) : List UInt8 :=
  FixedWidth.word32.encode msgCode ++
    (FixedWidth.word32.encode (UInt32.ofNat elems.length) ++ codec.encodeAll elems)

theorem length_message (msgCode : UInt32) (elems : List α) :
    (message codec msgCode elems).length = 8 + codec.width * elems.length := by
  have four : ∀ word, (FixedWidth.word32.encode word).length = 4 := FixedWidth.word32.length_encode
  rw [message, List.length_append, List.length_append, four, four, codec.length_encodeAll,
    ← Nat.add_assoc]

/-- The first word of a message is its code. -/
theorem code_message (msgCode : UInt32) (elems : List α) :
    getElemFromBuf FixedWidth.word32 (message codec msgCode elems) 0 0 = some (msgCode, 4) := by
  have read := @FixedWidth.readAt_append UInt32 FixedWidth.word32 [] msgCode trivial
    (FixedWidth.word32.encode (UInt32.ofNat elems.length) ++ codec.encodeAll elems)
  rw [getElemFromBuf]
  exact congrArg (Option.map fun elem => (elem, 4)) read

/-- The elements of a message are read back in their order, up to its end. -/
theorem getElems_message (msgCode : UInt32) {elems : List α}
    (valid : ∀ elem ∈ elems, codec.Valid elem) (countable : elems.length < 2 ^ 32) :
    getElems codec (message codec msgCode elems) 4 =
      some (elems, (message codec msgCode elems).length) := by
  have number : getElemFromBuf FixedWidth.word32 (message codec msgCode elems) 0 4 =
      some (UInt32.ofNat elems.length, 8) := by
    have read := @FixedWidth.readAt_append UInt32 FixedWidth.word32
      (FixedWidth.word32.encode msgCode) (UInt32.ofNat elems.length) trivial
      (codec.encodeAll elems)
    rw [FixedWidth.word32.length_encode] at read
    rw [getElemFromBuf]
    exact congrArg (Option.map fun elem => (elem, 8)) read
  have count : (UInt32.ofNat elems.length).toNat = elems.length :=
    UInt32.toNat_ofNat_of_lt countable
  have header : (FixedWidth.word32.encode msgCode ++
      FixedWidth.word32.encode (UInt32.ofNat elems.length)).length = 8 := by
    rw [List.length_append, FixedWidth.word32.length_encode, FixedWidth.word32.length_encode]
    rfl
  have read := readValues_encodeAll valid (FixedWidth.word32.encode msgCode ++
    FixedWidth.word32.encode (UInt32.ofNat elems.length)) []
  rw [header, List.append_nil, List.append_assoc, ← length_message codec msgCode] at read
  rw [getElems, number, Option.bind_eq_bind, Option.bind_some, count]
  exact read

end Message

theorem receiveOrders_message {objects : List OrderObject}
    (ints : ∀ object ∈ objects, IntOrder object.order) (countable : objects.length < 2 ^ 32) :
    receiveOrders (message orderCodec ORDER_MSG objects) =
      .ok (objects.map OrderObject.order, (message orderCodec ORDER_MSG objects).length) := by
  rw [receiveOrders, code_message, orOutside_some_bind, if_pos rfl,
    getElems_message _ _ (fun object member => (ints object member).valid) countable,
    orOutside_some_bind]

/-- A message with another code is refused by the order receiver. -/
theorem receiveOrders_foreign {α : Type} (codec : FixedWidth α) {msgCode : UInt32}
    (foreign : msgCode ≠ ORDER_MSG) (elems : List α) :
    receiveOrders (message codec msgCode elems) = .error .wrongMessageType := by
  rw [receiveOrders, code_message, orOutside_some_bind, if_neg foreign]

theorem valid_convertTradeToCommtrade {trade : Trade UInt64} (ints : IntTrade trade) :
    commTradeCodec.Valid (convertTradeToCommtrade trade) :=
  ⟨ints.stkCode, ints.bidId, ints.askId, by
    constructor
    · exact ⟨by norm_num [convertTradeToCommtrade], by norm_num [convertTradeToCommtrade]⟩
    · exact ⟨trivial, ints.volume⟩⟩

theorem dispatch_trades {trades : List (Trade UInt64)} (ints : ∀ trade ∈ trades, IntTrade trade)
    (countable : trades.length < 2 ^ 32) :
    dispatch (message commTradeCodec TRADE_MSG (trades.map convertTradeToCommtrade)) =
      .ok (.trades trades
        (message commTradeCodec TRADE_MSG (trades.map convertTradeToCommtrade)).length) := by
  have valid : ∀ commTrade ∈ trades.map convertTradeToCommtrade,
      commTradeCodec.Valid commTrade := by
    intro commTrade member
    rcases List.mem_map.mp member with ⟨trade, memberTrade, rfl⟩
    exact valid_convertTradeToCommtrade (ints trade memberTrade)
  have back : (trades.map convertTradeToCommtrade).map convertCommtradeToTrade = trades := by
    rw [List.map_map]
    exact List.map_id trades
  rw [dispatch, code_message, orOutside_some_bind, if_neg (by decide), if_pos rfl,
    processTradeResult, getElems_message _ _ valid (by rwa [List.length_map]), Option.map_some,
    orOutside_some_bind, back]

theorem dispatch_acks {acks : List OrderAck} (ints : ∀ ack ∈ acks, IntAck ack)
    (countable : acks.length < 2 ^ 32) :
    dispatch (message orderAckCodec ORDER_ACK_MSG acks) =
      .ok (.acks acks (message orderAckCodec ORDER_ACK_MSG acks).length) := by
  rw [dispatch, code_message, orOutside_some_bind, if_pos rfl, processOrderAck,
    getElems_message _ _ (fun ack member => (ints ack member).valid) countable,
    orOutside_some_bind]

/-- A message of orders is refused by the trade receiver. -/
theorem dispatch_orders (objects : List OrderObject) :
    dispatch (message orderCodec ORDER_MSG objects) = .error .wrongMessageCode := by
  rw [dispatch, code_message, orOutside_some_bind, if_neg (by decide), if_neg (by decide)]

/-! ## The messages of the senders -/

theorem putTrade_eq (trade : Trade UInt64) :
    putTrade trade = message commTradeCodec TRADE_MSG [convertTradeToCommtrade trade] := by
  have single : commTradeCodec.encodeAll [convertTradeToCommtrade trade] =
      commTradeCodec.encode (convertTradeToCommtrade trade) := List.append_nil _
  rw [putTrade, message, single, List.append_assoc]
  rfl

theorem putOrderAck_eq (ack : OrderAck) :
    putOrderAck ack = message orderAckCodec ORDER_ACK_MSG [ack] := by
  have single : orderAckCodec.encodeAll [ack] = orderAckCodec.encode ack := List.append_nil _
  rw [putOrderAck, message, single, List.append_assoc]
  rfl

/-- The loop appends the first order it is given and stops. -/
theorem pollOrders_first (empty : Nat) (object : OrderObject)
    (later : List (Option OrderObject)) (orderMsg : List UInt8) :
    pollOrders (List.replicate empty none ++ some object :: later) orderMsg 0 =
      some (orderMsg ++ orderCodec.encode object, 1) := by
  induction empty with
  | zero =>
      cases later with
      | nil => rfl
      | cons polled later => rfl
  | succ empty inductionHypothesis => exact inductionHypothesis

/-- The order sender sends a message of one order, with its number patched in. -/
theorem orderMessage_eq (empty : Nat) (object : OrderObject)
    (later : List (Option OrderObject)) :
    orderMessage (List.replicate empty none ++ some object :: later) =
      some (message orderCodec ORDER_MSG [object]) := by
  have single : orderCodec.encodeAll [object] = orderCodec.encode object := List.append_nil _
  have patched := @memcpy_append (FixedWidth.word32.encode ORDER_MSG) (FixedWidth.word32.encode 0)
    (FixedWidth.word32.encode 1) (orderCodec.encode object) rfl
  rw [orderMessage, pollOrders_first, Option.bind_eq_bind, Option.bind_some, List.append_assoc,
    message, single]
  exact patched

/-- What is sent for one order, trade or acknowledgement is read back as that one
value by its own handler and refused by the other receiver, and a message of any
countable number of elements is read back as these elements, each time to the end
of the message. -/
theorem wire_round_trip :
    (∀ (empty : Nat) (object : OrderObject) (later : List (Option OrderObject)),
      IntOrder object.order → ∃ msg,
        orderMessage (List.replicate empty none ++ some object :: later) = some msg ∧
          receiveOrders msg = .ok ([object.order], msg.length) ∧
          dispatch msg = .error .wrongMessageCode) ∧
    (∀ trade, IntTrade trade →
      dispatch (putTrade trade) = .ok (.trades [trade] (putTrade trade).length) ∧
        receiveOrders (putTrade trade) = .error .wrongMessageType) ∧
    (∀ ack, IntAck ack →
      dispatch (putOrderAck ack) = .ok (.acks [ack] (putOrderAck ack).length) ∧
        receiveOrders (putOrderAck ack) = .error .wrongMessageType) ∧
    (∀ objects : List OrderObject, (∀ object ∈ objects, IntOrder object.order) →
      objects.length < 2 ^ 32 →
        receiveOrders (message orderCodec ORDER_MSG objects) =
          .ok (objects.map OrderObject.order, (message orderCodec ORDER_MSG objects).length)) ∧
    (∀ trades : List (Trade UInt64), (∀ trade ∈ trades, IntTrade trade) →
      trades.length < 2 ^ 32 →
        dispatch (message commTradeCodec TRADE_MSG (trades.map convertTradeToCommtrade)) =
          .ok (.trades trades
            (message commTradeCodec TRADE_MSG (trades.map convertTradeToCommtrade)).length)) ∧
    ∀ acks : List OrderAck, (∀ ack ∈ acks, IntAck ack) → acks.length < 2 ^ 32 →
      dispatch (message orderAckCodec ORDER_ACK_MSG acks) =
        .ok (.acks acks (message orderAckCodec ORDER_ACK_MSG acks).length) := by
  have one : ([()] : List Unit).length < 2 ^ 32 := by norm_num
  constructor
  · intro empty object later ints
    use message orderCodec ORDER_MSG [object]
    constructor
    · exact orderMessage_eq empty object later
    · constructor
      · exact receiveOrders_message (List.forall_mem_singleton.mpr ints) one
      · exact dispatch_orders [object]
  constructor
  · intro trade ints
    rw [putTrade_eq]
    constructor
    · exact @dispatch_trades [trade] (List.forall_mem_singleton.mpr ints) one
    · exact receiveOrders_foreign _ (by decide) _
  constructor
  · intro ack ints
    rw [putOrderAck_eq]
    constructor
    · exact dispatch_acks (List.forall_mem_singleton.mpr ints) one
    · exact receiveOrders_foreign _ (by decide) _
  constructor
  · exact fun objects => receiveOrders_message
  constructor
  · exact fun trades => dispatch_trades
  · exact fun acks => dispatch_acks

/-- An acknowledgement on its way. -/
theorem wire_round_trip_ack :
    dispatch (putOrderAck ⟨3, 250⟩) = .ok (.acks [⟨3, 250⟩] 16) := by
  have ints : IntAck ⟨3, 250⟩ := ⟨by unfold Signed; decide, by unfold Signed; decide⟩
  exact (wire_round_trip.2.2.1 ⟨3, 250⟩ ints).1

/-! ## The trades of the receiver's tables -/

theorem decode_commTradeCodec {bytes : List UInt8} (length : bytes.length = 28) :
    commTradeCodec.decode bytes = CommTrade.ofBytes bytes := by
  have last : (bytes.drop 24).take 4 = bytes.drop 24 := by
    apply List.take_of_length_le
    rw [List.length_drop, length]
  simp only [CommTrade.ofBytes, field, last, List.drop_zero, commTradeCodec, FixedWidth.record,
    FixedWidth.pair, int4, FixedWidth.int, FixedWidth.word64, List.drop_drop, Nat.reduceAdd]

theorem getTrades_eq (msg : List UInt8) (cnt offset : Nat) :
    getTrades msg cnt offset =
      (readValues (getElemFromBuf commTradeCodec msg 0) cnt offset).map fun trades =>
        trades.1.map convertCommtradeToTrade := by
  have width : commTradeCodec.width = 28 := rfl
  induction cnt generalizing offset with
  | zero => rfl
  | succ cnt inductionHypothesis =>
      rw [getTrades, readValues, inductionHypothesis, getElemFromBuf, FixedWidth.readAt, width,
        Nat.zero_add]
      by_cases inside : offset + 28 ≤ msg.length
      · have length : ((msg.drop offset).take 28).length = 28 := by
          rw [List.length_take, List.length_drop]
          omega
        rw [if_pos inside, if_pos inside, Option.map_some, Option.bind_eq_bind, Option.bind_some,
          decode_commTradeCodec length, field]
        cases readValues (getElemFromBuf commTradeCodec msg 0) cnt (offset + 28) with
        | none => rfl
        | some trades => rfl
      · rw [if_neg inside, if_neg inside]
        rfl

/-- The trades with which the receiver updates its tables are those that
`process_trade_result` deserialises. -/
theorem tradesOfMsg_eq (msg : List UInt8) :
    tradesOfMsg msg = (processTradeResult msg).map Prod.fst := by
  rw [tradesOfMsg, processTradeResult, getElems, getElemFromBuf, FixedWidth.readAt, Nat.zero_add]
  by_cases header : 8 ≤ msg.length
  · have inside : 4 + FixedWidth.word32.width ≤ msg.length := header
    have length : ((msg.drop 4).take 4).length = 4 := by
      rw [List.length_take, List.length_drop]
      omega
    have count : (UInt32.ofNat (bytesNat ((msg.drop 4).take 4))).toNat =
        bytesNat ((msg.drop 4).take 4) := by
      apply UInt32.toNat_ofNat_of_lt
      have bound := bytesNat_lt ((msg.drop 4).take 4)
      rwa [length] at bound
    rw [if_pos header, if_pos inside, getTrades_eq, field, ← count, Option.map_some,
      Option.bind_eq_bind, Option.bind_some, Option.map_map]
    rfl
  · have outside : ¬ 4 + FixedWidth.word32.width ≤ msg.length := header
    rw [if_neg header, if_neg outside]
    rfl

end PpiwTrading.Messages
