import PpiwTrading.Trader.TradeLog

/-!
# Orders, trades and acknowledgements in memory

The records are sent and stored as their objects lie in memory.  An `Order` has
its price at a multiple of eight and four bytes of padding at its end, a `Trade`
and a `CommTrade` are packed, and an `OrderAck` has no gaps.

`from_str` adds its offset to the pointer it passes on and passes the offset on
as well, so it reads at twice the offset.
-/

namespace PpiwTrading.Messages

open PpiwTrading.Bytes PpiwTrading.Trader

/-! ## Images -/

/-- An `Order` as it lies in memory; the content of its padding is not
determined by its members. -/
structure OrderObject where
  order : Order UInt64
  padding : UInt32
  deriving DecidableEq, Repr

/-- The `int` of the records. -/
def int4 : FixedWidth Int :=
  FixedWidth.int 4 (Nat.zero_lt_succ 3)

/-- An `Order`: four integers, the price, the volume and the padding. -/
def orderCodec : FixedWidth OrderObject :=
  (int4.pair (int4.pair (int4.pair (int4.pair (FixedWidth.word64.pair (int4.pair
    FixedWidth.word32)))))).record
    (fun object => (object.order.stkCode, object.order.orderId, object.order.direction,
      object.order.type, object.order.price, object.order.volume, object.padding))
    (fun (stkCode, orderId, direction, type, price, volume, padding) =>
      ⟨⟨stkCode, orderId, direction, type, price, volume⟩, padding⟩)
    fun _ => rfl

/-- A `CommTrade`, packed. -/
def commTradeCodec : FixedWidth CommTrade :=
  (int4.pair (int4.pair (int4.pair (int4.pair (FixedWidth.word64.pair int4))))).record
    (fun trade =>
      (trade.stkCode, trade.bidId, trade.askId, trade.dummy, trade.price, trade.volume))
    (fun (stkCode, bidId, askId, dummy, price, volume) =>
      ⟨stkCode, bidId, askId, dummy, price, volume⟩)
    fun _ => rfl

/-- An `OrderAck`. -/
def orderAckCodec : FixedWidth OrderAck :=
  (int4.pair int4).record (fun ack => (ack.stkCode, ack.orderId))
    (fun (stkCode, orderId) => ⟨stkCode, orderId⟩) fun _ => rfl

/-- The sizes of the C++ types, with the padding of `Order` and without padding in
the packed `CommTrade`. -/
example :
    orderCodec.width = 32 ∧ tradeCodec.width = 24 ∧ commTradeCodec.width = 28 ∧
      orderAckCodec.width = 8 := by
  decide

/-- All integers of an order are `int` values. -/
structure IntOrder (order : Order UInt64) : Prop where
  stkCode : Signed 4 order.stkCode
  orderId : Signed 4 order.orderId
  direction : Signed 4 order.direction
  type : Signed 4 order.type
  volume : Signed 4 order.volume

/-- Both integers of an acknowledgement are `int` values. -/
structure IntAck (ack : OrderAck) : Prop where
  stkCode : Signed 4 ack.stkCode
  orderId : Signed 4 ack.orderId

theorem IntOrder.valid {object : OrderObject} (ints : IntOrder object.order) :
    orderCodec.Valid object :=
  ⟨ints.stkCode, ints.orderId, ints.direction, ints.type, trivial, ints.volume, trivial⟩

theorem IntAck.valid {ack : OrderAck} (ints : IntAck ack) : orderAckCodec.Valid ack :=
  ⟨ints.stkCode, ints.orderId⟩

/-! ## Appending and reading -/

section Reading

variable {α β : Type} (codec : FixedWidth α)

/-- `get_elem_from_buf` with a pointer to position `buf` of the string `str`;
`none` when it reads outside the string. -/
def getElemFromBuf (str : List UInt8) (buf offset : Nat) : Option (α × Nat) :=
  (codec.readAt str (buf + offset)).map fun elem => (elem, offset + codec.width)

/-- `append_to_str` of each of the records. -/
def appendToStr (value : α) (str : List UInt8) : List UInt8 :=
  str ++ codec.encode value

/-- `from_str` of each of the records: the pointer it passes on is
`str.c_str() + offset`. -/
def fromStr (str : List UInt8) (offset : Nat) : Option (α × Nat) :=
  getElemFromBuf codec str offset offset

/-- Readings one after another with one shared offset. -/
def readValues (read : Nat → Option (α × Nat)) : Nat → Nat → Option (List α × Nat)
  | 0, offset => some ([], offset)
  | count + 1, offset => do
      let first ← read offset
      let others ← readValues read count first.2
      some (first.1 :: others.1, others.2)

end Reading

def OrderObject.appendToStr : OrderObject → List UInt8 → List UInt8 :=
  Messages.appendToStr orderCodec

def OrderObject.fromStr : List UInt8 → Nat → Option (OrderObject × Nat) :=
  Messages.fromStr orderCodec

def Trade.appendToStr : Trade UInt64 → List UInt8 → List UInt8 :=
  Messages.appendToStr tradeCodec

def Trade.fromStr : List UInt8 → Nat → Option (Trade UInt64 × Nat) :=
  Messages.fromStr tradeCodec

def OrderAck.appendToStr : OrderAck → List UInt8 → List UInt8 :=
  Messages.appendToStr orderAckCodec

def OrderAck.fromStr : List UInt8 → Nat → Option (OrderAck × Nat) :=
  Messages.fromStr orderAckCodec

/-- Values appended to a string one after another. -/
def appendAll {α : Type} (append : α → List UInt8 → List UInt8) (values : List α)
    (str : List UInt8) : List UInt8 :=
  values.foldl (fun str value => append value str) str

/-- Values that are appended to a string are read back from it, all readings stay
inside the string, and the offset ends at its length.  What counts of a value is
its `view`. -/
def RoundTrip {α β : Type} (append : α → List UInt8 → List UInt8)
    (read : List UInt8 → Nat → Option (α × Nat)) (view : α → β) (initial : List UInt8)
    (values : List α) : Prop :=
  ∃ found, readValues (read (appendAll append values initial)) values.length initial.length =
    some (found, (appendAll append values initial).length) ∧ found.map view = values.map view

/-! ## When values are read back -/

section RoundTrips

variable {α β : Type} {codec : FixedWidth α}

theorem appendAll_eq (values : List α) (str : List UInt8) :
    appendAll (appendToStr codec) values str = str ++ codec.encodeAll values := by
  induction values generalizing str with
  | nil => exact (List.append_nil str).symm
  | cons value values inductionHypothesis =>
      have split : codec.encodeAll (value :: values) =
          codec.encode value ++ codec.encodeAll values := List.flatMap_cons
      rw [split, ← List.append_assoc]
      exact inductionHypothesis _

/-- Readings without a shifted pointer give the values back. -/
theorem readValues_encodeAll {values : List α} (valid : ∀ value ∈ values, codec.Valid value)
    (front back : List UInt8) :
    readValues (getElemFromBuf codec (front ++ (codec.encodeAll values ++ back)) 0) values.length
        front.length =
      some (values, front.length + codec.width * values.length) := by
  induction values generalizing front with
  | nil => rfl
  | cons value values inductionHypothesis =>
      have split : codec.encodeAll (value :: values) =
          codec.encode value ++ codec.encodeAll values := List.flatMap_cons
      have first : getElemFromBuf codec
          (front ++ (codec.encodeAll (value :: values) ++ back)) 0 front.length =
            some (value, front.length + codec.width) := by
        rw [getElemFromBuf, Nat.zero_add, split, List.append_assoc,
          codec.readAt_append (valid value List.mem_cons_self)]
        rfl
      have rest := inductionHypothesis
        (fun other member => valid other (List.mem_cons_of_mem value member))
        (front ++ codec.encode value)
      rw [List.length_append, codec.length_encode, List.append_assoc, ← List.append_assoc
        (codec.encode value), ← split] at rest
      rw [List.length_cons, readValues, first, Option.bind_eq_bind, Option.bind_some, rest]
      simp only [Option.bind_eq_bind, Option.bind_some, Option.some.injEq, Prod.mk.injEq, true_and]
      ring

/-- The last of some readings with `from_str` ends inside the string. -/
theorem readValues_fromStr_inside {str : List UInt8} {count offset : Nat}
    {result : List α × Nat}
    (read : readValues (fromStr codec str) (count + 1) offset = some result) :
    2 * (offset + count * codec.width) + codec.width ≤ str.length := by
  induction count generalizing offset result with
  | zero =>
      rcases Option.bind_eq_some_iff.mp read with ⟨first, found, -⟩
      rcases Option.map_eq_some_iff.mp found with ⟨value, at_position, -⟩
      unfold FixedWidth.readAt at at_position
      split at at_position
      · omega
      · cases at_position
  | succ count inductionHypothesis =>
      rcases Option.bind_eq_some_iff.mp read with ⟨first, found, continued⟩
      rcases Option.bind_eq_some_iff.mp continued with ⟨others, readOthers, -⟩
      rcases Option.map_eq_some_iff.mp found with ⟨value, -, rfl⟩
      have last := inductionHypothesis readOthers
      calc
        2 * (offset + (count + 1) * codec.width) + codec.width =
            2 * (offset + codec.width + count * codec.width) + codec.width := by ring
        _ ≤ str.length := last

/-- Values are read back with `from_str` exactly when there are none, or there
is one and nothing stands before it. -/
theorem roundTrip_iff (view : α → β) (initial : List UInt8) {values : List α}
    (valid : ∀ value ∈ values, codec.Valid value) :
    RoundTrip (appendToStr codec) (fromStr codec) view initial values ↔
      values = [] ∨ initial = [] ∧ values.length = 1 := by
  unfold RoundTrip
  rw [appendAll_eq]
  constructor
  · rintro ⟨found, read, -⟩
    cases values with
    | nil => exact Or.inl rfl
    | cons value values =>
        have inside := readValues_fromStr_inside read
        rw [List.length_append, codec.length_encodeAll, List.length_cons] at inside
        have positive := codec.positive
        have shift : initial.length + values.length * codec.width = 0 := by
          nlinarith
        rcases Nat.add_eq_zero_iff.mp shift with ⟨noPrefix, noOthers⟩
        apply Or.inr
        constructor
        · exact List.eq_nil_of_length_eq_zero noPrefix
        · rw [List.length_cons, (Nat.mul_eq_zero.mp noOthers).resolve_right positive.ne']
  · rintro (rfl | ⟨rfl, single⟩)
    · exact ⟨[], by simp [readValues], rfl⟩
    · rcases List.length_eq_one_iff.mp single with ⟨value, rfl⟩
      have read := readValues_encodeAll valid [] []
      use [value]
      constructor
      · rw [List.append_nil, List.nil_append] at read
        rw [List.nil_append, codec.length_encodeAll]
        simpa [readValues, fromStr] using read
      · rfl

end RoundTrips

/-- Orders, trades and acknowledgements that are appended to a string are read
back with `from_str` exactly when there are none, or there is one and the string
was empty before it. -/
theorem from_str_round_trip (initial : List UInt8) (orders : List OrderObject)
    (trades : List (Trade UInt64)) (acks : List OrderAck)
    (intOrders : ∀ object ∈ orders, IntOrder object.order)
    (intTrades : ∀ trade ∈ trades, IntTrade trade) (intAcks : ∀ ack ∈ acks, IntAck ack) :
    (RoundTrip OrderObject.appendToStr OrderObject.fromStr OrderObject.order initial orders ↔
      orders = [] ∨ initial = [] ∧ orders.length = 1) ∧
    (RoundTrip Trade.appendToStr Trade.fromStr id initial trades ↔
      trades = [] ∨ initial = [] ∧ trades.length = 1) ∧
    (RoundTrip OrderAck.appendToStr OrderAck.fromStr id initial acks ↔
      acks = [] ∨ initial = [] ∧ acks.length = 1) := by
  constructor
  · exact roundTrip_iff _ initial fun object member => (intOrders object member).valid
  · constructor
    · exact roundTrip_iff _ initial intTrades
    · exact roundTrip_iff _ initial fun ack member => (intAcks ack member).valid

/-- One acknowledgement in an empty string. -/
theorem from_str_round_trip_single :
    RoundTrip OrderAck.appendToStr OrderAck.fromStr id [] [⟨1, 7⟩] := by
  have trips := from_str_round_trip [] [] [] [⟨1, 7⟩] (by simp) (by simp) (by
    intro ack member
    obtain rfl := List.mem_singleton.mp member
    exact ⟨by unfold Signed; decide, by unfold Signed; decide⟩)
  exact trips.2.2.mpr (Or.inr ⟨rfl, rfl⟩)

/-- The second of two acknowledgements is read beyond the end of the string. -/
theorem second_ack_read_outside :
    ¬ RoundTrip OrderAck.appendToStr OrderAck.fromStr id [] [⟨1, 7⟩, ⟨1, 8⟩] := by
  rintro ⟨found, read, -⟩
  have outside : readValues (OrderAck.fromStr (appendAll OrderAck.appendToStr [⟨1, 7⟩, ⟨1, 8⟩] []))
      2 0 = none := by decide
  cases outside.symm.trans read

end PpiwTrading.Messages
