import PpiwTrading.Bytes.FixedWidth
import PpiwTrading.Sequence.Fold
import PpiwTrading.Trader.Process

/-!
# The trade files of a trader

The receiver unpacks the trades of a message, collects them in one buffer for
each stock and appends a buffer to the file of its stock when it holds
`TRADE_BUF_THRESHOLD` trades or when it is flushed.  The records of a message,
of the file and of the separate reader are packed images: `int` fields take four
bytes, the price is the bit pattern of a `double` and takes eight.

Writes are assumed to take all their bytes, and a file is the list of bytes that
have been written to it.
-/

namespace PpiwTrading.Trader

open PpiwTrading.Bytes PpiwTrading.Sequence

/-! ## Packed records -/

/-- A member of a packed record. -/
def field (bytes : List UInt8) (offset width : Nat) : List UInt8 :=
  (bytes.drop offset).take width

theorem field_append_left {first : List UInt8} (rest : List UInt8) {width : Nat}
    (length : first.length = width) : field (first ++ rest) 0 width = first :=
  List.take_left' length

theorem field_append_right {first : List UInt8} (rest : List UInt8) {start : Nat}
    (length : first.length = start) (offset width : Nat) :
    field (first ++ rest) (start + offset) width = field rest offset width := by
  rw [field, field, ← List.drop_drop, List.drop_left' length]

/-- A trade as a message carries it. -/
structure CommTrade where
  stkCode : Int
  bidId : Int
  askId : Int
  dummy : Int
  price : UInt64
  volume : Int
  deriving DecidableEq, Repr

/-- `*((CommTrade*)buf)`, 28 bytes. -/
def CommTrade.ofBytes (bytes : List UInt8) : CommTrade where
  stkCode := bytesInt (field bytes 0 4)
  bidId := bytesInt (field bytes 4 4)
  askId := bytesInt (field bytes 8 4)
  dummy := bytesInt (field bytes 12 4)
  price := UInt64.ofNat (bytesNat (field bytes 16 8))
  volume := bytesInt (field bytes 24 4)

def convertCommtradeToTrade (commTrade : CommTrade) : Trade UInt64 where
  stkCode := commTrade.stkCode
  bidId := commTrade.bidId
  askId := commTrade.askId
  price := commTrade.price
  volume := commTrade.volume

/-- The packed image of a `Trade`. -/
def tradeBytes (trade : Trade UInt64) : List UInt8 :=
  intBytes 4 trade.stkCode ++ (intBytes 4 trade.bidId ++ (intBytes 4 trade.askId ++
    (natBytes 8 trade.price.toNat ++ intBytes 4 trade.volume)))

/-- `*reinterpret_cast<Trade*>(trade_buf)`. -/
def bytesTrade (bytes : List UInt8) : Trade UInt64 where
  stkCode := bytesInt (field bytes 0 4)
  bidId := bytesInt (field bytes 4 4)
  askId := bytesInt (field bytes 8 4)
  price := UInt64.ofNat (bytesNat (field bytes 12 8))
  volume := bytesInt (field bytes 20 4)

/-- All integers of a trade are `int` values. -/
structure IntTrade (trade : Trade UInt64) : Prop where
  stkCode : Signed 4 trade.stkCode
  bidId : Signed 4 trade.bidId
  askId : Signed 4 trade.askId
  volume : Signed 4 trade.volume

theorem bytesTrade_tradeBytes {trade : Trade UInt64} (ints : IntTrade trade) :
    bytesTrade (tradeBytes trade) = trade := by
  have stkCode : field (tradeBytes trade) 0 4 = intBytes 4 trade.stkCode :=
    field_append_left _ (by simp)
  have bidId : field (tradeBytes trade) (4 + 0) 4 = intBytes 4 trade.bidId := by
    rw [tradeBytes, field_append_right _ (by simp), field_append_left _ (by simp)]
  have askId : field (tradeBytes trade) (4 + (4 + 0)) 4 = intBytes 4 trade.askId := by
    rw [tradeBytes, field_append_right _ (by simp), field_append_right _ (by simp),
      field_append_left _ (by simp)]
  have price : field (tradeBytes trade) (4 + (4 + (4 + 0))) 8 =
      natBytes 8 trade.price.toNat := by
    rw [tradeBytes, field_append_right _ (by simp), field_append_right _ (by simp),
      field_append_right _ (by simp), field_append_left _ (by simp)]
  have volume : field (tradeBytes trade) (4 + (4 + (4 + (8 + 0)))) 4 =
      intBytes 4 trade.volume := by
    rw [tradeBytes, field_append_right _ (by simp), field_append_right _ (by simp),
      field_append_right _ (by simp), field_append_right _ (by simp), field,
      List.drop_zero, List.take_of_length_le (by simp)]
  simp only [Nat.add_zero, Nat.reduceAdd] at bidId askId price volume
  have pattern : UInt64.ofNat (trade.price.toNat % 256 ^ 8) = trade.price := by
    rw [Nat.mod_eq_of_lt (by simpa using trade.price.toNat_lt), UInt64.ofNat_toNat]
  rw [bytesTrade, stkCode, bidId, askId, price, volume, bytesInt_intBytes ints.stkCode,
    bytesInt_intBytes ints.bidId, bytesInt_intBytes ints.askId, bytesInt_intBytes ints.volume,
    bytesNat_natBytes, pattern]

/-- The records of a trade file. -/
def tradeCodec : FixedWidth (Trade UInt64) where
  width := 24
  encode := tradeBytes
  decode := bytesTrade
  Valid := IntTrade
  positive := by decide
  length_encode := by
    intro trade
    simp [tradeBytes]
  decode_encode := fun _ ints => bytesTrade_tradeBytes ints

/-- `read_trade_from_file`. -/
def readTradeFromFile (file : List UInt8) : List (Trade UInt64) :=
  tradeCodec.readAll (file.length + 1) file

theorem readTradeFromFile_encodeAll {trades : List (Trade UInt64)}
    (ints : ∀ trade ∈ trades, IntTrade trade) :
    readTradeFromFile (tradeCodec.encodeAll trades) = trades := by
  apply tradeCodec.readAll_encodeAll ints
  have width : tradeCodec.width = 24 := rfl
  rw [tradeCodec.length_encodeAll, width]
  omega

/-! ## Messages -/

/-- The loop that reads `cnt` records from a message; `none` when it reads past
the end of the message. -/
def getTrades (msg : List UInt8) : Nat → Nat → Option (List (Trade UInt64))
  | 0, _ => some []
  | cnt + 1, offset =>
      if offset + 28 ≤ msg.length then
        (getTrades msg cnt (offset + 28)).map fun trades =>
          convertCommtradeToTrade (CommTrade.ofBytes (field msg offset 28)) :: trades
      else none

/-- The trades of a message: the code, the number of records, the records. -/
def tradesOfMsg (msg : List UInt8) : Option (List (Trade UInt64)) :=
  if 8 ≤ msg.length then getTrades msg (bytesNat (field msg 4 4)) 8 else none

theorem intTrade_ofBytes {bytes : List UInt8} (length : bytes.length = 28) :
    IntTrade (convertCommtradeToTrade (CommTrade.ofBytes bytes)) := by
  have member : ∀ offset, offset + 4 ≤ 28 → Signed 4 (bytesInt (field bytes offset 4)) := by
    intro offset inside
    have fieldLength : (field bytes offset 4).length = 4 := by
      rw [field, List.length_take, List.length_drop]
      omega
    simpa [fieldLength] using signed_bytesInt (field bytes offset 4)
  exact ⟨member 0 (by omega), member 4 (by omega), member 8 (by omega), member 24 (by omega)⟩

/-- The trades of a message are made of `int` values. -/
theorem intTrade_of_getTrades {msg : List UInt8} {cnt offset : Nat}
    {trades : List (Trade UInt64)} (decoded : getTrades msg cnt offset = some trades) :
    ∀ trade ∈ trades, IntTrade trade := by
  induction cnt generalizing offset trades with
  | zero =>
      cases decoded
      simp
  | succ cnt inductionHypothesis =>
      rw [getTrades] at decoded
      split at decoded
      · rename_i inside
        rcases Option.map_eq_some_iff.mp decoded with ⟨rest, decodedRest, rfl⟩
        intro trade member
        rcases List.mem_cons.mp member with rfl | later
        · apply intTrade_ofBytes
          rw [field, List.length_take, List.length_drop]
          omega
        · exact inductionHypothesis decodedRest trade later
      · contradiction

theorem intTrade_of_tradesOfMsg {msg : List UInt8} {trades : List (Trade UInt64)}
    (decoded : tradesOfMsg msg = some trades) : ∀ trade ∈ trades, IntTrade trade := by
  rw [tradesOfMsg] at decoded
  split at decoded
  · exact intTrade_of_getTrades decoded
  · contradiction

/-! ## The receiver -/

/-- `TRADE_BUF_THRESHOLD`. -/
def tradeBufThreshold : Nat := 100

/-- The tables of `TraderTradeReceiver`, with the content of the file of each
stock in place of its descriptor. -/
structure TradeReceiver where
  info : SharedTradeInfo
  tradeFile : Int → List UInt8
  tradeBuffer : Int → List (Trade UInt64)
  tradeIdxs : Int → Int

namespace TradeReceiver

/-- The constructor truncates the files and counts trades from 1. -/
def new (hookRows : List HookRow) : TradeReceiver where
  info := SharedTradeInfo.new (loadHook hookRows).2
  tradeFile := fun _ => []
  tradeBuffer := fun _ => []
  tradeIdxs := fun _ => 1

/-- Append the buffer of a stock to its file and clear it. -/
def writeBuffer (receiver : TradeReceiver) (stkCode : Int) : TradeReceiver :=
  { receiver with
    tradeFile := Function.update receiver.tradeFile stkCode
      (receiver.tradeFile stkCode ++ tradeCodec.encodeAll (receiver.tradeBuffer stkCode))
    tradeBuffer := Function.update receiver.tradeBuffer stkCode [] }

/-- One turn of the second loop of `process_trade_result`; `none` when the
assertion of `update_if_hooked` fails. -/
def pushTrade (receiver : TradeReceiver) (trade : Trade UInt64) : Option TradeReceiver := do
  let info ← (receiver.info.updateIfHooked trade.stkCode (receiver.tradeIdxs trade.stkCode)
    trade.volume).toOption
  let pushed : TradeReceiver :=
    { receiver with
      info := info
      tradeIdxs := Function.update receiver.tradeIdxs trade.stkCode
        (receiver.tradeIdxs trade.stkCode + 1)
      tradeBuffer := Function.update receiver.tradeBuffer trade.stkCode
        (receiver.tradeBuffer trade.stkCode ++ [trade]) }
  if (pushed.tradeBuffer trade.stkCode).length ≥ tradeBufThreshold then
    some (pushed.writeBuffer trade.stkCode)
  else some pushed

/-- The second loop of `process_trade_result`. -/
def pushTrades (receiver : TradeReceiver) (trades : List (Trade UInt64)) : Option TradeReceiver :=
  trades.foldlM pushTrade receiver

/-- `process_trade_result`. -/
def processTradeResult (receiver : TradeReceiver) (msg : List UInt8) : Option TradeReceiver := do
  let trades ← tradesOfMsg msg
  receiver.pushTrades trades

/-- `flush`, with the order in which it meets the buffers. -/
def flush (receiver : TradeReceiver) (stkCodes : List Int) : TradeReceiver :=
  stkCodes.foldl writeBuffer receiver

end TradeReceiver

/-- What happens to a receiver. -/
inductive ReceiverEvent
  | tradeMsg (msg : List UInt8)
  | flush (stkCodes : List Int)

/-- Carry out one event. -/
def TradeReceiver.handle (receiver : TradeReceiver) : ReceiverEvent → Option TradeReceiver
  | .tradeMsg msg => receiver.processTradeResult msg
  | .flush stkCodes => some (receiver.flush stkCodes)

/-- Carry out a sequence of events. -/
def TradeReceiver.run (receiver : TradeReceiver) (events : List ReceiverEvent) :
    Option TradeReceiver :=
  events.foldlM TradeReceiver.handle receiver

/-- The stock codes that have a buffer. -/
def stkCodes (config : Config) : List Int :=
  (List.range config.stockNum).map fun (i : Nat) => (i : Int) + 1

/-- A message holds the records it announces, all of listed stocks; a flush meets
every buffer once, in any order. -/
def ReceiverEvent.WellFormed (config : Config) : ReceiverEvent → Prop
  | .tradeMsg msg => ∃ trades, tradesOfMsg msg = some trades ∧
      ∀ trade ∈ trades, config.Listed trade.stkCode
  | .flush codes => codes.Perm (stkCodes config)

/-- The trades that have arrived, in order. -/
def receivedTrades (events : List ReceiverEvent) : List (Trade UInt64) :=
  events.flatMap fun
    | .tradeMsg msg => (tradesOfMsg msg).getD []
    | .flush _ => []

/-- The trades of one stock. -/
def tradesOfStock (stkCode : Int) (trades : List (Trade UInt64)) : List (Trade UInt64) :=
  trades.filter fun trade => decide (trade.stkCode = stkCode)

/-! ## The invariant -/

/-- The receiver has got the trades `log`: what is in the file of a stock and in
its buffer are the trades of the stock. -/
structure Logged (log : List (Trade UInt64)) (receiver : TradeReceiver) : Prop where
  complete : ∀ s, receiver.tradeFile s ++ tradeCodec.encodeAll (receiver.tradeBuffer s) =
    tradeCodec.encodeAll (tradesOfStock s log)
  bounded : ∀ s, (receiver.tradeBuffer s).length < tradeBufThreshold
  counted : ∀ s, receiver.tradeIdxs s = (tradesOfStock s log).length + 1
  unseen : ∀ s k v, receiver.tradeIdxs s ≤ k → receiver.info.hookedTrade s k = some v → v = -1

theorem tradesOfStock_concat_self (log : List (Trade UInt64)) (trade : Trade UInt64) :
    tradesOfStock trade.stkCode (log ++ [trade]) = tradesOfStock trade.stkCode log ++ [trade] := by
  simp [tradesOfStock]

theorem tradesOfStock_concat_of_ne (log : List (Trade UInt64)) {trade : Trade UInt64} {s : Int}
    (other : s ≠ trade.stkCode) : tradesOfStock s (log ++ [trade]) = tradesOfStock s log := by
  simp [tradesOfStock, Ne.symm other]

theorem Logged.new (hookRows : List HookRow) : Logged [] (TradeReceiver.new hookRows) where
  complete := fun _ => rfl
  bounded := fun _ => by simp [TradeReceiver.new, tradeBufThreshold]
  counted := fun _ => rfl
  unseen := fun _ _ _ _ stored => loadHook_not_ready hookRows stored

/-- Writing a buffer keeps the trades and makes up for a buffer that was full. -/
theorem Logged.of_writeBuffer {log : List (Trade UInt64)} {receiver : TradeReceiver}
    {stkCode : Int}
    (complete : ∀ s, receiver.tradeFile s ++ tradeCodec.encodeAll (receiver.tradeBuffer s) =
      tradeCodec.encodeAll (tradesOfStock s log))
    (bounded : ∀ s, s ≠ stkCode → (receiver.tradeBuffer s).length < tradeBufThreshold)
    (counted : ∀ s, receiver.tradeIdxs s = (tradesOfStock s log).length + 1)
    (unseen : ∀ s k v, receiver.tradeIdxs s ≤ k →
      receiver.info.hookedTrade s k = some v → v = -1) :
    Logged log (receiver.writeBuffer stkCode) where
  complete := by
    intro s
    by_cases same : s = stkCode
    · subst same
      simpa [TradeReceiver.writeBuffer] using complete s
    · simpa [TradeReceiver.writeBuffer, Function.update_of_ne same] using complete s
  bounded := by
    intro s
    by_cases same : s = stkCode
    · subst same
      simp [TradeReceiver.writeBuffer, tradeBufThreshold]
    · simpa [TradeReceiver.writeBuffer, Function.update_of_ne same] using bounded s same
  counted := counted
  unseen := unseen

/-- A hook that has not been reached can be updated, and later hooks stay. -/
theorem Logged.updateIfHooked {log : List (Trade UInt64)} {receiver : TradeReceiver}
    (logged : Logged log receiver) (stkCode volume : Int) :
    ∃ info, receiver.info.updateIfHooked stkCode (receiver.tradeIdxs stkCode) volume = .ok info ∧
      ∀ s k, ¬ (s = stkCode ∧ k = receiver.tradeIdxs stkCode) →
        info.hookedTrade s k = receiver.info.hookedTrade s k := by
  rw [SharedTradeInfo.updateIfHooked]
  cases stored : receiver.info.hookedTrade stkCode (receiver.tradeIdxs stkCode) with
  | none => exact ⟨_, rfl, fun _ _ _ => rfl⟩
  | some v =>
      have untouched := logged.unseen stkCode _ v (le_refl _) stored
      refine ⟨_, if_pos untouched, ?_⟩
      intro s k other
      exact if_neg other

/-- Processing one trade of a message. -/
theorem Logged.pushTrade {log : List (Trade UInt64)} {receiver : TradeReceiver}
    (logged : Logged log receiver) (trade : Trade UInt64) :
    ∃ receiver', receiver.pushTrade trade = some receiver' ∧
      Logged (log ++ [trade]) receiver' := by
  rcases logged.updateIfHooked trade.stkCode trade.volume with ⟨info, updated, others⟩
  have unseen : ∀ s k v,
      Function.update receiver.tradeIdxs trade.stkCode (receiver.tradeIdxs trade.stkCode + 1) s ≤
        k → info.hookedTrade s k = some v → v = -1 := by
    intro s k v later stored
    by_cases same : s = trade.stkCode
    · subst same
      rw [Function.update_self] at later
      rw [others _ _ (by omega)] at stored
      exact logged.unseen _ k v (by omega) stored
    · rw [Function.update_of_ne same] at later
      rw [others _ _ (by tauto)] at stored
      exact logged.unseen s k v later stored
  have counted : ∀ s,
      Function.update receiver.tradeIdxs trade.stkCode (receiver.tradeIdxs trade.stkCode + 1) s =
        (tradesOfStock s (log ++ [trade])).length + 1 := by
    intro s
    by_cases same : s = trade.stkCode
    · subst same
      rw [Function.update_self, logged.counted, tradesOfStock_concat_self, List.length_append]
      rfl
    · rw [Function.update_of_ne same, logged.counted, tradesOfStock_concat_of_ne log same]
  have complete : ∀ s, receiver.tradeFile s ++ tradeCodec.encodeAll
      (Function.update receiver.tradeBuffer trade.stkCode
        (receiver.tradeBuffer trade.stkCode ++ [trade]) s) =
      tradeCodec.encodeAll (tradesOfStock s (log ++ [trade])) := by
    intro s
    by_cases same : s = trade.stkCode
    · subst same
      rw [Function.update_self, tradesOfStock_concat_self, tradeCodec.encodeAll_append,
        tradeCodec.encodeAll_append, ← List.append_assoc, logged.complete]
    · rw [Function.update_of_ne same, tradesOfStock_concat_of_ne log same, logged.complete]
  have otherBuffers : ∀ s, s ≠ trade.stkCode →
      (Function.update receiver.tradeBuffer trade.stkCode
        (receiver.tradeBuffer trade.stkCode ++ [trade]) s).length < tradeBufThreshold := by
    intro s different
    rw [Function.update_of_ne different]
    exact logged.bounded s
  rw [TradeReceiver.pushTrade, updated]
  by_cases full : tradeBufThreshold ≤
      (Function.update receiver.tradeBuffer trade.stkCode
        (receiver.tradeBuffer trade.stkCode ++ [trade]) trade.stkCode).length
  · exact ⟨_, if_pos full, Logged.of_writeBuffer complete otherBuffers counted unseen⟩
  · refine ⟨_, if_neg full, ⟨complete, ?_, counted, unseen⟩⟩
    intro s
    by_cases same : s = trade.stkCode
    · subst same
      exact Nat.lt_of_not_le full
    · exact otherBuffers s same

/-- To the tables that the process of a trader keeps, a trade does the same as in
the process. -/
theorem TradeReceiver.pushTrade_processTradeResult {receiver receiver' : TradeReceiver}
    {trader : TraderState UInt64} {trade : Trade UInt64} (sameInfo : trader.info = receiver.info)
    (sameIdxs : trader.tradeIdxs = receiver.tradeIdxs)
    (pushed : receiver.pushTrade trade = some receiver') :
    (trader.processTradeResult trade).info = receiver'.info ∧
      (trader.processTradeResult trade).tradeIdxs = receiver'.tradeIdxs := by
  rw [TradeReceiver.pushTrade] at pushed
  cases updated : receiver.info.updateIfHooked trade.stkCode (receiver.tradeIdxs trade.stkCode)
      trade.volume with
  | error fault =>
      rw [updated] at pushed
      contradiction
  | ok info =>
      rw [updated] at pushed
      simp only [TraderState.processTradeResult, sameInfo, sameIdxs, updated]
      simp only [Except.toOption, Option.bind_eq_bind, Option.bind_some] at pushed
      split at pushed
      · cases pushed
        exact ⟨rfl, rfl⟩
      · cases pushed
        exact ⟨rfl, rfl⟩

/-- Processing a list of trades. -/
theorem Logged.pushTrades {log : List (Trade UInt64)} {receiver : TradeReceiver}
    (logged : Logged log receiver) (trades : List (Trade UInt64)) :
    ∃ receiver', receiver.pushTrades trades = some receiver' ∧
      Logged (log ++ trades) receiver' :=
  foldlM_invariant (fun trade _ _ _ loggedBefore => loggedBefore.pushTrade trade) log logged

/-- A flush keeps the trades. -/
theorem Logged.flush {log : List (Trade UInt64)} {receiver : TradeReceiver}
    (logged : Logged log receiver) (codes : List Int) : Logged log (receiver.flush codes) := by
  induction codes generalizing receiver with
  | nil => exact logged
  | cons code codes inductionHypothesis =>
      apply inductionHypothesis
      exact Logged.of_writeBuffer logged.complete (fun s _ => logged.bounded s)
        logged.counted logged.unseen

/-- A flush leaves no trade in a buffer it has met. -/
theorem TradeReceiver.flush_tradeBuffer (receiver : TradeReceiver) {codes : List Int} {s : Int}
    (emptied : s ∈ codes ∨ receiver.tradeBuffer s = []) :
    (receiver.flush codes).tradeBuffer s = [] := by
  induction codes generalizing receiver with
  | nil => simpa [TradeReceiver.flush] using emptied
  | cons code codes inductionHypothesis =>
      apply inductionHypothesis (receiver.writeBuffer code)
      by_cases same : s = code
      · right
        rw [same]
        exact Function.update_self ..
      · rcases emptied with member | empty
        · exact Or.inl (List.mem_of_ne_of_mem same member)
        · right
          exact (Function.update_of_ne same ..).trans empty

/-- One event on the receiver. -/
theorem Logged.handle {config : Config} {log : List (Trade UInt64)} {receiver : TradeReceiver}
    {event : ReceiverEvent} (logged : Logged log receiver) (wellFormed : event.WellFormed config) :
    ∃ receiver', receiver.handle event = some receiver' ∧
      Logged (log ++ receivedTrades [event]) receiver' := by
  cases event with
  | tradeMsg msg =>
      rcases wellFormed with ⟨trades, decoded, -⟩
      rcases logged.pushTrades trades with ⟨next, pushed, loggedNext⟩
      refine ⟨next, ?_, ?_⟩
      · rw [TradeReceiver.handle, TradeReceiver.processTradeResult, decoded]
        exact pushed
      · simpa [receivedTrades, decoded] using loggedNext
  | flush codes =>
      refine ⟨_, rfl, ?_⟩
      simpa [receivedTrades] using logged.flush codes

theorem receivedTrades_append (first second : List ReceiverEvent) :
    receivedTrades (first ++ second) = receivedTrades first ++ receivedTrades second :=
  List.flatMap_append

/-- Every run of the receiver. -/
theorem Logged.run {config : Config} (hookRows : List HookRow) {events : List ReceiverEvent}
    (wellFormed : ∀ event ∈ events, event.WellFormed config) :
    ∃ receiver, (TradeReceiver.new hookRows).run events = some receiver ∧
      Logged (receivedTrades events) receiver := by
  have keeps : ∀ event ∈ events, ∀ before receiver, Logged (receivedTrades before) receiver →
      ∃ next, receiver.handle event = some next ∧
        Logged (receivedTrades (before ++ [event])) next := by
    intro event arrived before receiver logged
    rw [receivedTrades_append]
    exact logged.handle (wellFormed event arrived)
  exact foldlM_invariant keeps [] (Logged.new hookRows)

theorem mem_stkCodes {config : Config} {s : Int} (listed : config.Listed s) :
    s ∈ stkCodes config := by
  rcases listed with ⟨first, last⟩
  apply List.mem_map.mpr
  refine ⟨(s - 1).toNat, List.mem_range.mpr ?_, ?_⟩ <;> omega

/-- What a reader gets from the file of a stock whose buffer is empty. -/
theorem Logged.readTradeFromFile {log : List (Trade UInt64)} {receiver : TradeReceiver}
    (logged : Logged log receiver) (ints : ∀ trade ∈ log, IntTrade trade) {s : Int}
    (empty : receiver.tradeBuffer s = []) :
    readTradeFromFile (receiver.tradeFile s) = tradesOfStock s log := by
  have content := logged.complete s
  rw [empty, tradeCodec.encodeAll_nil, List.append_nil] at content
  rw [content]
  apply readTradeFromFile_encodeAll
  intro trade member
  exact ints trade (List.mem_of_mem_filter member)

theorem intTrade_of_receivedTrades {config : Config} {events : List ReceiverEvent}
    (wellFormed : ∀ event ∈ events, event.WellFormed config) :
    ∀ trade ∈ receivedTrades events, IntTrade trade := by
  intro trade member
  rcases List.mem_flatMap.mp member with ⟨event, arrived, carried⟩
  have wellFormedEvent := wellFormed event arrived
  cases event with
  | tradeMsg msg =>
      rcases wellFormedEvent with ⟨trades, decoded, -⟩
      simp only [decoded, Option.getD_some] at carried
      exact intTrade_of_tradesOfMsg decoded trade carried
  | flush codes => simp at carried

/-- In every state of a receiver, also inside a message and inside a flush, file
and buffer of a stock hold its trades in order of arrival, fewer than 100 of them
in the buffer; after a flush the reader gets exactly these trades. -/
theorem tradeLog_complete (config : Config) (hookRows : List HookRow)
    (events : List ReceiverEvent) (wellFormed : ∀ event ∈ events, event.WellFormed config) :
    ∃ receiver, (TradeReceiver.new hookRows).run events = some receiver ∧
      Logged (receivedTrades events) receiver ∧
      (∀ msg trades, tradesOfMsg msg = some trades →
        (∀ trade ∈ trades, config.Listed trade.stkCode) → ∀ processed, processed <+: trades →
          ∃ receiver', receiver.pushTrades processed = some receiver' ∧
            Logged (receivedTrades events ++ processed) receiver') ∧
      ∀ codes, codes.Perm (stkCodes config) →
        (∀ flushed, flushed <+: codes →
          Logged (receivedTrades events) (receiver.flush flushed)) ∧
        ∀ s, config.Listed s →
          readTradeFromFile ((receiver.flush codes).tradeFile s) =
            tradesOfStock s (receivedTrades events) := by
  rcases Logged.run hookRows wellFormed with ⟨receiver, ran, logged⟩
  refine ⟨receiver, ran, logged, ?_, ?_⟩
  · intro msg trades _ _ processed _
    exact logged.pushTrades processed
  · intro codes everyBuffer
    constructor
    · intro flushed _
      exact logged.flush flushed
    · intro s listed
      apply (logged.flush codes).readTradeFromFile (intTrade_of_receivedTrades wellFormed)
      apply TradeReceiver.flush_tradeBuffer
      exact Or.inl (everyBuffer.mem_iff.mpr (mem_stkCodes listed))

/-- A message with trades of stocks 2 and 1. -/
def twoTradesMsg : List UInt8 :=
  [2, 0, 0, 0, 2, 0, 0, 0] ++
    [2, 0, 0, 0, 3, 0, 0, 0, 4, 0, 0, 0, 0, 0, 0, 0] ++
      [0, 0, 0, 0, 0, 0, 0x24, 0x40, 0x90, 1, 0, 0] ++
    [1, 0, 0, 0, 7, 0, 0, 0, 5, 0, 0, 0, 0, 0, 0, 0] ++
      [0, 0, 0, 0, 0, 0, 0xf0, 0x3f, 50, 0, 0, 0]

/-- Two messages around a flush that meets stock 2 first. -/
theorem tradeLog_complete_two_messages :
    ∃ receiver, (TradeReceiver.new []).run
        [.tradeMsg twoTradesMsg, .flush [2, 1], .tradeMsg twoTradesMsg] = some receiver ∧
      readTradeFromFile ((receiver.flush [2, 1]).tradeFile 2) =
        [⟨2, 3, 4, 0x4024000000000000, 400⟩, ⟨2, 3, 4, 0x4024000000000000, 400⟩] := by
  have message : ReceiverEvent.WellFormed ⟨1, 1, 2, 1⟩ (.tradeMsg twoTradesMsg) :=
    ⟨[⟨2, 3, 4, 0x4024000000000000, 400⟩, ⟨1, 7, 5, 0x3ff0000000000000, 50⟩], by decide, by decide⟩
  have flush : ReceiverEvent.WellFormed ⟨1, 1, 2, 1⟩ (.flush [2, 1]) :=
    List.Perm.swap 1 2 []
  have wellFormed : ∀ event ∈ [.tradeMsg twoTradesMsg, .flush [2, 1], .tradeMsg twoTradesMsg],
      ReceiverEvent.WellFormed ⟨1, 1, 2, 1⟩ event := by
    simp [message, flush]
  rcases tradeLog_complete ⟨1, 1, 2, 1⟩ [] _ wellFormed with ⟨receiver, ran, -, -, flushed⟩
  refine ⟨receiver, ran, ?_⟩
  rw [(flushed [2, 1] flush).2 2 (by decide)]
  decide

end PpiwTrading.Trader
