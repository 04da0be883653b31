import PpiwTrading.Exchange.PriceLaws
import PpiwTrading.System.Replay
import PpiwTrading.Trader.OutputDiff

/-!
# The trade files of a run

The output of the program are the trade files of its traders.  They are added to the
system: when the receiver of a trader processes a trade, it also collects the trade in
the buffer of its stock and writes the buffer when it is full, and a receiver may be
flushed at any time.

Whatever two runs and whatever two traders are compared, and whenever they are
compared, `output_diff` reports no difference between the files of a stock.  At rest
and flushed, the files are the same bytes: the trades of the stock, in order.
-/

namespace PpiwTrading.System

open PpiwTrading.Bytes
open PpiwTrading.Heap
open PpiwTrading.Sequence
open PpiwTrading.Trader
open PpiwTrading.Exchange

variable {P : Type}

/-- The files of a trader, and the trades that are still to be written to them. -/
structure TradeFiles where
  tradeFile : Int → List UInt8
  tradeBuffer : Int → List (Trade UInt64)

/-- A trade with the bit pattern of its price. -/
def tradeOfBits (bits : P → UInt64) (trade : Trade P) : Trade UInt64 :=
  ⟨trade.stkCode, trade.bidId, trade.askId, bits trade.price, trade.volume⟩

namespace TradeFiles

/-- The constructor of the receiver truncates the files. -/
def new : TradeFiles :=
  ⟨fun _ => [], fun _ => []⟩

/-- The tables of the receiver of a trader. -/
def receiver (files : TradeFiles) (trader : TraderState P) : TradeReceiver :=
  ⟨trader.info, files.tradeFile, files.tradeBuffer, trader.tradeIdxs⟩

def ofReceiver (receiver : TradeReceiver) : TradeFiles :=
  ⟨receiver.tradeFile, receiver.tradeBuffer⟩

/-- What the processing of a message does to the files; nothing when an assertion
fails. -/
def record (bits : P → UInt64) (files : TradeFiles) (trader : TraderState P) :
    Msg P → TradeFiles
  | .ack _ => files
  | .trade trade =>
      (((files.receiver trader).pushTrade (tradeOfBits bits trade)).map ofReceiver).getD files

/-- `TraderTradeReceiver::flush`. -/
def flush (files : TradeFiles) (trader : TraderState P) (stkCodes : List Int) : TradeFiles :=
  ofReceiver ((files.receiver trader).flush stkCodes)

end TradeFiles

/-- The system with the files of its traders. -/
structure Recorded (P : Type) where
  network : Network P
  files : Nat → TradeFiles

inductive RecordedAction
  | act (action : Action)
  /-- The receiver of a trader is flushed; it meets its buffers in some order. -/
  | flush (traderIdx : Nat) (codes : List Int)

namespace Recorded

def new (config : Config) (inputs : Nat → TraderInput P) : Recorded P :=
  ⟨Network.new config inputs, fun _ => TradeFiles.new⟩

/-- What an action of the system does to the files. -/
def filesAfter (bits : P → UInt64) (recorded : Recorded P) : Action → Nat → TradeFiles
  | .receiveMsg tr e =>
      match recorded.network.msgChannel (tr, e) with
      | [] => recorded.files
      | msg :: _ =>
          Function.update recorded.files tr
            ((recorded.files tr).record bits (recorded.network.traders tr) msg)
  | _ => recorded.files

variable [LinearOrder P] [Zero P]

def next (algorithms : HeapAlgorithms) (config : Config) (inputs : Nat → TraderInput P)
    (bits : P → UInt64) (action : RecordedAction) (recorded : Recorded P) :
    Option (Recorded P) :=
  match action with
  | .act action =>
      (Network.next algorithms config inputs action recorded.network).map fun network =>
        ⟨network, recorded.filesAfter bits action⟩
  | .flush tr codes =>
      if codes.Perm (stkCodes config) then
        some
          { recorded with
            files := Function.update recorded.files tr
              ((recorded.files tr).flush (recorded.network.traders tr) codes) }
      else none

end Recorded

/-! ## One trader -/

section Trader

variable {bits : P → UInt64} {files : TradeFiles} {trader trader' : TraderState P}

/-- The files and buffers of a trader hold the trades that it has seen. -/
def Filed (config : Config) (bits : P → UInt64) (trader : TraderState P) (files : TradeFiles) :
    Prop :=
  ∃ log, Logged log (files.receiver trader) ∧ ∀ s, tradesOfStock s log =
    (tradesOf s (trader.seen (config.exchangeOf s))).map (tradeOfBits bits)

theorem Filed.new (config : Config) (bits : P → UInt64) (input : TraderInput P) :
    Filed config bits (TraderState.new input) TradeFiles.new :=
  ⟨[], Logged.new input.hookRows, fun _ => rfl⟩

/-- The files depend on nothing but the hooked trades, the counters and what was seen. -/
theorem Filed.frame {config : Config} (filed : Filed config bits trader files)
    (hooked : trader'.info.hookedTrade = trader.info.hookedTrade)
    (tradeIdxs : trader'.tradeIdxs = trader.tradeIdxs)
    (seen : ∀ s, tradesOf s (trader'.seen (config.exchangeOf s)) =
      tradesOf s (trader.seen (config.exchangeOf s))) : Filed config bits trader' files := by
  rcases filed with ⟨log, logged, trades⟩
  refine ⟨log, ⟨logged.complete, logged.bounded, ?_, ?_⟩, ?_⟩
  · intro s
    change trader'.tradeIdxs s = _
    rw [tradeIdxs]
    exact logged.counted s
  · intro s k v
    change trader'.tradeIdxs s ≤ k → trader'.info.hookedTrade s k = some v → v = -1
    rw [tradeIdxs, hooked]
    exact logged.unseen s k v
  · intro s
    rw [trades, seen]

/-- What processing a trade does to the tables other than the files. -/
theorem pushTrade_tables {receiver receiver' : TradeReceiver} {trade : Trade UInt64}
    (pushed : receiver.pushTrade trade = some receiver') :
    receiver.info.updateIfHooked trade.stkCode (receiver.tradeIdxs trade.stkCode) trade.volume =
        .ok receiver'.info ∧
      receiver'.tradeIdxs = Function.update receiver.tradeIdxs trade.stkCode
        (receiver.tradeIdxs trade.stkCode + 1) := by
  rw [TradeReceiver.pushTrade] at pushed
  cases updated : receiver.info.updateIfHooked trade.stkCode (receiver.tradeIdxs trade.stkCode)
      trade.volume with
  | error fault =>
      rw [updated] at pushed
      contradiction
  | ok info =>
      rw [updated] at pushed
      simp only [Except.toOption, Option.bind_eq_bind, Option.bind_some] at pushed
      split at pushed
      · cases pushed
        exact ⟨rfl, rfl⟩
      · cases pushed
        exact ⟨rfl, rfl⟩

/-- The tables that the process of a trader keeps are those of its receiver. -/
theorem TradeFiles.receiver_processTradeResult {trade : Trade P} {receiver : TradeReceiver}
    (pushed : (files.receiver trader).pushTrade (tradeOfBits bits trade) = some receiver) :
    (TradeFiles.ofReceiver receiver).receiver (trader.processTradeResult trade) = receiver := by
  rcases pushTrade_tables pushed with ⟨updated, tradeIdxs⟩
  have processed : trader.info.updateIfHooked trade.stkCode (trader.tradeIdxs trade.stkCode)
      trade.volume = .ok receiver.info := updated
  rw [TraderState.processTradeResult, processed]
  simp only [TradeFiles.receiver, TradeFiles.ofReceiver]
  change TradeReceiver.mk _ _ _ (Function.update trader.tradeIdxs trade.stkCode
    (trader.tradeIdxs trade.stkCode + 1)) = receiver
  cases receiver
  cases tradeIdxs
  rfl

/-- The receiver processes a message about a stock of the exchange it came from. -/
theorem Filed.receive {config : Config} (filed : Filed config bits trader files) {e : Nat}
    {msg : Msg P} (origin : config.exchangeOf msg.stkCode = e) :
    Filed config bits (trader.receive e msg) (files.record bits trader msg) := by
  have seen : ∀ s, tradesOf s ((trader.receive e msg).seen (config.exchangeOf s)) =
      tradesOf s (trader.seen (config.exchangeOf s)) ++ tradesOf s [msg] :=
    tradesOf_seen trader.seen origin
  cases msg with
  | ack ack =>
      have processed : (trader.processOrderAck ack).info.hookedTrade = trader.info.hookedTrade ∧
          (trader.processOrderAck ack).tradeIdxs = trader.tradeIdxs := by
        unfold TraderState.processOrderAck SharedTradeInfo.updateSlidingWindowStart
        by_cases current : ack.orderId + 1 ≥ trader.info.slidingWindowStart ack.stkCode
        · rw [if_pos current]
          exact ⟨rfl, rfl⟩
        · rw [if_neg current]
          exact ⟨rfl, rfl⟩
      have framed : Filed config bits (trader.receive e (.ack ack)) files :=
        filed.frame processed.1 processed.2 fun s => (seen s).trans (List.append_nil _)
      exact framed
  | trade trade =>
      rcases filed with ⟨log, logged, trades⟩
      rcases logged.pushTrade (tradeOfBits bits trade) with ⟨receiver, pushed, logged'⟩
      refine ⟨log ++ [tradeOfBits bits trade], ?_, ?_⟩
      · have tables := TradeFiles.receiver_processTradeResult pushed
        rw [TradeFiles.record, pushed]
        change Logged _
          ((TradeFiles.ofReceiver receiver).receiver (trader.processTradeResult trade))
        rw [tables]
        exact logged'
      · intro s
        rw [seen s, List.map_append, ← trades s]
        by_cases same : s = trade.stkCode
        · rw [same, tradesOf_trade_self rfl]
          exact tradesOfStock_concat_self log (tradeOfBits bits trade)
        · have foreign : (Msg.trade trade).stkCode ≠ s := Ne.symm same
          rw [tradesOf_of_ne foreign, List.map_nil, List.append_nil]
          have other : s ≠ (tradeOfBits bits trade).stkCode := same
          exact tradesOfStock_concat_of_ne log other

theorem flush_tables (receiver : TradeReceiver) (codes : List Int) :
    (receiver.flush codes).info = receiver.info ∧
      (receiver.flush codes).tradeIdxs = receiver.tradeIdxs := by
  induction codes generalizing receiver with
  | nil => exact ⟨rfl, rfl⟩
  | cons code codes inductionHypothesis => exact inductionHypothesis (receiver.writeBuffer code)

theorem TradeFiles.receiver_flush (codes : List Int) :
    (files.flush trader codes).receiver trader = (files.receiver trader).flush codes := by
  rcases flush_tables (files.receiver trader) codes with ⟨info, tradeIdxs⟩
  unfold TradeFiles.flush
  generalize (files.receiver trader).flush codes = flushed at info tradeIdxs
  cases flushed
  cases info
  cases tradeIdxs
  rfl

theorem Filed.flush {config : Config} (filed : Filed config bits trader files)
    (codes : List Int) : Filed config bits trader (files.flush trader codes) := by
  rcases filed with ⟨log, logged, trades⟩
  refine ⟨log, ?_, trades⟩
  rw [TradeFiles.receiver_flush]
  exact logged.flush codes

/-- A file holds the trades that are not in the buffer. -/
theorem Filed.file_eq {config : Config} (filed : Filed config bits trader files) (s : Int) :
    (files.tradeBuffer s).length < tradeBufThreshold ∧
      ∃ written, written ≤ (tradesOf s (trader.seen (config.exchangeOf s))).length ∧
        written + (files.tradeBuffer s).length =
          (tradesOf s (trader.seen (config.exchangeOf s))).length ∧
        files.tradeFile s = tradeCodec.encodeAll
          (((tradesOf s (trader.seen (config.exchangeOf s))).take written).map
            (tradeOfBits bits)) := by
  rcases filed with ⟨log, logged, trades⟩
  have complete : files.tradeFile s ++ tradeCodec.encodeAll (files.tradeBuffer s) = _ :=
    logged.complete s
  rw [trades s] at complete
  rcases tradeCodec.eq_encodeAll_take complete with ⟨shorter, content⟩
  rw [List.length_map] at shorter content
  refine ⟨logged.bounded s, _, Nat.sub_le _ _, Nat.sub_add_cancel shorter, ?_⟩
  rw [content, List.map_take]

end Trader

/-! ## All traders -/

variable [LinearOrder P] [Zero P] {algorithms : HeapAlgorithms} {config : Config}
  {inputs : Nat → TraderInput P} {bits : P → UInt64} {network network' : Network P}
  {recorded recorded' first second : Recorded P} {orderNum : Int → Nat}

/-- A step that is no receipt of a trader leaves the tables of its receiver. -/
theorem Consistent.tables_of_other (consistent : Consistent algorithms config inputs network)
    {action : Action} {tr : Nat} (other : ∀ e, action ≠ .receiveMsg tr e)
    (performed : Network.next algorithms config inputs action network = some network') :
    (network'.traders tr).info = (network.traders tr).info ∧
      (network'.traders tr).tradeIdxs = (network.traders tr).tradeIdxs ∧
      (network'.traders tr).seen = (network.traders tr).seen := by
  have updated : ∀ {tr' : Nat} {trader : TraderState P},
      network'.traders = Function.update network.traders tr' trader →
      (tr = tr' → trader.info = (network.traders tr').info ∧
        trader.tradeIdxs = (network.traders tr').tradeIdxs ∧
        trader.seen = (network.traders tr').seen) →
      (network'.traders tr).info = (network.traders tr).info ∧
        (network'.traders tr).tradeIdxs = (network.traders tr).tradeIdxs ∧
        (network'.traders tr).seen = (network.traders tr).seen := by
    intro tr' trader traders same
    rw [traders]
    by_cases isTrader : tr = tr'
    · rcases same isTrader with ⟨info, tradeIdxs, seen⟩
      rw [isTrader, Function.update_self]
      exact ⟨info, tradeIdxs, seen⟩
    · rw [Function.update_of_ne isTrader]
      exact ⟨rfl, rfl, rfl⟩
  cases action with
  | control tr' =>
      simp only [Network.next] at performed
      split at performed
      · rename_i runs
        rcases Option.map_eq_some_iff.mp performed with ⟨trader, step, rfl⟩
        have internal := ((consistent.dispatched tr' runs.1).control
          (consistent.informed tr' runs.1) step).2
        exact updated rfl fun _ => ⟨internal.info, internal.tradeIdxs, internal.seen⟩
      · cases performed
  | pollOrder tr' e =>
      simp only [Network.next] at performed
      split at performed
      · rename_i runs
        rcases Option.map_eq_some_iff.mp performed with ⟨trader, step, rfl⟩
        have internal := ((consistent.dispatched tr' runs.1.1).pollOrder step).2
        exact updated rfl fun _ => ⟨internal.info, internal.tradeIdxs, internal.seen⟩
      · cases performed
  | sendOrder tr' e =>
      simp only [Network.next] at performed
      split at performed
      · rename_i runs
        rcases Option.map_eq_some_iff.mp performed with ⟨⟨order, trader⟩, step, rfl⟩
        rcases ((consistent.dispatched tr' runs.1.1).sendOrder step).2 with
          ⟨info, tradeIdxs, _, seen, _⟩
        exact updated rfl fun _ => ⟨info, tradeIdxs, seen⟩
      · cases performed
  | receiveMsg tr' e =>
      simp only [Network.next] at performed
      split at performed
      · split at performed
        · cases performed
        · cases performed
          apply updated rfl
          rintro rfl
          exact absurd rfl (other e)
      · cases performed
  | receiveOrder tr' e =>
      simp only [Network.next] at performed
      split at performed
      · split at performed
        · cases performed
        · cases performed
          exact ⟨rfl, rfl, rfl⟩
      · cases performed
  | work e | takeMsg e | sendMsg e =>
      -- an exchange changes no trader
      simp only [Network.next] at performed
      split at performed
      · rcases Option.map_eq_some_iff.mp performed with ⟨_, _, rfl⟩
        exact ⟨rfl, rfl, rfl⟩
      · cases performed

/-- The invariant of the system with the files of its traders. -/
def Recorded.Invariant (algorithms : HeapAlgorithms) (config : Config)
    (inputs : Nat → TraderInput P) (bits : P → UInt64) (recorded : Recorded P) : Prop :=
  Consistent algorithms config inputs recorded.network ∧
    ∀ tr < config.traderNum,
      Filed config bits (recorded.network.traders tr) (recorded.files tr)

theorem Recorded.Invariant.act (invariant : recorded.Invariant algorithms config inputs bits)
    (partitioned : Partitioned config inputs orderNum) {action : Action}
    (performed : Network.next algorithms config inputs action recorded.network = some network') :
    Recorded.Invariant algorithms config inputs bits
      ⟨network', recorded.filesAfter bits action⟩ := by
  rcases invariant with ⟨consistent, filed⟩
  refine ⟨consistent.step partitioned (Network.next_step performed), ?_⟩
  intro tr trader
  have unchanged : (∀ e, action ≠ .receiveMsg tr e) →
      Filed config bits (network'.traders tr) (recorded.files tr) := by
    intro other
    rcases consistent.tables_of_other other performed with ⟨info, tradeIdxs, seen⟩
    apply (filed tr trader).frame _ tradeIdxs
    · intro s
      rw [seen]
    · rw [info]
  cases action with
  | receiveMsg tr' e =>
      simp only [Network.next] at performed
      split at performed
      · rename_i runs
        split at performed
        · cases performed
        · rename_i msg rest channel
          cases performed
          have origin := (consistent.delivered runs.1.1 runs.2 channel).1.2
          simp only [Recorded.filesAfter, channel, Network.setMsgChannel, Network.setTrader]
          by_cases same : tr = tr'
          · subst same
            rw [Function.update_self, Function.update_self]
            exact (filed tr trader).receive origin
          · rw [Function.update_of_ne same, Function.update_of_ne same]
            exact filed tr trader
      · cases performed
  | control | pollOrder | sendOrder | receiveOrder | work | takeMsg | sendMsg =>
      exact unchanged (by simp)

theorem Recorded.Invariant.step (invariant : recorded.Invariant algorithms config inputs bits)
    (partitioned : Partitioned config inputs orderNum) {action : RecordedAction}
    (performed : Recorded.next algorithms config inputs bits action recorded =
      some recorded') :
    recorded'.Invariant algorithms config inputs bits := by
  cases action with
  | act action =>
      rcases Option.map_eq_some_iff.mp performed with ⟨network', step, rfl⟩
      exact invariant.act partitioned step
  | flush tr codes =>
      simp only [Recorded.next] at performed
      split at performed
      · cases performed
        refine ⟨invariant.1, ?_⟩
        intro tr' trader'
        by_cases same : tr' = tr
        · subst same
          simp only [Function.update_self]
          exact (invariant.2 tr' trader').flush codes
        · simp only [Function.update_of_ne same]
          exact invariant.2 tr' trader'
      · cases performed

/-- The states of the system and its files under any interleaving with any flushes. -/
def Recorded.Reachable (algorithms : HeapAlgorithms) (config : Config)
    (inputs : Nat → TraderInput P) (bits : P → UInt64) (recorded : Recorded P) : Prop :=
  Transition.Reachable (Recorded.next algorithms config inputs bits)
    (Recorded.new config inputs) recorded

omit [LinearOrder P] [Zero P] in
theorem readTradeFromFile_image (trades : List (Trade UInt64)) :
    readTradeFromFile (tradeCodec.encodeAll trades) =
      trades.map fun trade => bytesTrade (tradeBytes trade) := by
  apply tradeCodec.readAll_encodeAll_image
  have width : tradeCodec.width = 24 := rfl
  rw [tradeCodec.length_encodeAll, width]
  omega

theorem Recorded.Reachable.invariant
    (reachable : recorded.Reachable algorithms config inputs bits)
    (partitioned : Partitioned config inputs orderNum) :
    recorded.Invariant algorithms config inputs bits :=
  Transition.Reachable.invariant
    (motive := Recorded.Invariant algorithms config inputs bits)
    ⟨Consistent.new algorithms config inputs,
      fun tr _ => Filed.new config bits (inputs tr)⟩
    (fun invariant performed => invariant.step partitioned performed) reachable

/-- Without its files a run is a run of the system. -/
theorem Recorded.Reachable.toNetwork
    (reachable : recorded.Reachable algorithms config inputs bits) :
    Network.Reachable algorithms config inputs recorded.network := by
  apply Transition.Reachable.image (fun _ => True) Recorded.network _ _ trivial reachable
  · intro _ _ _ _ _
    trivial
  · intro state state' action _ performed
    cases action with
    | act action =>
        rcases Option.map_eq_some_iff.mp performed with ⟨network', step, rfl⟩
        exact Or.inr ⟨action, step⟩
    | flush tr codes =>
        left
        simp only [Recorded.next] at performed
        split at performed
        · cases performed
          rfl
        · cases performed

/-- A file holds the first of the produced trades, the buffer the next ones. -/
theorem Recorded.Invariant.file_eq (invariant : recorded.Invariant algorithms config inputs bits)
    {tr e : Nat} (trader : tr < config.traderNum) (exchange : e < config.exchangeNum) {s : Int}
    (owns : config.Owns e s) :
    ((recorded.files tr).tradeBuffer s).length < tradeBufThreshold ∧
      ∃ written, written + ((recorded.files tr).tradeBuffer s).length =
          (tradesOf s ((recorded.network.traders tr).seen e)).length ∧
        (recorded.files tr).tradeFile s = tradeCodec.encodeAll
          ((((recorded.network.exchanges e).threads s).produced.take written).map
            (tradeOfBits bits)) := by
  rcases (invariant.2 tr trader).file_eq s with ⟨bounded, written, shorter, total, content⟩
  rw [owns.2] at shorter total content
  rcases invariant.1.tradesOf_seen trader exchange owns with ⟨more, split⟩
  refine ⟨bounded, written, total, ?_⟩
  rw [content, ← split, List.take_append_of_le_length shorter]

/-! ## The integers of trades -/

omit [LinearOrder P] [Zero P] in
theorem signed_of_le {n : Int} (nonnegative : 0 ≤ n) (small : n ≤ intMax) : Signed 4 n := by
  have bound : intMax = 2147483647 := rfl
  constructor
  · norm_num
    omega
  · norm_num
    omega

/-- A trade of a run is not larger than a record it takes. -/
theorem run_trades_volume_le (stkCode : Int) {orders : List (Order P)} (feed : Feed orders) :
    ∀ t ∈ (Reference.run stkCode StockDeclarationBook.empty orders).2, t.volume ≤ intMax := by
  refine Reference.run_empty_invariant
    (motive := fun _ trades => ∀ t ∈ trades, t.volume ≤ intMax) stkCode ?_ feed (by simp)
  intro latest book trades next member sound fresh positive earlier t inTrades
  rcases List.mem_append.mp inTrades with old | new
  · exact earlier t old
  · rcases Reference.commit_cases stkCode book next positive.le with
      refused | ⟨side, plan, fills, left, _, _, settles⟩
    · rw [refused] at new
      cases new
    · rw [settles.trades] at new
      rcases List.mem_map.mp new with ⟨fill, inFills, rfl⟩
      have records := sound.positive side.other
      rcases settles.filled.fill_bounds records fill inFills with ⟨inBook, _, smaller⟩
      have volume : (newTrade stkCode next side.other fill.1 fill.1.price
          fill.2).volume = fill.2 := by
        cases side <;> rfl
      rw [volume]
      exact smaller.trans (records _ inBook).2

/-- The trades of the system consist of `int` values. -/
theorem Consistent.produced_ints (bits : P → UInt64)
    (consistent : Consistent algorithms config inputs network)
    (partitioned : Partitioned config inputs orderNum) (volumes : PositiveVolumes config inputs)
    (stocks : (config.stockNum : Int) ≤ intMax)
    (ids : ∀ s, config.Listed s → (orderNum s : Int) ≤ intMax) {e : Nat}
    (exchange : e < config.exchangeNum) {s : Int} (owns : config.Owns e s) :
    ∀ t ∈ ((network.exchanges e).threads s).produced, IntTrade (tradeOfBits bits t) := by
  have serves := (consistent.serving e exchange).serves s owns
  have effect := serves.committed_eq.2
  have feed := consistent.committed_feed volumes exchange owns
  rcases commitOrders_refines_empty s algorithms feed with ⟨final, refined, _⟩
  rw [effect, Except.ok.injEq, Prod.mk.injEq] at refined
  have committedIds : ∀ o ∈ ((network.exchanges e).threads s).committed,
      0 ≤ o.orderId ∧ o.orderId ≤ intMax := by
    intro o member
    have inPolled : o.orderId ∈ ((network.exchanges e).threads s).polled.map Order.orderId := by
      rw [serves.committed_eq.1]
      exact List.mem_map_of_mem (List.mem_append_left _ member)
    rw [serves.numbered, mem_idsUpTo] at inPolled
    have few := consistent.polled_le partitioned exchange owns
    have small := ids s owns.1
    omega
  intro t member
  have inTrades := List.mem_append_left ((network.exchanges e).threads s).phase.pending member
  have tagged := commitOrders_tagged algorithms effect t inTrades
  have positive := consistent.produced_positive volumes exchange owns t member
  rw [refined.2] at inTrades
  rcases TradeParties.of_run s feed inTrades with ⟨_, bid, inBids, ask, inAsks, bidId, askId, _⟩
  have bidRange := committedIds bid inBids
  have askRange := committedIds ask inAsks
  have listed := owns.1
  constructor
  · change Signed 4 t.stkCode
    rw [tagged]
    exact signed_of_le (by have first := listed.1; omega) (listed.2.trans stocks)
  · change Signed 4 t.bidId
    rw [← bidId]
    exact signed_of_le bidRange.1 bidRange.2
  · change Signed 4 t.askId
    rw [← askId]
    exact signed_of_le askRange.1 askRange.2
  · exact signed_of_le positive.le (run_trades_volume_le s feed t inTrades)

/-! ## What the files say -/

/-- At any time the reader of a trade file gets the first of the trades that the
exchange has produced for the stock, all those the trader has seen but fewer than 100
that are in its buffer.  At rest and with an empty buffer it gets all of them. -/
theorem recorded_files_read (partitioned : Partitioned config inputs orderNum)
    (volumes : PositiveVolumes config inputs) (stocks : (config.stockNum : Int) ≤ intMax)
    (ids : ∀ s, config.Listed s → (orderNum s : Int) ≤ intMax)
    (reachable : recorded.Reachable algorithms config inputs bits) :
    ∀ tr < config.traderNum, ∀ e < config.exchangeNum, ∀ s, config.Owns e s →
      ((recorded.files tr).tradeBuffer s).length < 100 ∧
      (∃ written, written + ((recorded.files tr).tradeBuffer s).length =
          (tradesOf s ((recorded.network.traders tr).seen e)).length ∧
        readTradeFromFile ((recorded.files tr).tradeFile s) =
          (((recorded.network.exchanges e).threads s).produced.take written).map
            (tradeOfBits bits)) ∧
      (Quiescent config inputs recorded.network → (recorded.files tr).tradeBuffer s = [] →
        readTradeFromFile ((recorded.files tr).tradeFile s) =
          ((recorded.network.exchanges e).threads s).produced.map (tradeOfBits bits)) := by
  intro tr trader e exchange s owns
  have invariant := reachable.invariant partitioned
  have ints := invariant.1.produced_ints bits partitioned volumes stocks ids exchange owns
  rcases invariant.file_eq trader exchange owns with ⟨bounded, written, total, content⟩
  have read : readTradeFromFile ((recorded.files tr).tradeFile s) =
      (((recorded.network.exchanges e).threads s).produced.take written).map
        (tradeOfBits bits) := by
    rw [content]
    apply readTradeFromFile_encodeAll
    intro trade member
    rcases List.mem_map.mp member with ⟨t, taken, rfl⟩
    exact ints t (List.mem_of_mem_take taken)
  refine ⟨bounded, ⟨written, total, read⟩, ?_⟩
  intro quiescent flushed
  rw [flushed, quiescent.seen invariant.1 trader exchange,
    ((invariant.1.serving e exchange).serves s owns).produced, List.length_nil,
    Nat.add_zero] at total
  rw [read, total, List.take_length]

omit [LinearOrder P] [Zero P] in
theorem bytesTrade_tradeBytes_price (trade : Trade UInt64) :
    (bytesTrade (tradeBytes trade)).price = trade.price := by
  have price : field (tradeBytes trade) (4 + (4 + (4 + 0))) 8 = natBytes 8 trade.price.toNat := by
    rw [tradeBytes, field_append_right _ (by simp), field_append_right _ (by simp),
      field_append_right _ (by simp), field_append_left _ (by simp)]
  have pattern : UInt64.ofNat (trade.price.toNat % 256 ^ 8) = trade.price := by
    rw [Nat.mod_eq_of_lt (by simpa using trade.price.toNat_lt), UInt64.ofNat_toNat]
  rw [bytesTrade]
  change UInt64.ofNat (bytesNat (field (tradeBytes trade) 12 8)) = trade.price
  rw [show (12 : Nat) = 4 + (4 + (4 + 0)) from rfl, price, bytesNat_natBytes, pattern]

/-- The small system at rest, with the files of the first trader flushed. -/
def smallFlushedRun : List RecordedAction :=
  smallRestRun.map .act ++ [.flush 0 [2, 1]]

/-- A price that is a small integer stands for itself. -/
def smallBits (price : Int) : UInt64 :=
  UInt64.ofNat price.toNat

/-- The state `smallFlushedRun` leads to. -/
def smallRecorded : Recorded Int :=
  (Transition.run (Recorded.next binaryHeap smallConfig smallInputs smallBits) smallFlushedRun
    (Recorded.new smallConfig smallInputs)).getD (Recorded.new smallConfig smallInputs)

theorem smallRecorded_reachable :
    smallRecorded.Reachable binaryHeap smallConfig smallInputs smallBits := by
  have performed : (Transition.run (Recorded.next binaryHeap smallConfig smallInputs smallBits)
      smallFlushedRun (Recorded.new smallConfig smallInputs)).isSome = true := by
    decide +kernel
  rcases Option.isSome_iff_exists.mp performed with ⟨recorded, executed⟩
  have isRecorded : smallRecorded = recorded := by
    rw [smallRecorded, executed, Option.getD_some]
  rw [isRecorded]
  exact Transition.Reachable.of_run executed

theorem recorded_files_read_small :
    readTradeFromFile ((smallRecorded.files 0).tradeFile 1) = [⟨1, 2, 1, 5, 10⟩] ∧
      ((smallRecorded.files 1).tradeBuffer 1).length < 100 ∧
      ∃ written, written + ((smallRecorded.files 1).tradeBuffer 1).length =
          (tradesOf 1 ((smallRecorded.network.traders 1).seen 1)).length ∧
        readTradeFromFile ((smallRecorded.files 1).tradeFile 1) =
          (((smallRecorded.network.exchanges 1).threads 1).produced.take written).map
            (tradeOfBits smallBits) := by
  have ids : ∀ s, smallConfig.Listed s → ((if s = 1 then 2 else 1 : Nat) : Int) ≤ intMax := by
    intro s _
    split <;> decide
  have read := recorded_files_read smallInputs_partitioned smallInputs_volumes (by decide) ids
    smallRecorded_reachable 1 (by decide) 1 (by decide) 1 (by decide)
  exact ⟨by decide +kernel, read.1, read.2.1⟩

/-- Whichever two runs, two traders and two moments are compared, `output_diff` reports
no difference between the files of a stock, when the prices are numbers.  At rest and
with empty buffers the files are the same bytes. -/
theorem recorded_no_difference (samePrice : UInt64 → UInt64 → Bool)
    (numbers : ∀ price : P, samePrice (bits price) (bits price) = true)
    (partitioned : Partitioned config inputs orderNum) (someWindow : 1 ≤ config.slidingWindowSize)
    (firstReachable : first.Reachable algorithms config inputs bits)
    (secondReachable : second.Reachable algorithms config inputs bits) :
    ∀ tr < config.traderNum, ∀ tr' < config.traderNum, ∀ e < config.exchangeNum,
      ∀ s, config.Owns e s →
        outputDiff samePrice ((first.files tr).tradeFile s) ((second.files tr').tradeFile s) =
          none ∧
        (Quiescent config inputs first.network → Quiescent config inputs second.network →
          (first.files tr).tradeBuffer s = [] → (second.files tr').tradeBuffer s = [] →
          (first.files tr).tradeFile s = (second.files tr').tradeFile s) := by
  intro tr trader tr' trader' e exchange s owns
  have firstInvariant := firstReachable.invariant partitioned
  have secondInvariant := secondReachable.invariant partitioned
  have someExchange : 0 < config.exchangeNum := Nat.zero_lt_of_lt exchange
  rcases firstInvariant.file_eq trader exchange owns with ⟨_, written, total, content⟩
  rcases secondInvariant.file_eq trader' exchange owns with ⟨_, written', total', content'⟩
  constructor
  · have coherent := firstReachable.toNetwork.coherent secondInvariant.1 partitioned someExchange
    have comparable := prefix_or_prefix_of_parts (List.take_prefix written _)
      (List.take_prefix written' _)
      (coherent.produced firstInvariant.1 secondInvariant.1 exchange owns)
    have number : ∀ trades : List (Trade P),
        ∀ trade ∈ readTradeFromFile (tradeCodec.encodeAll (trades.map (tradeOfBits bits))),
          samePrice trade.price trade.price = true := by
      intro trades trade member
      rw [readTradeFromFile_image, List.map_map] at member
      rcases List.mem_map.mp member with ⟨t, _, rfl⟩
      rw [Function.comp_apply, bytesTrade_tradeBytes_price]
      exact numbers t.price
    rw [outputDiff, content, content']
    apply diffFrom_of_comparable (number _) (number _)
    rw [readTradeFromFile_image, readTradeFromFile_image]
    exact comparable.imp (fun shorter => (shorter.map _).map _) fun longer => (longer.map _).map _
  · intro firstQuiescent secondQuiescent firstFlushed secondFlushed
    rcases firstReachable.toNetwork.behind secondInvariant.1 secondQuiescent partitioned
      someWindow someExchange with ⟨coherent, behind⟩
    rcases secondReachable.toNetwork.behind firstInvariant.1 firstQuiescent partitioned
      someWindow someExchange with ⟨backCoherent, back⟩
    have same := (behind.produced firstInvariant.1 secondInvariant.1 secondQuiescent coherent
      exchange owns).eq_of_length_le
        (back.produced secondInvariant.1 firstInvariant.1 firstQuiescent backCoherent
          exchange owns).length_le
    rw [firstFlushed, firstQuiescent.seen firstInvariant.1 trader exchange,
      ((firstInvariant.1.serving e exchange).serves s owns).produced, List.length_nil,
      Nat.add_zero] at total
    rw [secondFlushed, secondQuiescent.seen secondInvariant.1 trader' exchange,
      ((secondInvariant.1.serving e exchange).serves s owns).produced, List.length_nil,
      Nat.add_zero] at total'
    rw [content, content', total, total', List.take_length, List.take_length, same]

theorem recorded_no_difference_small :
    (smallRecorded.files 0).tradeFile 1 ≠ (smallRecorded.files 1).tradeFile 1 ∧
      outputDiff (fun price price' => price == price') ((smallRecorded.files 0).tradeFile 1)
        ((smallRecorded.files 1).tradeFile 1) = none :=
  ⟨by decide +kernel,
    (recorded_no_difference _ (by simp) smallInputs_partitioned (by decide)
      smallRecorded_reachable smallRecorded_reachable 0 (by decide) 1 (by decide) 1 (by decide) 1
      (by decide)).1⟩

end PpiwTrading.System
