import PpiwTrading.Exchange.Process
import PpiwTrading.Exchange.TradeStock

/-!
# How an exchange serves a stock

`Serves` is the invariant of one stock thread with its window: the thread has
polled the orders 1 to `k` of those that have arrived, the window holds the next
ones, the acknowledgements grow up to the last order that was polled and
acknowledged, and the engine has committed the polled orders that it was given.

`Serving` collects it for the stocks of an exchange.  It is kept by every step
of the process, and by the arrival of an order that fits into its window and
has not arrived before.
-/

namespace PpiwTrading.Exchange

open PpiwTrading.Heap
open PpiwTrading.Sequence

variable {P : Type}

namespace Phase

/-- The polled orders that are not acknowledged. -/
def unacked : Phase P → List (Order P)
  | consuming orders => orders
  | acking orders => orders
  | receiving _ _ => []

/-- The polled orders that the engine has not been given. -/
def remaining : Phase P → List (Order P)
  | consuming orders => orders
  | acking orders => orders
  | receiving orders _ => orders

/-- The trades of the engine that have not been put. -/
def pending : Phase P → List (Trade P)
  | consuming _ => []
  | acking _ => []
  | receiving _ pending => pending

end Phase

section Serves

variable [LinearOrder P] [Zero P]

/-- The invariant of the thread of a stock. -/
structure Serves (algorithms : HeapAlgorithms) (slidingWindowSize : Nat) (stkCode : Int)
    (window : SlidingWindow (Order P)) (thread : StockThread P) (arrived : Order P → Prop)
    (acks : List Int) (trades : List (Trade P)) : Prop where
  numbered : thread.polled.map Order.orderId = idsUpTo thread.polled.length
  genuine : ∀ o ∈ thread.polled, arrived o
  capacity : window.capacity = slidingWindowSize
  tracks : window.Tracks Order.orderId thread.polled.length arrived
  acks_increasing : acks.Pairwise (· < ·)
  acks_bounded : ∀ a ∈ acks, 1 ≤ a ∧ a ≤ acks.getLastD 0
  acked : acks.getLastD 0 + thread.phase.unacked.length = thread.polled.length
  engine : ∃ consumed, thread.polled = consumed ++ thread.phase.remaining ∧
    Drained algorithms stkCode consumed thread.exchange
      (thread.produced ++ thread.phase.pending) thread.committed
  produced : trades = thread.produced

variable {algorithms : HeapAlgorithms} {slidingWindowSize : Nat} {stkCode : Int}
  {window window' : SlidingWindow (Order P)} {thread : StockThread P} {arrived : Order P → Prop}
  {acks : List Int} {trades : List (Trade P)}

theorem Serves.new (algorithms : HeapAlgorithms) (slidingWindowSize : Nat) (stkCode : Int) :
    Serves algorithms slidingWindowSize stkCode (SlidingWindow.new slidingWindowSize)
      (StockThread.new stkCode : StockThread P) (fun _ => False) [] [] where
  numbered := rfl
  genuine := by
    intro o member
    cases member
  capacity := rfl
  tracks := SlidingWindow.Tracks.new slidingWindowSize
  acks_increasing := List.Pairwise.nil
  acks_bounded := by
    intro a member
    cases member
  acked := rfl
  engine := ⟨[], rfl, Drained.new stkCode⟩
  produced := rfl

theorem Serves.polled_positive (serves : Serves algorithms slidingWindowSize stkCode window thread
    arrived acks trades) : ∀ o ∈ thread.polled, 1 ≤ o.orderId := by
  intro o member
  have inIds : o.orderId ∈ idsUpTo thread.polled.length := by
    rw [← serves.numbered]
    exact List.mem_map_of_mem member
  exact (mem_idsUpTo.mp inIds).1

theorem Serves.polled_nodup (serves : Serves algorithms slidingWindowSize stkCode window thread
    arrived acks trades) : (thread.polled.map Order.orderId).Nodup := by
  rw [serves.numbered]
  exact idsUpTo_nodup _

/-- The engine has committed the polled orders it was given, and its trades are
those of committing them. -/
theorem Serves.committed_eq (serves : Serves algorithms slidingWindowSize stkCode window thread
    arrived acks trades) :
    thread.polled = thread.committed ++ thread.phase.remaining ∧
      commitOrders algorithms stkCode StockDeclarationBook.empty thread.committed =
        .ok (thread.exchange.declBook, thread.produced ++ thread.phase.pending) := by
  obtain ⟨consumed, split, drained⟩ := serves.engine
  have numbered : consumed.map Order.orderId = idsUpTo consumed.length := by
    have all := serves.numbered
    rw [split, List.map_append, List.length_append] at all
    have ids : consumed.map Order.orderId <+: idsUpTo (consumed.length + _) :=
      ⟨_, all⟩
    have sameIds := List.prefix_of_prefix_length_le ids
      (idsUpTo_isPrefix (Nat.le_add_right consumed.length _)) (by simp)
    exact sameIds.eq_of_length (by simp)
  rw [drained.eq_arrived numbered]
  exact ⟨split, drained.eq_arrived numbered ▸ drained.effect⟩

/-- Polling takes the next order. -/
theorem Serves.poll (serves : Serves algorithms slidingWindowSize stkCode window thread arrived
    acks trades) {orders : List (Order P)} (consuming : thread.phase = .consuming orders)
    {order : Order P} (polled : window.poll = some (order, window')) :
    Serves algorithms slidingWindowSize stkCode window'
      { thread with phase := .consuming (orders ++ [order]), polled := thread.polled ++ [order] }
      arrived acks trades := by
  rcases serves.tracks.poll polled with ⟨inArrived, isNext, sameCapacity, tracks⟩
  have acked := serves.acked
  obtain ⟨consumed, split, drained⟩ := serves.engine
  rw [consuming] at acked split drained
  constructor
  · rw [List.map_append, serves.numbered, List.length_append, List.length_singleton, idsUpTo_succ]
    simp [isNext]
  · intro o member
    rcases List.mem_append.mp member with old | new
    · exact serves.genuine o old
    · rwa [List.mem_singleton.mp new]
  · exact sameCapacity.trans serves.capacity
  · simpa using tracks
  · exact serves.acks_increasing
  · exact serves.acks_bounded
  · simp only [Phase.unacked, List.length_append, List.length_singleton] at acked ⊢
    omega
  · exact ⟨consumed, by rw [split]; exact List.append_assoc _ _ _, drained⟩
  · exact serves.produced

/-- A thread that only changes its phase keeps its invariant when the phase
carries the same orders and trades. -/
theorem Serves.setPhase (serves : Serves algorithms slidingWindowSize stkCode window thread arrived
    acks trades) {phase : Phase P} (unacked : phase.unacked = thread.phase.unacked)
    (remaining : phase.remaining = thread.phase.remaining)
    (pending : phase.pending = thread.phase.pending) :
    Serves algorithms slidingWindowSize stkCode window { thread with phase := phase } arrived acks
      trades where
  numbered := serves.numbered
  genuine := serves.genuine
  capacity := serves.capacity
  tracks := serves.tracks
  acks_increasing := serves.acks_increasing
  acks_bounded := serves.acks_bounded
  acked := by
    simp only [unacked]
    exact serves.acked
  engine := by
    simp only [remaining, pending]
    exact serves.engine
  produced := serves.produced

/-- The acknowledgement names the last polled order. -/
theorem Serves.ack (serves : Serves algorithms slidingWindowSize stkCode window thread arrived
    acks trades) {orders : List (Order P)} (acking : thread.phase = .acking orders)
    {last : Order P} (isLast : orders.getLast? = some last) :
    Serves algorithms slidingWindowSize stkCode window
      { thread with phase := .receiving orders [] } arrived (acks ++ [last.orderId]) trades := by
  have acked := serves.acked
  obtain ⟨consumed, split, drained⟩ := serves.engine
  rw [acking] at acked split drained
  simp only [Phase.remaining, Phase.unacked, Phase.pending] at acked split drained
  obtain ⟨front, rfl⟩ := List.getLast?_eq_some_iff.mp isLast
  have lastId : last.orderId = thread.polled.length := by
    have numbered := serves.numbered
    rw [split, ← List.append_assoc, List.length_append,
      List.length_singleton, idsUpTo_succ, List.map_append] at numbered
    have ends := List.append_inj_right' numbered rfl
    rw [split, ← List.append_assoc, List.length_append]
    simpa using ends
  have newer : ∀ a ∈ acks, a < last.orderId := by
    intro a member
    have bounded := (serves.acks_bounded a member).2
    simp only [List.length_append, List.length_singleton] at acked
    omega
  constructor
  · exact serves.numbered
  · exact serves.genuine
  · exact serves.capacity
  · exact serves.tracks
  · rw [List.pairwise_append]
    refine ⟨serves.acks_increasing, List.pairwise_singleton _ _, ?_⟩
    intro a member b isNew
    rw [List.mem_singleton.mp isNew]
    exact newer a member
  · intro a member
    rw [List.getLastD_concat]
    rcases List.mem_append.mp member with old | new
    · exact ⟨(serves.acks_bounded a old).1, (newer a old).le⟩
    · rw [List.mem_singleton.mp new]
      refine ⟨?_, le_refl _⟩
      apply serves.polled_positive
      simp [split]
  · rw [List.getLastD_concat, lastId]
    simp [Phase.unacked]
  · exact ⟨consumed, split, drained⟩
  · exact serves.produced

/-- Putting the next trade, which is a trade of the stock. -/
theorem Serves.produce (serves : Serves algorithms slidingWindowSize stkCode window thread arrived
    acks trades) {orders : List (Order P)} {trade : Trade P} {pending : List (Trade P)}
    (receiving : thread.phase = .receiving orders (trade :: pending)) :
    trade.stkCode = stkCode ∧
      Serves algorithms slidingWindowSize stkCode window
        { thread with
          phase := .receiving orders pending
          produced := thread.produced ++ [trade] } arrived acks (trades ++ [trade]) := by
  have acked := serves.acked
  obtain ⟨consumed, split, drained⟩ := serves.engine
  rw [receiving] at acked split drained
  constructor
  · exact commitOrders_tagged algorithms drained.effect trade (by simp [Phase.pending])
  · constructor
    · exact serves.numbered
    · exact serves.genuine
    · exact serves.capacity
    · exact serves.tracks
    · exact serves.acks_increasing
    · exact serves.acks_bounded
    · exact acked
    · refine ⟨consumed, split, ?_⟩
      simpa [Phase.pending] using drained
    · rw [serves.produced]

/-- The engine receives the next polled order. -/
theorem Serves.receiveNext (serves : Serves algorithms slidingWindowSize stkCode window thread
    arrived acks trades) (stocked : ∀ o, arrived o → o.stkCode = stkCode) {order : Order P}
    {rest : List (Order P)} (receiving : thread.phase = .receiving (order :: rest) [])
    {received : Received P}
    (returned : receiveOrder algorithms thread.exchange order = .ok received) :
    Serves algorithms slidingWindowSize stkCode window
      { thread with
        exchange := received.exchange
        phase := .receiving rest received.trades
        committed := thread.committed ++ received.committed } arrived acks trades := by
  have acked := serves.acked
  obtain ⟨consumed, split, drained⟩ := serves.engine
  rw [receiving] at acked split drained
  have member : order ∈ thread.polled := by simp [split, Phase.remaining]
  have distinct : ((consumed ++ [order]).map Order.orderId).Nodup := by
    have nodup := serves.polled_nodup
    rw [split] at nodup
    refine nodup.sublist (List.Sublist.map _ ?_)
    simp [Phase.remaining]
  have receives := receiveOrder_receives drained (stocked order (serves.genuine order member))
    (serves.polled_positive order member) distinct
  rw [returned] at receives
  constructor
  · exact serves.numbered
  · exact serves.genuine
  · exact serves.capacity
  · exact serves.tracks
  · exact serves.acks_increasing
  · exact serves.acks_bounded
  · exact acked
  · refine ⟨consumed ++ [order], ?_, ?_⟩
    · simp [split, Phase.remaining]
    · simpa [Receives, Phase.pending] using receives
  · exact serves.produced

/-- A new order that fits into the window finds its slot free. -/
theorem Serves.arrive (serves : Serves algorithms slidingWindowSize stkCode window thread arrived
    acks trades) {order : Order P} (fresh : ∀ o, arrived o → o.orderId ≠ order.orderId)
    (positive : 1 ≤ order.orderId)
    (within : order.orderId ≤ thread.polled.length + slidingWindowSize) :
    ∃ window', window.put order (windowIdx slidingWindowSize order.orderId) = .ok window' ∧
      Serves algorithms slidingWindowSize stkCode window' thread
        (fun o => arrived o ∨ o = order) acks trades := by
  have late : (thread.polled.length : Int) < order.orderId := by
    by_contra early
    have inPolled : order.orderId ∈ thread.polled.map Order.orderId := by
      rw [serves.numbered, mem_idsUpTo]
      omega
    obtain ⟨o, member, sameId⟩ := List.mem_map.mp inPolled
    exact fresh o (serves.genuine o member) sameId
  have placed := serves.tracks.put fresh late (by rw [serves.capacity]; exact within)
  rw [serves.capacity] at placed
  refine ⟨_, placed.1, ?_⟩
  exact
    { serves with
      genuine := fun o member => Or.inl (serves.genuine o member)
      capacity := rfl
      tracks := placed.2 }

end Serves

/-! ## All stocks of an exchange -/

section Serving

/-- The orders of a stock that have arrived. -/
def ExchangeState.Arrived (ex : ExchangeState P) (stkCode : Int) (order : Order P) : Prop :=
  order.stkCode = stkCode ∧ ∃ traderIdx, order ∈ ex.received traderIdx

variable [LinearOrder P] [Zero P]

/-- The invariant of an exchange: nothing was reported, every message is about a
stock of the exchange, and every such stock is served. -/
structure Serving (algorithms : HeapAlgorithms) (config : Config) (partitionIdx : Nat)
    (ex : ExchangeState P) : Prop where
  quiet : ex.cerr = []
  origin : ∀ msg ∈ ex.sent, config.Owns partitionIdx msg.stkCode
  serves : ∀ s, config.Owns partitionIdx s →
    Serves algorithms config.slidingWindowSize s (ex.orderBuffer s) (ex.threads s)
      (ex.Arrived s) (acksOf s ex.sent) (tradesOf s ex.sent)

variable {algorithms : HeapAlgorithms} {config : Config} {partitionIdx : Nat}
  {ex ex' : ExchangeState P} {stkCode : Int}

theorem Serving.new (algorithms : HeapAlgorithms) (config : Config) (partitionIdx : Nat) :
    Serving algorithms config partitionIdx (ExchangeState.new config : ExchangeState P) where
  quiet := rfl
  origin := by
    intro msg member
    cases member
  serves := by
    intro s _
    have serves := Serves.new (P := P) algorithms config.slidingWindowSize s
    have none : (ExchangeState.new config : ExchangeState P).Arrived s = fun _ => False := by
      funext o
      simp [ExchangeState.Arrived, ExchangeState.new]
    rw [none]
    exact serves

/-- A step of the thread of one stock, which may put messages about it. -/
theorem Serving.update (serving : Serving algorithms config partitionIdx ex)
    (owns : config.Owns partitionIdx stkCode) {window : SlidingWindow (Order P)}
    {thread : StockThread P} (new : List (Msg P)) (about : ∀ msg ∈ new, msg.stkCode = stkCode)
    (serves : Serves algorithms config.slidingWindowSize stkCode window thread
      (ex.Arrived stkCode) (acksOf stkCode (ex.sent ++ new)) (tradesOf stkCode (ex.sent ++ new)))
    (buffer : ex'.orderBuffer = Function.update ex.orderBuffer stkCode window)
    (threads : ex'.threads = Function.update ex.threads stkCode thread)
    (sent : ex'.sent = ex.sent ++ new) (received : ex'.received = ex.received)
    (cerr : ex'.cerr = ex.cerr) : Serving algorithms config partitionIdx ex' := by
  constructor
  · exact cerr.trans serving.quiet
  · intro msg member
    rw [sent] at member
    rcases List.mem_append.mp member with old | isNew
    · exact serving.origin msg old
    · rw [about msg isNew]
      exact owns
  · intro s ownsS
    have sameArrived : ex'.Arrived s = ex.Arrived s := by
      funext o
      simp only [ExchangeState.Arrived, received]
    rw [buffer, threads, sent, sameArrived]
    by_cases same : s = stkCode
    · subst same
      rw [Function.update_self, Function.update_self]
      exact serves
    · have foreign : ∀ msg ∈ new, msg.stkCode ≠ s := fun msg isNew equal =>
        same (equal.symm.trans (about msg isNew))
      rw [Function.update_of_ne same, Function.update_of_ne same, acksOf_append,
        tradesOf_append, acksOf_eq_nil foreign, tradesOf_eq_nil foreign, List.append_nil,
        List.append_nil]
      exact serving.serves s ownsS

/-- What a step of a stock thread does to the rest of the process: it puts
messages and receives nothing. -/
structure Puts (ex ex' : ExchangeState P) (new : List (Msg P)) : Prop where
  sent : ex'.sent = ex.sent ++ new
  msgQueue : ex'.msgQueue = ex.msgQueue ++ new
  sending : ex'.sending = ex.sending
  received : ex'.received = ex.received

/-- A step of a stock thread that puts nothing and leaves the window. -/
theorem Serving.setThread (serving : Serving algorithms config partitionIdx ex)
    (owns : config.Owns partitionIdx stkCode) {thread : StockThread P}
    (served : Serves algorithms config.slidingWindowSize stkCode (ex.orderBuffer stkCode) thread
      (ex.Arrived stkCode) (acksOf stkCode ex.sent) (tradesOf stkCode ex.sent)) :
    Serving algorithms config partitionIdx (ex.setThread stkCode thread) ∧
      ∃ new, Puts ex (ex.setThread stkCode thread) new := by
  have sameBuffer := (Function.update_eq_self stkCode ex.orderBuffer).symm
  constructor
  · exact serving.update owns [] (by simp) (by simpa using served) sameBuffer rfl
      (List.append_nil _).symm rfl rfl
  · use []
    constructor <;> simp [ExchangeState.setThread]

/-- A step of a stock thread that puts a message about its stock. -/
theorem Serving.putMsg (serving : Serving algorithms config partitionIdx ex)
    (owns : config.Owns partitionIdx stkCode) {thread : StockThread P} {msg : Msg P}
    (about : msg.stkCode = stkCode)
    (served : Serves algorithms config.slidingWindowSize stkCode (ex.orderBuffer stkCode) thread
      (ex.Arrived stkCode) (acksOf stkCode (ex.sent ++ [msg]))
      (tradesOf stkCode (ex.sent ++ [msg]))) :
    Serving algorithms config partitionIdx ((ex.putMsg msg).setThread stkCode thread) ∧
      ∃ new, Puts ex ((ex.putMsg msg).setThread stkCode thread) new := by
  have sameBuffer := (Function.update_eq_self stkCode ex.orderBuffer).symm
  constructor
  · exact serving.update owns [msg] (by simpa using about) served sameBuffer rfl rfl rfl rfl
  · exact ⟨[msg], rfl, rfl, rfl, rfl⟩

/-- A step of a stock thread. -/
theorem Serving.work (serving : Serving algorithms config partitionIdx ex)
    (owns : config.Owns partitionIdx stkCode)
    (step : ex.work algorithms config stkCode = some ex') :
    Serving algorithms config partitionIdx ex' ∧ ∃ new, Puts ex ex' new := by
  have serves := serving.serves stkCode owns
  unfold ExchangeState.work at step
  simp only at step
  split at step
  · -- polling
    rename_i orders consuming
    unfold ExchangeState.pollSlot at step
    split at step
    · rename_i order window polled
      cases step
      constructor
      · exact serving.update owns [] (by simp)
          (by simpa using serves.poll consuming polled) rfl rfl (List.append_nil _).symm rfl rfl
      · use []
        constructor <;> simp [ExchangeState.setThread]
    · split at step
      · cases step
      · cases step
        apply serving.setThread owns
        apply serves.setPhase <;> rw [consuming] <;> rfl
  · -- acknowledging
    rename_i orders acking
    unfold ExchangeState.ackOrders at step
    split at step
    · cases step
    · rename_i last isLast
      split at step
      · cases step
        have acked := serves.ack acking isLast
        have ownAck : acksOf stkCode [(Msg.ack ⟨stkCode, last.orderId⟩ : Msg P)] =
            [last.orderId] := acksOf_ack_self rfl
        apply serving.putMsg owns rfl
        rw [acksOf_append, tradesOf_append, ownAck, tradesOf_ack, List.append_nil]
        exact acked
      · cases step
  · -- putting a trade
    rename_i orders trade pending receiving
    unfold ExchangeState.produceTrade at step
    split at step
    · cases step
      rcases serves.produce receiving with ⟨ownStock, produced⟩
      have about : (Msg.trade trade).stkCode = stkCode := ownStock
      apply serving.putMsg owns about
      rw [acksOf_append, tradesOf_append, tradesOf_trade_self ownStock, acksOf_trade,
        List.append_nil]
      exact produced
    · cases step
  · -- calling the engine
    rename_i order rest receiving
    cases step
    unfold ExchangeState.receiveNext
    split
    · constructor
      · exact ⟨serving.quiet, serving.origin, serving.serves⟩
      · use []
        constructor <;> simp
    · rename_i received returned
      apply serving.setThread owns
      exact serves.receiveNext (fun o isArrived => isArrived.1) receiving returned
  · rename_i receiving
    cases step
    apply serving.setThread owns
    apply serves.setPhase <;> rw [receiving] <;> rfl

omit [LinearOrder P] [Zero P] in
/-- What has arrived after an order is received. -/
theorem arrived_receiveOrder (config : Config) (partitionIdx : Nat) (ex : ExchangeState P)
    (traderIdx : Nat) (order : Order P) (s : Int) (o : Order P) :
    (ex.receiveOrder config partitionIdx traderIdx order).Arrived s o ↔
      ex.Arrived s o ∨ (s = order.stkCode ∧ o = order) := by
  have received : (ex.receiveOrder config partitionIdx traderIdx order).received =
      Function.update ex.received traderIdx (ex.received traderIdx ++ [order]) := rfl
  have member : ∀ traderIdx',
      o ∈ (ex.receiveOrder config partitionIdx traderIdx order).received traderIdx' ↔
        o ∈ ex.received traderIdx' ∨ (traderIdx' = traderIdx ∧ o = order) := by
    intro traderIdx'
    rw [received]
    by_cases same : traderIdx' = traderIdx
    · rw [same, Function.update_self]
      simp
    · rw [Function.update_of_ne same]
      simp [same]
  simp only [ExchangeState.Arrived, member]
  constructor
  · rintro ⟨ofStock, traderIdx', old | ⟨_, isOrder⟩⟩
    · exact Or.inl ⟨ofStock, traderIdx', old⟩
    · exact Or.inr ⟨by rw [← ofStock, isOrder], isOrder⟩
  · rintro (⟨ofStock, traderIdx', old⟩ | ⟨ofStock, isOrder⟩)
    · exact ⟨ofStock, traderIdx', Or.inl old⟩
    · exact ⟨by rw [isOrder, ofStock], traderIdx, Or.inr ⟨rfl, isOrder⟩⟩

/-- The arrival of a new order that fits into its window. -/
theorem Serving.receiveOrder (serving : Serving algorithms config partitionIdx ex)
    {traderIdx : Nat} {order : Order P} (owns : config.Owns partitionIdx order.stkCode)
    (fresh : ∀ o, ex.Arrived order.stkCode o → o.orderId ≠ order.orderId)
    (positive : 1 ≤ order.orderId)
    (within : order.orderId ≤
      (ex.threads order.stkCode).polled.length + config.slidingWindowSize) :
    Serving algorithms config partitionIdx
      (ex.receiveOrder config partitionIdx traderIdx order) := by
  rcases (serving.serves order.stkCode owns).arrive fresh positive within with
    ⟨window, put, serves⟩
  have buffered : ex.bufferOrder config partitionIdx order = .ok window := by
    rw [ExchangeState.bufferOrder, if_pos owns]
    exact put
  constructor
  · simp only [ExchangeState.receiveOrder, buffered]
    exact serving.quiet
  · simp only [ExchangeState.receiveOrder, buffered]
    exact serving.origin
  · intro s ownsS
    have arrived : (ex.receiveOrder config partitionIdx traderIdx order).Arrived s =
        fun o => ex.Arrived s o ∨ (s = order.stkCode ∧ o = order) :=
      funext fun o => propext (arrived_receiveOrder config partitionIdx ex traderIdx order s o)
    rw [arrived]
    simp only [ExchangeState.receiveOrder, buffered]
    by_cases same : s = order.stkCode
    · subst same
      simp only [Function.update_self, true_and]
      exact serves
    · simp only [Function.update_of_ne same, same, false_and, or_false]
      exact serving.serves s ownsS

/-- The trade sender changes neither the stocks nor the log of messages. -/
theorem Serving.sender (serving : Serving algorithms config partitionIdx ex)
    (buffer : ex'.orderBuffer = ex.orderBuffer) (threads : ex'.threads = ex.threads)
    (sent : ex'.sent = ex.sent) (received : ex'.received = ex.received)
    (cerr : ex'.cerr = ex.cerr) : Serving algorithms config partitionIdx ex' := by
  constructor
  · exact cerr.trans serving.quiet
  · rw [sent]
    exact serving.origin
  · intro s ownsS
    have sameArrived : ex'.Arrived s = ex.Arrived s := by
      funext o
      simp only [ExchangeState.Arrived, received]
    rw [buffer, threads, sent, sameArrived]
    exact serving.serves s ownsS

end Serving

/-! ## The messages on their way -/

section Sender

variable {config : Config} {ex ex' : ExchangeState P} {traderIdx : Nat}

/-- The messages an exchange has put and not yet sent to a trader. -/
def ExchangeState.unsent (ex : ExchangeState P) (traderIdx : Nat) : List (Msg P) :=
  (match ex.sending with
    | none => []
    | some (msg, idx) => if idx ≤ traderIdx then [msg] else []) ++ ex.msgQueue

theorem Puts.unsent {new : List (Msg P)} (puts : Puts ex ex' new) (traderIdx : Nat) :
    ex'.unsent traderIdx = ex.unsent traderIdx ++ new := by
  rw [ExchangeState.unsent, ExchangeState.unsent, puts.sending, puts.msgQueue,
    List.append_assoc]

theorem receiveOrder_sender (config : Config) (partitionIdx : Nat) (ex : ExchangeState P)
    (traderIdx : Nat) (order : Order P) :
    (ex.receiveOrder config partitionIdx traderIdx order).sent = ex.sent ∧
      (ex.receiveOrder config partitionIdx traderIdx order).unsent = ex.unsent := by
  simp only [ExchangeState.receiveOrder]
  split <;> exact ⟨rfl, rfl⟩

theorem takeMsg_frame (step : ex.takeMsg config = some ex') :
    ex'.orderBuffer = ex.orderBuffer ∧ ex'.threads = ex.threads ∧ ex'.sent = ex.sent ∧
      ex'.received = ex.received ∧ ex'.cerr = ex.cerr := by
  unfold ExchangeState.takeMsg at step
  split at step
  · cases step
    exact ⟨rfl, rfl, rfl, rfl, rfl⟩
  · cases step

theorem sendMsg_frame {sending : Msg P × Nat} (step : ex.sendMsg config = some (sending, ex')) :
    ex'.orderBuffer = ex.orderBuffer ∧ ex'.threads = ex.threads ∧ ex'.sent = ex.sent ∧
      ex'.received = ex.received ∧ ex'.cerr = ex.cerr := by
  unfold ExchangeState.sendMsg at step
  split at step
  · cases step
  · cases step
    exact ⟨rfl, rfl, rfl, rfl, rfl⟩

theorem unsent_takeMsg (inRange : traderIdx < config.traderNum)
    (step : ex.takeMsg config = some ex') : ex'.unsent traderIdx = ex.unsent traderIdx := by
  unfold ExchangeState.takeMsg at step
  split at step
  · rename_i msg rest idle queued
    cases step
    have someTrader : 0 < config.traderNum := by omega
    simp [ExchangeState.unsent, someTrader, idle, queued]
  · cases step

theorem unsent_sendMsg {msg : Msg P} {idx : Nat} (inRange : traderIdx < config.traderNum)
    (step : ex.sendMsg config = some ((msg, idx), ex')) :
    ex.unsent traderIdx =
      (if traderIdx = idx then [msg] else []) ++ ex'.unsent traderIdx := by
  unfold ExchangeState.sendMsg at step
  split at step
  · cases step
  · rename_i sending
    cases step
    simp only [ExchangeState.unsent, sending]
    rcases Nat.lt_trichotomy traderIdx idx with before | same | after
    · have notNow : ¬ idx ≤ traderIdx := by omega
      have notLater : ¬ idx + 1 ≤ traderIdx := by omega
      have different : traderIdx ≠ idx := by omega
      by_cases goesOn : idx + 1 < config.traderNum <;>
        simp [notNow, notLater, different, goesOn]
    · subst same
      by_cases goesOn : traderIdx + 1 < config.traderNum <;> simp [goesOn]
    · have now : idx ≤ traderIdx := by omega
      have later : idx + 1 ≤ traderIdx := by omega
      have goesOn : idx + 1 < config.traderNum := by omega
      have different : traderIdx ≠ idx := by omega
      simp [now, later, goesOn, different]

end Sender

end PpiwTrading.Exchange
