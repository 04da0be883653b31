import PpiwTrading.Exchange.PriceTimePriority
import PpiwTrading.Sequence.Numbered

/-!
# The order buffer of a stock exchange

`receiveOrder` keeps the orders that have arrived too early in a heap by order
id and commits, after each arrival, as many orders as are next in line.  The
orders handed to `commitOrder` are therefore 1, 2, 3, … whatever the order of
arrival is, and so are the trades, the book and the buffer.

The last two fields of `Received` are a log: the trades that were produced and
the orders that `commitOrder` was called with.
-/

namespace PpiwTrading.Exchange

open PpiwTrading.Heap
open PpiwTrading.Sequence
open PpiwTrading.Exchange.Reference

variable {P : Type}

def orderGtById (o1 o2 : Order P) : Bool :=
  decide (o1.orderId > o2.orderId)

structure StockExchange (P : Type) where
  stkCode : Int
  declBook : StockDeclarationBook P
  notReadyOrders : List (Order P)
  lastCommitOrderId : Int

/-- `StockExchange::StockExchange`. -/
def StockExchange.new (stkCode : Int) : StockExchange P :=
  ⟨stkCode, StockDeclarationBook.empty, [], 0⟩

/-- A stock exchange after it has received orders. -/
structure Received (P : Type) where
  exchange : StockExchange P
  ret : Int
  trades : List (Trade P)
  committed : List (Order P)

section Definitions

variable [LinearOrder P] [Zero P] (algorithms : HeapAlgorithms)

/-- The loop of `receiveOrder`. -/
def drain : Nat → Received P → Except Fault (Received P)
  | 0, _ => .error .loopBound
  | bound + 1, state =>
      match state.exchange.notReadyOrders with
      | [] => .ok state
      | front :: _ =>
          if state.exchange.lastCommitOrderId + 1 ≠ front.orderId then .ok state
          else do
            let outcome ← commitOrder algorithms state.exchange.stkCode state.exchange.declBook
              front
            drain bound
              { exchange :=
                  { state.exchange with
                    declBook := outcome.book
                    notReadyOrders :=
                      algorithms.removeFirst orderGtById state.exchange.notReadyOrders
                    lastCommitOrderId := state.exchange.lastCommitOrderId + 1 }
                ret := outcome.ret
                trades := state.trades ++ outcome.trades
                committed := state.committed ++ [front] }

/-- `StockExchange::receiveOrder`. -/
def receiveOrder (exchange : StockExchange P) (order : Order P) : Except Fault (Received P) :=
  if order.stkCode ≠ exchange.stkCode then .error .wrongStock
  else
    let notReadyOrders := algorithms.insert orderGtById exchange.notReadyOrders order
    drain algorithms (notReadyOrders.length + 1)
      ⟨{ exchange with notReadyOrders := notReadyOrders }, 0, [], []⟩

/-- Receive orders one after another. -/
def receiveOrders : StockExchange P → List (Order P) → Except Fault (Received P)
  | exchange, [] => .ok ⟨exchange, 0, [], []⟩
  | exchange, order :: rest => do
      let first ← receiveOrder algorithms exchange order
      let last ← receiveOrders first.exchange rest
      pure
        { last with
          trades := first.trades ++ last.trades
          committed := first.committed ++ last.committed }

end Definitions

theorem orderGtById_strictWeak : StrictWeak (orderGtById (P := P)) where
  asymm := by
    intro o p greater
    simp only [orderGtById, decide_eq_true_eq, decide_eq_false_iff_not] at greater ⊢
    omega
  negTrans := by
    intro o p q first second
    simp only [orderGtById, decide_eq_false_iff_not] at first second ⊢
    omega

/-- The front of the buffer has its smallest id. -/
theorem orderId_front_le {front : Order P} {rest : List (Order P)}
    (isHeap : IsHeap orderGtById (front :: rest)) :
    ∀ o ∈ front :: rest, front.orderId ≤ o.orderId := by
  intro o member
  have maximal := isHeap.front_maximal orderGtById_strictWeak o member
  simp only [orderGtById, decide_eq_false_iff_not] at maximal
  omega

/-! ## Batches of orders -/

/-- The orders 1 to `k` of those that have arrived, in order. -/
def Batch (arrived batch : List (Order P)) : Prop :=
  batch.map Order.orderId = idsUpTo batch.length ∧ ∀ o ∈ batch, o ∈ arrived

theorem Batch.nil (arrived : List (Order P)) : Batch arrived [] :=
  ⟨rfl, by simp⟩

theorem Batch.mono {arrived more batch : List (Order P)} (isBatch : Batch arrived batch)
    (subset : arrived ⊆ more) : Batch more batch :=
  ⟨isBatch.1, fun o member => subset (isBatch.2 o member)⟩

theorem Batch.snoc {arrived batch : List (Order P)} {order : Order P}
    (isBatch : Batch arrived batch) (member : order ∈ arrived)
    (next : order.orderId = batch.length + 1) : Batch arrived (batch ++ [order]) := by
  constructor
  · rw [List.map_append, isBatch.1, List.length_append, List.length_singleton, idsUpTo_succ]
    simp [next]
  · intro o inBatch
    rcases List.mem_append.mp inBatch with old | new
    · exact isBatch.2 o old
    · rwa [List.mem_singleton.mp new]

/-- Two batches of the same arrivals agree as far as both go. -/
theorem Batch.isPrefix {arrived first second : List (Order P)}
    (distinct : (arrived.map Order.orderId).Nodup) (isFirst : Batch arrived first)
    (isSecond : Batch arrived second) (le : first.length ≤ second.length) :
    first <+: second :=
  isPrefix_of_numbered isFirst.1 isSecond.1
    (fun _ inFirst _ inSecond =>
      List.inj_on_of_nodup_map distinct (isFirst.2 _ inFirst) (isSecond.2 _ inSecond)) le

/-! ## The invariant of the buffer -/

section Invariant

variable [LinearOrder P] [Zero P] (algorithms : HeapAlgorithms)

/-- A stock exchange whose committed orders are the first of those that have
arrived, with the rest of them in the buffer. -/
structure Draining (stkCode : Int) (arrived : List (Order P)) (exchange : StockExchange P)
    (trades : List (Trade P)) (committed : List (Order P)) : Prop where
  stkCode_eq : exchange.stkCode = stkCode
  last : exchange.lastCommitOrderId = committed.length
  batch : Batch arrived committed
  isHeap : IsHeap orderGtById exchange.notReadyOrders
  buffered : exchange.notReadyOrders.Perm
    (arrived.filter fun o => exchange.lastCommitOrderId < o.orderId)
  effect : commitOrders algorithms stkCode StockDeclarationBook.empty committed =
    .ok (exchange.declBook, trades)

/-- The same between two arrivals: the next order is not there yet. -/
structure Drained (stkCode : Int) (arrived : List (Order P)) (exchange : StockExchange P)
    (trades : List (Trade P)) (committed : List (Order P)) : Prop
    extends Draining algorithms stkCode arrived exchange trades committed where
  maximal : ∀ o ∈ arrived, o.orderId ≠ exchange.lastCommitOrderId + 1

/-- A commit that fails inside a batch, so that committing the batch fails. -/
def FailsOn (stkCode : Int) (arrived : List (Order P)) (fault : Fault) : Prop :=
  ∃ batch, Batch arrived batch ∧
    commitOrders algorithms stkCode StockDeclarationBook.empty batch = .error fault

variable {algorithms} {stkCode : Int} {arrived : List (Order P)} {exchange : StockExchange P}
  {trades : List (Trade P)} {committed : List (Order P)}

theorem Drained.new (stkCode : Int) :
    Drained algorithms stkCode ([] : List (Order P)) (StockExchange.new stkCode) [] [] where
  stkCode_eq := rfl
  last := rfl
  batch := Batch.nil []
  isHeap := isHeap_nil
  buffered := List.Perm.nil
  effect := rfl
  maximal := by simp

/-- An order with a fresh positive id goes to the buffer. -/
theorem Draining.arrive (drained : Draining algorithms stkCode arrived exchange trades committed)
    {order : Order P} (positive : 1 ≤ order.orderId)
    (fresh : order.orderId ∉ arrived.map Order.orderId) :
    Draining algorithms stkCode (arrived ++ [order])
      { exchange with
        notReadyOrders := algorithms.insert orderGtById exchange.notReadyOrders order }
      trades committed where
  stkCode_eq := drained.stkCode_eq
  last := drained.last
  batch := drained.batch.mono (List.subset_append_left arrived [order])
  isHeap := algorithms.insert_isHeap orderGtById_strictWeak drained.isHeap order
  effect := drained.effect
  buffered := by
    have late : exchange.lastCommitOrderId < order.orderId := by
      by_contra early
      have inBatch : order.orderId ∈ committed.map Order.orderId := by
        rw [drained.batch.1, mem_idsUpTo]
        have last := drained.last
        omega
      obtain ⟨o, member, sameId⟩ := List.mem_map.mp inBatch
      exact fresh (List.mem_map.mpr ⟨o, drained.batch.2 o member, sameId⟩)
    have inserted := algorithms.insert_perm orderGtById_strictWeak drained.isHeap order
    rw [List.filter_append, List.filter_cons_of_pos (by simpa using late), List.filter_nil]
    exact inserted.trans ((drained.buffered.cons order).trans
      (List.perm_append_singleton order _).symm)

/-- One turn of the loop commits the order that is next. -/
theorem Draining.commit (draining : Draining algorithms stkCode arrived exchange trades committed)
    (distinct : (arrived.map Order.orderId).Nodup) {front : Order P} {rest : List (Order P)}
    (buffer : exchange.notReadyOrders = front :: rest)
    (next : exchange.lastCommitOrderId + 1 = front.orderId) :
    front ∈ arrived ∧ Batch arrived (committed ++ [front]) ∧
    ∀ outcome, commitOrder algorithms stkCode exchange.declBook front = .ok outcome →
      Draining algorithms stkCode arrived
        { exchange with
          declBook := outcome.book
          notReadyOrders := algorithms.removeFirst orderGtById exchange.notReadyOrders
          lastCommitOrderId := exchange.lastCommitOrderId + 1 }
        (trades ++ outcome.trades) (committed ++ [front]) := by
  have inArrived : front ∈ arrived :=
    List.mem_of_mem_filter (draining.buffered.subset (by simp [buffer]))
  have last := draining.last
  have isBatch : Batch arrived (committed ++ [front]) :=
    draining.batch.snoc inArrived (by omega)
  refine ⟨inArrived, isBatch, ?_⟩
  intro outcome returned
  have isHeap : IsHeap orderGtById (front :: rest) := buffer ▸ draining.isHeap
  constructor
  · exact draining.stkCode_eq
  · simp [last]
  · exact isBatch
  · rw [buffer]
    exact algorithms.removeFirst_isHeap orderGtById_strictWeak isHeap
  · have nodup : arrived.Nodup := distinct.of_map _
    have remaining : (arrived.filter fun o => exchange.lastCommitOrderId < o.orderId).Perm
        (front :: arrived.filter fun o => exchange.lastCommitOrderId + 1 < o.orderId) := by
      refine (List.perm_ext_iff_of_nodup (nodup.filter _) ?_).mpr ?_
      · exact List.nodup_cons.mpr ⟨by simp [next], nodup.filter _⟩
      · intro o
        simp only [List.mem_cons, List.mem_filter, decide_eq_true_eq]
        constructor
        · rintro ⟨member, later⟩
          by_cases same : o.orderId = front.orderId
          · exact Or.inl (List.inj_on_of_nodup_map distinct member inArrived same)
          · exact Or.inr ⟨member, by omega⟩
        · rintro (rfl | ⟨member, later⟩)
          · exact ⟨inArrived, by omega⟩
          · exact ⟨member, by omega⟩
    have removed := algorithms.removeFirst_perm orderGtById_strictWeak isHeap
    have rested := (buffer ▸ draining.buffered).trans remaining
    simp only [buffer]
    exact removed.trans rested.cons_inv
  · rw [commitOrders_append, draining.effect]
    simp [commitOrders, returned]

/-- A fault of the next commit is a fault of the batch it completes. -/
theorem Draining.fails (draining : Draining algorithms stkCode arrived exchange trades committed)
    {front : Order P} (isBatch : Batch arrived (committed ++ [front])) {fault : Fault}
    (failed : commitOrder algorithms stkCode exchange.declBook front = .error fault) :
    FailsOn algorithms stkCode arrived fault := by
  refine ⟨committed ++ [front], isBatch, ?_⟩
  rw [commitOrders_append, draining.effect]
  simp [commitOrders, failed]

/-- The outcome of receiving, after `trades` and `committed`. -/
def Receives (algorithms : HeapAlgorithms) (stkCode : Int) (arrived : List (Order P))
    (trades : List (Trade P)) (committed : List (Order P)) :
    Except Fault (Received P) → Prop
  | .ok state => Drained algorithms stkCode arrived state.exchange (trades ++ state.trades)
      (committed ++ state.committed)
  | .error fault => FailsOn algorithms stkCode arrived fault

/-- The loop ends with the buffer drained, unless a commit fails. -/
theorem drain_receives (distinct : (arrived.map Order.orderId).Nodup) (bound : Nat) :
    ∀ state : Received P,
      Draining algorithms stkCode arrived state.exchange (trades ++ state.trades)
        (committed ++ state.committed) →
      state.exchange.notReadyOrders.length < bound →
      Receives algorithms stkCode arrived trades committed (drain algorithms bound state) := by
  induction bound with
  | zero =>
      intro state _ enough
      exact absurd enough (Nat.not_lt_zero _)
  | succ bound inductionHypothesis =>
      intro state draining enough
      rw [drain]
      cases buffer : state.exchange.notReadyOrders with
      | nil =>
          refine ⟨draining, ?_⟩
          intro o member isNext
          have empty := draining.buffered
          rw [buffer] at empty
          have buffered : o ∈ ([] : List (Order P)) :=
            empty.mem_iff.mpr (by simp [member, isNext])
          contradiction
      | cons front rest =>
          simp only
          by_cases next : state.exchange.lastCommitOrderId + 1 = front.orderId
          · rw [if_neg (not_not.mpr next), draining.stkCode_eq]
            obtain ⟨_, isBatch, continues⟩ := draining.commit distinct buffer next
            cases returned : commitOrder algorithms stkCode state.exchange.declBook front with
            | error fault => exact draining.fails isBatch returned
            | ok outcome =>
                have draining' := continues outcome returned
                rw [List.append_assoc, List.append_assoc, draining.stkCode_eq, buffer] at draining'
                apply inductionHypothesis _ draining'
                have isHeap : IsHeap orderGtById (front :: rest) := buffer ▸ draining.isHeap
                have shorter :=
                  (algorithms.removeFirst_perm orderGtById_strictWeak isHeap).length_eq
                rw [buffer, List.length_cons] at enough
                simp only [shorter]
                omega
          · -- the smallest buffered id is not next, so the next order is not there
            rw [if_pos next]
            refine ⟨draining, ?_⟩
            intro o member isNext
            have buffered : o ∈ front :: rest := by
              rw [← buffer]
              exact draining.buffered.mem_iff.mpr (by simp [member, isNext])
            have smallest := orderId_front_le (buffer ▸ draining.isHeap) o buffered
            have late : front ∈ arrived.filter fun o =>
                state.exchange.lastCommitOrderId < o.orderId :=
              draining.buffered.subset (by simp [buffer])
            have later := (List.mem_filter.mp late).2
            simp only [decide_eq_true_eq] at later
            omega

/-- One arrival. -/
theorem receiveOrder_receives
    (drained : Drained algorithms stkCode arrived exchange trades committed) {order : Order P}
    (stock : order.stkCode = stkCode) (positive : 1 ≤ order.orderId)
    (distinct : ((arrived ++ [order]).map Order.orderId).Nodup) :
    Receives algorithms stkCode (arrived ++ [order]) trades committed
      (receiveOrder algorithms exchange order) := by
  have fresh : order.orderId ∉ arrived.map Order.orderId := by
    rw [List.map_append, List.nodup_append] at distinct
    intro member
    exact distinct.2.2 _ member order.orderId (by simp) rfl
  have arrivedDraining := drained.toDraining.arrive positive fresh
  rw [receiveOrder, if_neg (by rw [stock, drained.stkCode_eq]; simp)]
  apply drain_receives distinct
  · simpa using arrivedDraining
  · exact Nat.lt_succ_self _

/-- Any number of arrivals. -/
theorem receiveOrders_receives {arrivals : List (Order P)}
    (drained : Drained algorithms stkCode arrived exchange trades committed)
    (stocks : ∀ o ∈ arrivals, o.stkCode = stkCode) (positive : ∀ o ∈ arrivals, 1 ≤ o.orderId)
    (distinct : ((arrived ++ arrivals).map Order.orderId).Nodup) :
    Receives algorithms stkCode (arrived ++ arrivals) trades committed
      (receiveOrders algorithms exchange arrivals) := by
  induction arrivals generalizing arrived exchange trades committed with
  | nil => simpa [receiveOrders, Receives] using drained
  | cons order rest inductionHypothesis =>
      rw [← List.singleton_append, ← List.append_assoc] at distinct ⊢
      have first := receiveOrder_receives drained (stocks order (by simp))
        (positive order (by simp)) (List.map_append ▸ distinct).of_append_left
      rw [List.singleton_append, receiveOrders]
      cases received : receiveOrder algorithms exchange order with
      | error fault =>
          rw [received] at first
          obtain ⟨batch, isBatch, failed⟩ := first
          exact ⟨batch, isBatch.mono (List.subset_append_left _ _), failed⟩
      | ok state =>
          rw [received] at first
          have continued := inductionHypothesis first
            (fun o member => stocks o (List.mem_cons_of_mem order member))
            (fun o member => positive o (List.mem_cons_of_mem order member)) distinct
          simp only [ok_bind]
          cases later : receiveOrders algorithms state.exchange rest with
          | error fault =>
              rw [later] at continued
              exact continued
          | ok final =>
              rw [later] at continued
              simpa [Receives] using continued

/-! ## Arrival order -/

/-- Committing a batch cannot fail when a longer batch is committed. -/
theorem FailsOn.of_longer {fault : Fault} {longer : List (Order P)}
    (distinct : (arrived.map Order.orderId).Nodup) {batch : List (Order P)}
    (isBatch : Batch arrived batch) (isLonger : Batch arrived longer)
    (le : batch.length ≤ longer.length)
    (failed : commitOrders algorithms stkCode StockDeclarationBook.empty batch = .error fault) :
    commitOrders algorithms stkCode StockDeclarationBook.empty longer = .error fault := by
  obtain ⟨rest, rfl⟩ := isBatch.isPrefix distinct isLonger le
  rw [commitOrders_append, failed]
  rfl

/-- No batch is longer than the committed orders of a drained exchange. -/
theorem Drained.longest (drained : Drained algorithms stkCode arrived exchange trades committed)
    {batch : List (Order P)} (isBatch : Batch arrived batch) :
    batch.length ≤ committed.length := by
  by_contra longer
  have next : ((committed.length : Int) + 1) ∈ batch.map Order.orderId := by
    rw [isBatch.1, mem_idsUpTo]
    omega
  obtain ⟨o, member, isNext⟩ := List.mem_map.mp next
  exact drained.maximal o (isBatch.2 o member) (by rw [isNext, drained.last])

/-- Orders that arrive in order are committed as they arrive. -/
theorem Drained.eq_arrived
    (drained : Drained algorithms stkCode arrived exchange trades committed)
    (numbered : arrived.map Order.orderId = idsUpTo arrived.length) : committed = arrived := by
  have whole : Batch arrived arrived := ⟨numbered, fun _ member => member⟩
  have distinct : (arrived.map Order.orderId).Nodup := by
    rw [numbered]
    exact idsUpTo_nodup _
  have atMost : committed.length ≤ arrived.length := by
    by_contra longer
    have isId : (committed.length : Int) ∈ committed.map Order.orderId := by
      rw [drained.batch.1, mem_idsUpTo]
      omega
    rcases List.mem_map.mp isId with ⟨o, member, sameId⟩
    have inArrived := List.mem_map_of_mem (f := Order.orderId) (drained.batch.2 o member)
    rw [numbered, sameId, mem_idsUpTo] at inArrived
    omega
  have isPrefix := drained.batch.isPrefix distinct whole atMost
  exact isPrefix.eq_of_length (Nat.le_antisymm atMost (drained.longest whole))

/-- Two ends of the same arrivals. -/
def SameEnd : Except Fault (Received P) → Except Fault (Received P) → Prop
  | .ok first, .ok second =>
      first.trades = second.trades ∧ first.exchange.declBook = second.exchange.declBook ∧
        first.exchange.lastCommitOrderId = second.exchange.lastCommitOrderId ∧
        first.exchange.notReadyOrders.Perm second.exchange.notReadyOrders
  | .error first, .error second => first = second
  | _, _ => False

/-- What was received decides the end, not the order it was received in. -/
theorem Receives.sameEnd {first second : Except Fault (Received P)} {other : List (Order P)}
    (distinct : (arrived.map Order.orderId).Nodup) (perm : other.Perm arrived)
    (isFirst : Receives algorithms stkCode other [] [] first)
    (isSecond : Receives algorithms stkCode arrived [] [] second) : SameEnd first second := by
  have back : ∀ {batch}, Batch other batch → Batch arrived batch :=
    fun isBatch => isBatch.mono perm.subset
  have forth : ∀ {batch}, Batch arrived batch → Batch other batch :=
    fun isBatch => isBatch.mono perm.symm.subset
  cases first with
  | error firstFault =>
      obtain ⟨firstBatch, firstIsBatch, firstFails⟩ := isFirst
      cases second with
      | error secondFault =>
          obtain ⟨secondBatch, secondIsBatch, secondFails⟩ := isSecond
          rcases Nat.le_total firstBatch.length secondBatch.length with le | le
          · have fails := FailsOn.of_longer distinct (back firstIsBatch) secondIsBatch le firstFails
            rw [secondFails] at fails
            exact (Except.error.inj fails).symm
          · have fails := FailsOn.of_longer distinct secondIsBatch (back firstIsBatch) le
              secondFails
            rw [firstFails] at fails
            exact Except.error.inj fails
      | ok state =>
          have fails := FailsOn.of_longer distinct (back firstIsBatch) isSecond.batch
            (isSecond.longest (back firstIsBatch)) firstFails
          rw [isSecond.effect] at fails
          cases fails
  | ok firstState =>
      cases second with
      | error fault =>
          obtain ⟨batch, isBatch, failed⟩ := isSecond
          have fails := FailsOn.of_longer distinct isBatch (back isFirst.batch)
            (isFirst.longest (forth isBatch)) failed
          rw [isFirst.effect] at fails
          cases fails
      | ok secondState =>
          have sameLength : firstState.committed.length = secondState.committed.length :=
            Nat.le_antisymm (isSecond.longest (back isFirst.batch))
              (isFirst.longest (forth isSecond.batch))
          have same : firstState.committed = secondState.committed :=
            (Batch.isPrefix distinct (back isFirst.batch) isSecond.batch
              sameLength.le).eq_of_length sameLength
          have sameLast : firstState.exchange.lastCommitOrderId =
              secondState.exchange.lastCommitOrderId := by
            rw [isFirst.last, isSecond.last]
            simp [same]
          have effects := isFirst.effect
          simp only [List.nil_append, same] at effects
          have effects' := isSecond.effect
          simp only [List.nil_append, effects] at effects'
          obtain ⟨sameBook, sameTrades⟩ := Prod.mk.inj (Except.ok.inj effects')
          refine ⟨sameTrades, sameBook, sameLast, ?_⟩
          have buffered := isFirst.buffered
          rw [sameLast] at buffered
          exact (buffered.trans (perm.filter _)).trans isSecond.buffered.symm

/-- A batch of orders with positive `int` volumes is committed. -/
theorem not_failsOn {fault : Fault} (volumes : ∀ o ∈ arrived, 0 < o.volume ∧ o.volume ≤ intMax) :
    ¬ FailsOn algorithms stkCode arrived fault := by
  rintro ⟨batch, isBatch, failed⟩
  have feed : Feed batch :=
    ⟨List.pairwise_map.mp (isBatch.1 ▸ idsUpTo_increasing batch.length),
      fun o member => volumes o (isBatch.2 o member)⟩
  obtain ⟨final, committed, _⟩ := commitOrders_refines_empty stkCode algorithms feed
  rw [committed] at failed
  cases failed

end Invariant

section Arrivals

variable [LinearOrder P] [Zero P] (algorithms : HeapAlgorithms) (stkCode : Int)

/-- Orders of the stock with distinct ids from 1 on, in any order of arrival:
after every arrival the exchange is drained, or a commit of the orders in line
has failed; orders with positive `int` volumes are always received; and another
order of arrival has the same end. -/
theorem receiveOrders_arrival_order (arrivals : List (Order P))
    (stocks : ∀ o ∈ arrivals, o.stkCode = stkCode) (positive : ∀ o ∈ arrivals, 1 ≤ o.orderId)
    (distinct : (arrivals.map Order.orderId).Nodup) :
    (∀ before after, arrivals = before ++ after →
      Receives algorithms stkCode before [] []
        (receiveOrders algorithms (StockExchange.new stkCode) before)) ∧
    ((∀ o ∈ arrivals, 0 < o.volume ∧ o.volume ≤ intMax) →
      ∃ state, receiveOrders algorithms (StockExchange.new stkCode) arrivals = .ok state) ∧
    ∀ other, other.Perm arrivals →
      SameEnd (receiveOrders algorithms (StockExchange.new stkCode) other)
        (receiveOrders algorithms (StockExchange.new stkCode) arrivals) := by
  have receives : ∀ some : List (Order P), some ⊆ arrivals →
      (some.map Order.orderId).Nodup → Receives algorithms stkCode some [] []
        (receiveOrders algorithms (StockExchange.new stkCode) some) := by
    intro some subset someDistinct
    exact receiveOrders_receives (Drained.new stkCode) (fun o member => stocks o (subset member))
      (fun o member => positive o (subset member)) someDistinct
  have all := receives arrivals (List.Subset.refl _) distinct
  refine ⟨?_, ?_, ?_⟩
  · rintro before after rfl
    exact receives before (List.subset_append_left _ _)
      (List.map_append ▸ distinct).of_append_left
  · intro volumes
    cases received : receiveOrders algorithms (StockExchange.new stkCode) arrivals with
    | ok state => exact ⟨state, rfl⟩
    | error fault =>
        rw [received] at all
        exact absurd all (not_failsOn volumes)
  · intro other perm
    exact Receives.sameEnd distinct perm
      (receives other perm.subset ((perm.map Order.orderId).nodup_iff.mpr distinct)) all

end Arrivals

/-- Orders 2, 4 and 1 arrive in this order: 1 and 2 are committed, 4 waits. -/
theorem receiveOrders_arrival_order_three :
    ∃ state, receiveOrders binaryHeap (StockExchange.new 1)
        ([⟨1, 2, 1, 0, 5, 10⟩, ⟨1, 4, 1, 0, 5, 10⟩, ⟨1, 1, -1, 0, 5, 4⟩] : List (Order Int)) =
        .ok state ∧
      ∀ other : List (Order Int),
        other.Perm [⟨1, 2, 1, 0, 5, 10⟩, ⟨1, 4, 1, 0, 5, 10⟩, ⟨1, 1, -1, 0, 5, 4⟩] →
        SameEnd (receiveOrders binaryHeap (StockExchange.new 1) other) (.ok state) := by
  obtain ⟨_, returns, sameEnd⟩ := receiveOrders_arrival_order binaryHeap 1
    ([⟨1, 2, 1, 0, 5, 10⟩, ⟨1, 4, 1, 0, 5, 10⟩, ⟨1, 1, -1, 0, 5, 4⟩] : List (Order Int))
    (by decide) (by decide) (by decide)
  obtain ⟨state, received⟩ := returns (by decide)
  exact ⟨state, received, fun other perm => received ▸ sameEnd other perm⟩

end PpiwTrading.Exchange
