import PpiwTrading.Exchange.ReceiveOrder
import PpiwTrading.Sequence.Repeats

/-!
# Orders that arrive more than once

The loop of `receiveOrder` only looks for the next id at the front of the
buffer.  An order that has been committed before stays at the front when it is
received again, so nothing is committed after it.  The repeated copies do no harm
exactly when each of them has an id that is the last to be committed or later, or
arrives after all orders that will be committed.
-/

namespace PpiwTrading.Exchange

open PpiwTrading.Heap
open PpiwTrading.Sequence

variable {P : Type}

/-- The orders 1 to `n` have arrived. -/
def Gapless (n : Nat) (arrived : List (Order P)) : Prop :=
  ∃ batch, Batch arrived batch ∧ batch.length = n

/-- Whenever an order arrives again, its id is `n` or later, or the orders 1 to
`n` have arrived before. -/
def Passed (n : Nat) (arrived : List (Order P)) : Prop :=
  ∀ before copy after, arrived = before ++ copy :: after → copy ∈ before →
    (n : Int) ≤ copy.orderId ∨ Gapless n before

/-- Arrivals with equal ids are copies of one order. -/
def Copies (arrived : List (Order P)) : Prop :=
  ∀ o ∈ arrived, ∀ p ∈ arrived, o.orderId = p.orderId → o = p

/-! ## Batches among copies -/

section Batches

variable {arrived : List (Order P)} {n m : Nat}

theorem Gapless.mono {more : List (Order P)} (gapless : Gapless n arrived)
    (subset : arrived ⊆ more) : Gapless n more := by
  rcases gapless with ⟨batch, isBatch, length⟩
  exact ⟨batch, isBatch.mono subset, length⟩

/-- The first orders of a batch are a batch. -/
theorem Batch.of_isPrefix {batch part : List (Order P)} (isBatch : Batch arrived batch)
    (isPrefix : part <+: batch) : Batch arrived part := by
  constructor
  · have ids := isPrefix.map Order.orderId
    rw [isBatch.1] at ids
    have same := List.prefix_of_prefix_length_le ids (idsUpTo_isPrefix isPrefix.length_le)
      (by rw [List.length_map, length_idsUpTo])
    apply same.eq_of_length
    rw [List.length_map, length_idsUpTo]
  · exact fun o member => isBatch.2 o (isPrefix.subset member)

theorem Gapless.of_le (gapless : Gapless n arrived) (le : m ≤ n) : Gapless m arrived := by
  rcases gapless with ⟨batch, isBatch, length⟩
  use batch.take m, isBatch.of_isPrefix (List.take_prefix m batch)
  rw [List.length_take, length]
  exact Nat.min_eq_left le

theorem Batch.nodup {batch : List (Order P)} (isBatch : Batch arrived batch) : batch.Nodup := by
  apply List.Nodup.of_map Order.orderId
  rw [isBatch.1]
  exact idsUpTo_nodup _

theorem Batch.mem_ids {batch : List (Order P)} (isBatch : Batch arrived batch) {i : Int} :
    i ∈ batch.map Order.orderId ↔ 1 ≤ i ∧ i ≤ batch.length := by
  rw [isBatch.1, mem_idsUpTo]

/-- Batches of copies agree as far as both go. -/
theorem Batch.isPrefix_of_copies {first second : List (Order P)} (copies : Copies arrived)
    (isFirst : Batch arrived first) (isSecond : Batch arrived second)
    (le : first.length ≤ second.length) : first <+: second :=
  isPrefix_of_numbered isFirst.1 isSecond.1
    (fun o inFirst p inSecond => copies o (isFirst.2 o inFirst) p (isSecond.2 p inSecond)) le

theorem Passed.of_le (passed : Passed n arrived) (le : m ≤ n) : Passed m arrived := by
  intro before copy after split member
  rcases passed before copy after split member with late | gapless
  · exact Or.inl ((Int.ofNat_le.mpr le).trans late)
  · exact Or.inr (gapless.of_le le)

/-- Once the orders 1 to `n` have arrived, later arrivals do no harm. -/
theorem Passed.append (passed : Passed n arrived) (gapless : Gapless n arrived)
    (later : List (Order P)) : Passed n (arrived ++ later) := by
  intro before copy after split member
  rcases List.append_eq_append_iff.mp split with ⟨middle, beforeEq, -⟩ | ⟨middle, arrivedEq, rest⟩
  · right
    rw [beforeEq]
    exact gapless.mono (List.subset_append_left _ _)
  · cases middle with
    | nil =>
        right
        rw [List.append_nil] at arrivedEq
        exact arrivedEq ▸ gapless
    | cons first middle =>
        cases rest
        exact passed before copy middle arrivedEq member

/-- When every repeated order has a late id, the copies are passed. -/
theorem passed_of_late (late : ∀ o, List.Duplicate o arrived → (n : Int) ≤ o.orderId) :
    Passed n arrived := by
  intro before copy after split member
  left
  apply late
  exact duplicate_iff_split.mpr ⟨before, after, split, member⟩

end Batches

/-! ## The invariant of the buffer -/

section Invariant

variable [LinearOrder P] [Zero P] (algorithms : HeapAlgorithms)

/-- A stock exchange that has committed a batch of what has arrived and holds
everything else in the buffer. -/
structure Copied (stkCode : Int) (arrived : List (Order P)) (exchange : StockExchange P)
    (trades : List (Trade P)) (committed : List (Order P)) : Prop where
  stkCode_eq : exchange.stkCode = stkCode
  last : exchange.lastCommitOrderId = committed.length
  batch : Batch arrived committed
  isHeap : IsHeap orderGtById exchange.notReadyOrders
  parts : (committed ++ exchange.notReadyOrders).Perm arrived
  effect : commitOrders algorithms stkCode StockDeclarationBook.empty committed =
    .ok (exchange.declBook, trades)

omit [LinearOrder P] [Zero P] in
/-- An order that is not next and never will be is in the buffer. -/
def Stalled (exchange : StockExchange P) : Prop :=
  ∃ o ∈ exchange.notReadyOrders, o.orderId ≤ exchange.lastCommitOrderId

/-- The same between two arrivals.  Nothing is committed any more after a copy
that came too early, and the copies have let everything pass that is committed. -/
structure Settled (stkCode : Int) (arrived : List (Order P)) (exchange : StockExchange P)
    (trades : List (Trade P)) (committed : List (Order P)) : Prop
    extends Copied algorithms stkCode arrived exchange trades committed where
  settled : Stalled exchange ∨ ∀ o ∈ arrived, o.orderId ≠ exchange.lastCommitOrderId + 1
  passed : Passed committed.length arrived
  blocked : Stalled exchange → ∃ before copy after, arrived = before ++ copy :: after ∧
    copy ∈ before ∧ copy.orderId ≤ (committed.length : Int) ∧
      ∀ n, Gapless n before → n ≤ committed.length

/-- A commit fails, and the copies have let the orders up to it pass. -/
def StopsAt (stkCode : Int) (arrived : List (Order P)) (fault : Fault) : Prop :=
  ∃ batch front, Batch arrived (batch ++ [front]) ∧
    (∃ reached, commitOrders algorithms stkCode StockDeclarationBook.empty batch = .ok reached) ∧
    commitOrders algorithms stkCode StockDeclarationBook.empty (batch ++ [front]) = .error fault ∧
    Passed (batch.length + 1) arrived

variable {algorithms} {stkCode : Int} {arrived : List (Order P)} {exchange : StockExchange P}
  {trades : List (Trade P)} {committed : List (Order P)}

theorem StopsAt.append {fault : Fault} (stops : StopsAt algorithms stkCode arrived fault)
    (later : List (Order P)) : StopsAt algorithms stkCode (arrived ++ later) fault := by
  rcases stops with ⟨batch, front, isBatch, reached, failed, passed⟩
  use batch, front, isBatch.mono (List.subset_append_left _ _), reached, failed
  exact passed.append ⟨batch ++ [front], isBatch, List.length_append⟩ later

theorem Copied.gapless (copied : Copied algorithms stkCode arrived exchange trades committed) :
    Gapless committed.length arrived :=
  ⟨committed, copied.batch, rfl⟩

/-- Repeated orders are in the buffer. -/
theorem Copied.buffered_of_duplicate
    (copied : Copied algorithms stkCode arrived exchange trades committed) {o : Order P}
    (repeated : List.Duplicate o arrived) : o ∈ exchange.notReadyOrders :=
  mem_of_duplicate copied.parts copied.batch.nodup repeated

/-- What is in the buffer although its id has been committed is a copy. -/
theorem Copied.duplicate_of_early
    (copied : Copied algorithms stkCode arrived exchange trades committed)
    (copies : Copies arrived) (positive : ∀ o ∈ arrived, 1 ≤ o.orderId) {o : Order P}
    (buffered : o ∈ exchange.notReadyOrders) (early : o.orderId ≤ exchange.lastCommitOrderId) :
    List.Duplicate o arrived := by
  have inArrived : o ∈ arrived := copied.parts.subset (List.mem_append_right _ buffered)
  have last := copied.last
  have isId : o.orderId ∈ committed.map Order.orderId :=
    copied.batch.mem_ids.mpr ⟨positive o inArrived, by omega⟩
  rcases List.mem_map.mp isId with ⟨p, inCommitted, sameId⟩
  obtain rfl := copies p (copied.batch.2 p inCommitted) o inArrived sameId
  exact duplicate_of_mem_both copied.parts inCommitted buffered

/-- When the next order has not arrived, no longer batch has. -/
theorem Copied.longest (copied : Copied algorithms stkCode arrived exchange trades committed)
    (missing : ∀ o ∈ arrived, o.orderId ≠ exchange.lastCommitOrderId + 1) {n : Nat}
    (gapless : Gapless n arrived) : n ≤ committed.length := by
  rcases gapless with ⟨batch, isBatch, rfl⟩
  by_contra longer
  have next : (committed.length : Int) + 1 ∈ batch.map Order.orderId :=
    isBatch.mem_ids.mpr ⟨by omega, by omega⟩
  rcases List.mem_map.mp next with ⟨o, member, isNext⟩
  apply missing o (isBatch.2 o member)
  rw [isNext, copied.last]

/-- An arriving order goes to the buffer. -/
theorem Copied.arrive (copied : Copied algorithms stkCode arrived exchange trades committed)
    (order : Order P) :
    Copied algorithms stkCode (arrived ++ [order])
      { exchange with
        notReadyOrders := algorithms.insert orderGtById exchange.notReadyOrders order }
      trades committed where
  stkCode_eq := copied.stkCode_eq
  last := copied.last
  batch := copied.batch.mono (List.subset_append_left arrived [order])
  isHeap := algorithms.insert_isHeap orderGtById_strictWeak copied.isHeap order
  effect := copied.effect
  parts := by
    have inserted := algorithms.insert_perm orderGtById_strictWeak copied.isHeap order
    have appended :=
      (inserted.trans (List.perm_append_singleton order _).symm).append_left committed
    rw [← List.append_assoc] at appended
    exact appended.trans (copied.parts.append_right [order])

/-- One turn of the loop commits the front and leaves nothing earlier behind. -/
theorem Copied.commit (copied : Copied algorithms stkCode arrived exchange trades committed)
    {front : Order P} {rest : List (Order P)} (buffer : exchange.notReadyOrders = front :: rest)
    (next : exchange.lastCommitOrderId + 1 = front.orderId) {outcome : Outcome P}
    (returned : commitOrder algorithms stkCode exchange.declBook front = .ok outcome) :
    Copied algorithms stkCode arrived
        { exchange with
          declBook := outcome.book
          notReadyOrders := algorithms.removeFirst orderGtById exchange.notReadyOrders
          lastCommitOrderId := exchange.lastCommitOrderId + 1 }
        (trades ++ outcome.trades) (committed ++ [front]) ∧
      ∀ o ∈ algorithms.removeFirst orderGtById exchange.notReadyOrders,
        exchange.lastCommitOrderId + 1 ≤ o.orderId := by
  have isHeap : IsHeap orderGtById (front :: rest) := buffer ▸ copied.isHeap
  have removed := algorithms.removeFirst_perm orderGtById_strictWeak isHeap
  have parts : (committed ++ front :: rest).Perm arrived := buffer ▸ copied.parts
  have inArrived : front ∈ arrived :=
    parts.subset (List.mem_append_right committed List.mem_cons_self)
  have last := copied.last
  rw [buffer]
  constructor
  · constructor
    · exact copied.stkCode_eq
    · simp [last]
    · exact copied.batch.snoc inArrived (by omega)
    · exact algorithms.removeFirst_isHeap orderGtById_strictWeak isHeap
    · simp only [List.append_assoc, List.singleton_append]
      exact ((removed.cons front).append_left committed).trans parts
    · rw [commitOrders_append, copied.effect]
      simp [commitOrders, returned]
  · intro o member
    rw [next]
    exact orderId_front_le isHeap o (List.mem_cons_of_mem front (removed.subset member))

/-- When the front of the buffer is not next, it is early or everything is late. -/
theorem Copied.rests (copied : Copied algorithms stkCode arrived exchange trades committed)
    {front : Order P} {rest : List (Order P)} (buffer : exchange.notReadyOrders = front :: rest)
    (notNext : exchange.lastCommitOrderId + 1 ≠ front.orderId) :
    Stalled exchange ∨
      ∀ o ∈ exchange.notReadyOrders, o.orderId ≠ exchange.lastCommitOrderId + 1 := by
  by_cases early : front.orderId ≤ exchange.lastCommitOrderId
  · left
    use front, buffer ▸ List.mem_cons_self
  · right
    intro o buffered
    have smallest := orderId_front_le (buffer ▸ copied.isHeap) o (buffer ▸ buffered)
    omega

/-- An order that is missing from the buffer has not arrived, unless it has been
committed. -/
theorem Copied.missing (copied : Copied algorithms stkCode arrived exchange trades committed)
    (missing : ∀ o ∈ exchange.notReadyOrders, o.orderId ≠ exchange.lastCommitOrderId + 1) :
    ∀ o ∈ arrived, o.orderId ≠ exchange.lastCommitOrderId + 1 := by
  intro o member
  have last := copied.last
  rcases List.mem_append.mp (copied.parts.mem_iff.mpr member) with old | buffered
  · have isId := copied.batch.mem_ids.mp (List.mem_map_of_mem old)
    omega
  · exact missing o buffered

/-- A commit that fails stops the batch at its order. -/
theorem Copied.stopsAt (copied : Copied algorithms stkCode arrived exchange trades committed)
    {front : Order P} {rest : List (Order P)} (buffer : exchange.notReadyOrders = front :: rest)
    (next : exchange.lastCommitOrderId + 1 = front.orderId) {fault : Fault}
    (failed : commitOrder algorithms stkCode exchange.declBook front = .error fault) :
    StopsAt algorithms stkCode arrived fault := by
  have inBuffer : front ∈ exchange.notReadyOrders := by
    rw [buffer]
    exact List.mem_cons_self
  have inArrived : front ∈ arrived :=
    copied.parts.subset (List.mem_append_right committed inBuffer)
  have last := copied.last
  use committed, front, copied.batch.snoc inArrived (by omega), ⟨_, copied.effect⟩
  constructor
  · rw [commitOrders_append, copied.effect]
    simp [commitOrders, failed]
  · apply passed_of_late
    intro o repeated
    have buffered : o ∈ front :: rest := buffer ▸ copied.buffered_of_duplicate repeated
    have late := orderId_front_le (buffer ▸ copied.isHeap) o buffered
    rw [Nat.cast_add, Nat.cast_one, ← last, next]
    exact late

/-- What the loop leads to from a buffer in which the last committed id was
`start`. -/
def DrainsTo (algorithms : HeapAlgorithms) (stkCode : Int) (arrived : List (Order P))
    (trades : List (Trade P)) (committed : List (Order P)) (start : Int) :
    Except Fault (Received P) → Prop
  | .ok final =>
      Copied algorithms stkCode arrived final.exchange (trades ++ final.trades)
          (committed ++ final.committed) ∧
        (Stalled final.exchange ∨ ∀ o ∈ final.exchange.notReadyOrders,
          o.orderId ≠ final.exchange.lastCommitOrderId + 1) ∧
        start ≤ final.exchange.lastCommitOrderId ∧
        (final.exchange.lastCommitOrderId = start ∨ ∀ o ∈ final.exchange.notReadyOrders,
          final.exchange.lastCommitOrderId ≤ o.orderId)
  | .error fault => StopsAt algorithms stkCode arrived fault

theorem drain_drainsTo {start : Int} (bound : Nat) :
    ∀ state : Received P,
      Copied algorithms stkCode arrived state.exchange (trades ++ state.trades)
        (committed ++ state.committed) →
      start ≤ state.exchange.lastCommitOrderId →
      (state.exchange.lastCommitOrderId = start ∨ ∀ o ∈ state.exchange.notReadyOrders,
        state.exchange.lastCommitOrderId ≤ o.orderId) →
      state.exchange.notReadyOrders.length < bound →
      DrainsTo algorithms stkCode arrived trades committed start
        (drain algorithms bound state) := by
  induction bound with
  | zero =>
      intro state _ _ _ enough
      exact absurd enough (Nat.not_lt_zero _)
  | succ bound inductionHypothesis =>
      intro state copied started moved enough
      rw [drain]
      cases buffer : state.exchange.notReadyOrders with
      | nil => exact ⟨copied, Or.inr (by simp [buffer]), started, moved⟩
      | cons front rest =>
          simp only
          by_cases next : state.exchange.lastCommitOrderId + 1 = front.orderId
          · rw [if_neg (not_not.mpr next), copied.stkCode_eq]
            cases returned : commitOrder algorithms stkCode state.exchange.declBook front with
            | error fault => exact copied.stopsAt buffer next returned
            | ok outcome =>
                rcases copied.commit buffer next returned with ⟨copied', atFront⟩
                rw [List.append_assoc, List.append_assoc, copied.stkCode_eq, buffer] at copied'
                apply inductionHypothesis _ copied'
                · simp only
                  omega
                · right
                  exact buffer ▸ atFront
                · have isHeap : IsHeap orderGtById (front :: rest) := buffer ▸ copied.isHeap
                  have shorter :=
                    (algorithms.removeFirst_perm orderGtById_strictWeak isHeap).length_eq
                  rw [buffer, List.length_cons] at enough
                  simp only [shorter]
                  omega
          · rw [if_pos next]
            constructor
            · exact copied
            · exact ⟨copied.rests buffer next, started, moved⟩

/-- What receiving orders leads to when they may come again. -/
def SettlesTo (algorithms : HeapAlgorithms) (stkCode : Int) (arrived : List (Order P))
    (trades : List (Trade P)) (committed : List (Order P)) : Except Fault (Received P) → Prop
  | .ok final => Settled algorithms stkCode arrived final.exchange (trades ++ final.trades)
      (committed ++ final.committed)
  | .error fault => StopsAt algorithms stkCode arrived fault

theorem Settled.new (stkCode : Int) :
    Settled algorithms stkCode ([] : List (Order P)) (StockExchange.new stkCode) [] [] where
  stkCode_eq := rfl
  last := rfl
  batch := Batch.nil []
  isHeap := isHeap_nil
  parts := List.Perm.nil
  effect := rfl
  settled := Or.inr (by simp)
  passed := by
    intro before copy after split
    cases before <;> cases split
  blocked := by
    rintro ⟨o, buffered, -⟩
    cases buffered

section Arrival

variable (settled : Settled algorithms stkCode arrived exchange trades committed)
  {order : Order P} {reached : StockExchange P} {trades' : List (Trade P)}
  {committed' : List (Order P)}
  (copied : Copied algorithms stkCode (arrived ++ [order]) reached trades' committed')

include settled copied

/-- The copies still let pass what is committed after an arrival. -/
theorem Settled.passed_arrive
    (moved : reached.lastCommitOrderId = exchange.lastCommitOrderId ∨
      ∀ o ∈ reached.notReadyOrders, reached.lastCommitOrderId ≤ o.orderId) :
    Passed committed'.length (arrived ++ [order]) := by
  have last := settled.last
  have last' := copied.last
  rcases moved with same | late
  · have length : committed'.length = committed.length := by omega
    rw [length]
    exact settled.passed.append settled.gapless [order]
  · apply passed_of_late
    intro o repeated
    rw [← last']
    exact late o (copied.buffered_of_duplicate repeated)

/-- A stalled buffer was stalled before the arrival, or is stalled by a copy that
came before the next order. -/
theorem Settled.blocked_arrive (copies : Copies (arrived ++ [order]))
    (positive : ∀ o ∈ arrived ++ [order], 1 ≤ o.orderId)
    (started : exchange.lastCommitOrderId ≤ reached.lastCommitOrderId)
    (stalled : Stalled reached) :
    ∃ before copy after, arrived ++ [order] = before ++ copy :: after ∧ copy ∈ before ∧
      copy.orderId ≤ (committed'.length : Int) ∧ ∀ n, Gapless n before → n ≤ committed'.length := by
  have last := settled.last
  have last' := copied.last
  rcases stalled with ⟨o, buffered, early⟩
  rcases settled.settled with stalledBefore | missing
  · rcases settled.blocked stalledBefore with
      ⟨before, copy, after, split, again, blockedEarly, none⟩
    use before, copy, after ++ [order]
    constructor
    · rw [split, List.append_assoc, List.cons_append]
    · exact ⟨again, by omega, fun n gapless => (none n gapless).trans (by omega)⟩
  · have repeated := copied.duplicate_of_early copies positive buffered early
    rcases duplicate_iff_split.mp repeated with ⟨before, after, split, again⟩
    use before, o, after, split, again
    constructor
    · omega
    · intro n gapless
      have isPrefix : before <+: arrived := by
        apply List.prefix_of_prefix_length_le ⟨o :: after, split.symm⟩
          (List.prefix_append arrived [order])
        have length := congrArg List.length split
        simp only [List.length_append, List.length_cons, List.length_nil] at length
        omega
      have short := settled.toCopied.longest missing (gapless.mono isPrefix.subset)
      omega

end Arrival

/-- An arrival. -/
theorem receiveOrder_settlesTo
    (settled : Settled algorithms stkCode arrived exchange trades committed) {order : Order P}
    (stock : order.stkCode = stkCode) (copies : Copies (arrived ++ [order]))
    (positive : ∀ o ∈ arrived ++ [order], 1 ≤ o.orderId) :
    SettlesTo algorithms stkCode (arrived ++ [order]) trades committed
      (receiveOrder algorithms exchange order) := by
  have drains : DrainsTo algorithms stkCode (arrived ++ [order]) trades committed
      exchange.lastCommitOrderId (receiveOrder algorithms exchange order) := by
    rw [receiveOrder, if_neg (by rw [stock, settled.stkCode_eq]; simp)]
    apply drain_drainsTo
    · simpa using settled.toCopied.arrive order
    · exact le_refl _
    · exact Or.inl rfl
    · exact Nat.lt_succ_self _
  cases received : receiveOrder algorithms exchange order with
  | error fault =>
      rw [received] at drains
      exact drains
  | ok final =>
      rw [received] at drains
      rcases drains with ⟨copied, rests, started, moved⟩
      constructor
      · exact copied
      · exact rests.imp_right copied.missing
      · exact settled.passed_arrive copied moved
      · exact settled.blocked_arrive copied copies positive started

/-- Any number of arrivals. -/
theorem receiveOrders_settlesTo {arrivals : List (Order P)}
    (settled : Settled algorithms stkCode arrived exchange trades committed)
    (stocks : ∀ o ∈ arrivals, o.stkCode = stkCode) (copies : Copies (arrived ++ arrivals))
    (positive : ∀ o ∈ arrived ++ arrivals, 1 ≤ o.orderId) :
    SettlesTo algorithms stkCode (arrived ++ arrivals) trades committed
      (receiveOrders algorithms exchange arrivals) := by
  induction arrivals generalizing arrived exchange trades committed with
  | nil => simpa [receiveOrders, SettlesTo] using settled
  | cons order rest inductionHypothesis =>
      rw [← List.singleton_append, ← List.append_assoc] at copies positive ⊢
      have subset : arrived ++ [order] ⊆ arrived ++ [order] ++ rest := List.subset_append_left _ _
      have first := receiveOrder_settlesTo settled (stocks order List.mem_cons_self)
        (fun o inFirst p inSecond => copies o (subset inFirst) p (subset inSecond))
        (fun o member => positive o (subset member))
      rw [List.singleton_append, receiveOrders]
      cases received : receiveOrder algorithms exchange order with
      | error fault =>
          rw [received] at first
          exact StopsAt.append first rest
      | ok state =>
          rw [received] at first
          have continued := inductionHypothesis first
            (fun o member => stocks o (List.mem_cons_of_mem order member)) copies positive
          simp only [ok_bind]
          cases later : receiveOrders algorithms state.exchange rest with
          | error fault =>
              rw [later] at continued
              exact continued
          | ok final =>
              rw [later] at continued
              simpa [SettlesTo] using continued

/-- Orders that the copies let pass are committed. -/
theorem Settled.le_of_passed
    (settled : Settled algorithms stkCode arrived exchange trades committed) {n : Nat}
    (gapless : Gapless n arrived) (passed : Passed n arrived) : n ≤ committed.length := by
  rcases settled.settled with stalled | missing
  · rcases settled.blocked stalled with ⟨before, copy, after, split, again, early, none⟩
    rcases passed before copy after split again with late | whole
    · omega
    · exact none n whole
  · exact settled.toCopied.longest missing gapless

/-! ## Without the copies -/

/-- The orders 1 to `n` have arrived and the commits before the last of them
succeed, so that `n` commits are attempted when no order comes again. -/
def Attempted (algorithms : HeapAlgorithms) (stkCode : Int) (n : Nat)
    (arrived : List (Order P)) : Prop :=
  ∃ batch, Batch arrived batch ∧ batch.length = n ∧ ∃ reached,
    commitOrders algorithms stkCode StockDeclarationBook.empty batch.dropLast = .ok reached

/-- The copies let every order pass whose commit is attempted without them. -/
def CopiesPass (algorithms : HeapAlgorithms) (stkCode : Int) (arrived : List (Order P)) : Prop :=
  ∀ n, Attempted algorithms stkCode n arrived → Passed n arrived

/-- The same orders and trades and the same last id, or the same fault. -/
def SameCommits : Except Fault (Received P) → Except Fault (Received P) → Prop
  | .ok first, .ok second =>
      first.committed = second.committed ∧ first.trades = second.trades ∧
        first.exchange.lastCommitOrderId = second.exchange.lastCommitOrderId
  | .error first, .error second => first = second
  | _, _ => False

omit [Zero P] in
theorem batch_eraseDups {batch : List (Order P)} :
    Batch arrived.eraseDups batch ↔ Batch arrived batch := by
  constructor
  · exact fun isBatch => isBatch.mono fun o member => List.mem_eraseDups.mp member
  · exact fun isBatch => isBatch.mono fun o member => List.mem_eraseDups.mpr member

omit [Zero P] in
/-- Without the copies the ids are distinct. -/
theorem distinct_eraseDups (copies : Copies arrived) :
    (arrived.eraseDups.map Order.orderId).Nodup := by
  apply List.Nodup.map_on _ (nodup_eraseDups arrived)
  intro o inArrived p again sameId
  exact copies o (List.mem_eraseDups.mp inArrived) p (List.mem_eraseDups.mp again) sameId

theorem commitOrders_of_isPrefix {part whole : List (Order P)} (isPrefix : part <+: whole)
    {book : StockDeclarationBook P} {reached : StockDeclarationBook P × List (Trade P)}
    (committed : commitOrders algorithms stkCode book whole = .ok reached) :
    ∃ middle, commitOrders algorithms stkCode book part = .ok middle := by
  rcases isPrefix with ⟨rest, rfl⟩
  rw [commitOrders_append] at committed
  rcases bind_eq_ok_iff.mp committed with ⟨middle, first, -⟩
  exact ⟨middle, first⟩

/-- A batch whose commit fails has a first order that fails. -/
theorem exists_first_fault {batch : List (Order P)} {book : StockDeclarationBook P}
    {fault : Fault} (failed : commitOrders algorithms stkCode book batch = .error fault) :
    ∃ before front, before ++ [front] <+: batch ∧
      (∃ reached, commitOrders algorithms stkCode book before = .ok reached) ∧
      commitOrders algorithms stkCode book (before ++ [front]) = .error fault := by
  induction batch using List.reverseRecOn with
  | nil => cases failed
  | append_singleton batch front inductionHypothesis =>
      cases before : commitOrders algorithms stkCode book batch with
      | ok reached => exact ⟨batch, front, List.prefix_refl _, ⟨reached, before⟩, failed⟩
      | error earlier =>
          have same : earlier = fault := by
            rw [commitOrders_append, before] at failed
            exact Except.error.inj failed
          rw [same] at before
          rcases inductionHypothesis before with ⟨first, last, isPrefix, rest⟩
          exact ⟨first, last, isPrefix.trans (List.prefix_append _ _), rest⟩

/-- An exchange that goes through copies attempts no more commits than without
them. -/
theorem StopsAt.passed_of_attempted {fault : Fault} (copies : Copies arrived)
    (stops : StopsAt algorithms stkCode arrived fault) :
    CopiesPass algorithms stkCode arrived := by
  rintro n ⟨batch, isBatch, rfl, reached, committed⟩
  rcases stops with ⟨before, front, stopped, -, failed, passed⟩
  apply passed.of_le
  by_contra longer
  have ofBatch : before ++ [front] <+: batch.dropLast := by
    apply Batch.isPrefix_of_copies copies stopped
      (isBatch.of_isPrefix (List.dropLast_prefix batch))
    rw [List.length_append, List.length_singleton, List.length_dropLast]
    omega
  rcases commitOrders_of_isPrefix ofBatch committed with ⟨middle, ok⟩
  cases ok.symm.trans failed

/-- Two exchanges that go through all arrivals commit the same exactly when the
copies let everything pass. -/
theorem Settled.sameCommits_iff (copies : Copies arrived) {first second : Received P}
    (settled : Settled algorithms stkCode arrived first.exchange first.trades first.committed)
    (drained : Drained algorithms stkCode arrived.eraseDups second.exchange second.trades
      second.committed) :
    SameCommits (.ok first) (.ok second) ↔ CopiesPass algorithms stkCode arrived := by
  have atMost : first.committed.length ≤ second.committed.length :=
    drained.longest (batch_eraseDups.mpr settled.batch)
  constructor
  · rintro ⟨same, -, -⟩ n ⟨batch, isBatch, rfl, -⟩
    apply settled.passed.of_le
    rw [same]
    exact drained.longest (batch_eraseDups.mpr isBatch)
  · intro pass
    have isBatch : Batch arrived second.committed := batch_eraseDups.mp drained.batch
    have attempted : Attempted algorithms stkCode second.committed.length arrived :=
      ⟨second.committed, isBatch, rfl,
        commitOrders_of_isPrefix (List.dropLast_prefix _) drained.effect⟩
    have atLeast : second.committed.length ≤ first.committed.length :=
      settled.le_of_passed ⟨second.committed, isBatch, rfl⟩ (pass _ attempted)
    have same : first.committed = second.committed :=
      (Batch.isPrefix_of_copies copies settled.batch isBatch atMost).eq_of_length
        (Nat.le_antisymm atMost atLeast)
    have effects := settled.effect
    rw [same, drained.effect] at effects
    constructor
    · exact same
    · constructor
      · exact (Prod.mk.inj (Except.ok.inj effects)).2.symm
      · rw [settled.last, drained.last, same]

/-- An exchange that never reaches a commit that fails without the copies has been
stopped by them. -/
theorem Settled.not_copiesPass (copies : Copies arrived)
    (settled : Settled algorithms stkCode arrived exchange trades committed) {fault : Fault}
    (fails : FailsOn algorithms stkCode arrived.eraseDups fault) :
    ¬ CopiesPass algorithms stkCode arrived := by
  intro pass
  rcases fails with ⟨batch, isBatch, failed⟩
  rcases exists_first_fault failed with ⟨before, front, isPrefix, reached, stops⟩
  have upToFault : Batch arrived (before ++ [front]) :=
    (batch_eraseDups.mp isBatch).of_isPrefix isPrefix
  have attempted : Attempted algorithms stkCode (before ++ [front]).length arrived :=
    ⟨before ++ [front], upToFault, rfl, by rwa [List.dropLast_concat]⟩
  have le : (before ++ [front]).length ≤ committed.length :=
    settled.le_of_passed ⟨before ++ [front], upToFault, rfl⟩ (pass _ attempted)
  have ofCommitted := Batch.isPrefix_of_copies copies upToFault settled.batch le
  rcases commitOrders_of_isPrefix ofCommitted settled.effect with ⟨middle, ok⟩
  cases ok.symm.trans stops

/-- A commit that fails among the copies is not passed without them. -/
theorem StopsAt.not_drained {fault : Fault} (copies : Copies arrived)
    (stops : StopsAt algorithms stkCode arrived fault) :
    ¬ Drained algorithms stkCode arrived.eraseDups exchange trades committed := by
  intro drained
  rcases stops with ⟨batch, front, isBatch, -, failed, -⟩
  have fails := FailsOn.of_longer (distinct_eraseDups copies) (batch_eraseDups.mpr isBatch)
    drained.batch (drained.longest (batch_eraseDups.mpr isBatch)) failed
  cases drained.effect.symm.trans fails

/-- The first commit that fails is the same with and without the copies. -/
theorem StopsAt.fault_eq {fault other : Fault} (copies : Copies arrived)
    (stops : StopsAt algorithms stkCode arrived fault)
    (fails : FailsOn algorithms stkCode arrived.eraseDups other) : fault = other := by
  rcases stops with ⟨before, front, isBatch, -, failed, -⟩
  rcases fails with ⟨batch, isOther, otherFailed⟩
  have distinct := distinct_eraseDups copies
  have isFirst := batch_eraseDups.mpr isBatch
  rcases Nat.le_total (before ++ [front]).length batch.length with le | le
  · have both := FailsOn.of_longer distinct isFirst isOther le failed
    exact Except.error.inj (both.symm.trans otherFailed)
  · have both := FailsOn.of_longer distinct isOther isFirst le otherFailed
    exact Except.error.inj (failed.symm.trans both)

/-- Positive `int` volumes never fail, so every commit of a batch is attempted. -/
theorem attempted_iff_gapless {n : Nat}
    (volumes : ∀ o ∈ arrived, 0 < o.volume ∧ o.volume ≤ intMax) :
    Attempted algorithms stkCode n arrived ↔ Gapless n arrived := by
  constructor
  · rintro ⟨batch, isBatch, length, -⟩
    exact ⟨batch, isBatch, length⟩
  · rintro ⟨batch, isBatch, length⟩
    use batch, isBatch, length
    cases committed :
        commitOrders algorithms stkCode StockDeclarationBook.empty batch.dropLast with
    | ok reached => exact ⟨reached, rfl⟩
    | error fault =>
        have isPart := isBatch.of_isPrefix (List.dropLast_prefix batch)
        exact absurd ⟨batch.dropLast, isPart, committed⟩ (not_failsOn volumes)

/-- With positive `int` volumes the copies let everything pass exactly when they
let every batch pass. -/
theorem copiesPass_iff_of_volumes
    (volumes : ∀ o ∈ arrived, 0 < o.volume ∧ o.volume ≤ intMax) :
    CopiesPass algorithms stkCode arrived ↔ ∀ n, Gapless n arrived → Passed n arrived :=
  forall_congr' fun _ => imp_congr_left (attempted_iff_gapless volumes)

end Invariant

section Arrivals

variable [LinearOrder P] [Zero P] (algorithms : HeapAlgorithms) (stkCode : Int)

/-- Orders of the stock that arrive with copies of them are committed as they are
without the copies exactly when the copies let every order pass whose commit is
attempted without them. -/
theorem receiveOrders_copies_iff (arrivals : List (Order P))
    (stocks : ∀ o ∈ arrivals, o.stkCode = stkCode) (positive : ∀ o ∈ arrivals, 1 ≤ o.orderId)
    (copies : Copies arrivals) :
    SameCommits (receiveOrders algorithms (StockExchange.new stkCode) arrivals)
        (receiveOrders algorithms (StockExchange.new stkCode) arrivals.eraseDups) ↔
      CopiesPass algorithms stkCode arrivals := by
  have whole := receiveOrders_settlesTo (@Settled.new P _ _ algorithms stkCode) stocks
    copies positive
  have once := receiveOrders_receives (@Drained.new P _ _ algorithms stkCode)
    (fun o member => stocks o (List.mem_eraseDups.mp member))
    (fun o member => positive o (List.mem_eraseDups.mp member)) (distinct_eraseDups copies)
  rw [List.nil_append] at whole once
  cases received : receiveOrders algorithms (StockExchange.new stkCode) arrivals with
  | ok first =>
      rw [received] at whole
      cases receivedOnce :
          receiveOrders algorithms (StockExchange.new stkCode) arrivals.eraseDups with
      | ok second =>
          rw [receivedOnce] at once
          exact Settled.sameCommits_iff copies whole once
      | error fault =>
          rw [receivedOnce] at once
          exact iff_of_false id (Settled.not_copiesPass copies whole once)
  | error fault =>
      rw [received] at whole
      cases receivedOnce :
          receiveOrders algorithms (StockExchange.new stkCode) arrivals.eraseDups with
      | ok second =>
          rw [receivedOnce] at once
          exact absurd once (StopsAt.not_drained copies whole)
      | error other =>
          rw [receivedOnce] at once
          exact iff_of_true (StopsAt.fault_eq copies whole once)
            (StopsAt.passed_of_attempted copies whole)

end Arrivals

/-- Order 2 comes again after 1 and 2 have been committed. -/
theorem receiveOrders_copies_iff_late :
    CopiesPass binaryHeap 1
      ([⟨1, 1, 1, 0, 5, 10⟩, ⟨1, 2, -1, 0, 5, 4⟩, ⟨1, 2, -1, 0, 5, 4⟩] : List (Order Int)) :=
  (receiveOrders_copies_iff binaryHeap 1
    ([⟨1, 1, 1, 0, 5, 10⟩, ⟨1, 2, -1, 0, 5, 4⟩, ⟨1, 2, -1, 0, 5, 4⟩] : List (Order Int))
    (by decide) (by decide) (by unfold Copies; decide)).mp ⟨rfl, rfl, rfl⟩

/-- Order 1 comes again before order 2 has come: order 2 is never committed. -/
theorem early_copy_stalls :
    ¬ SameCommits
      (receiveOrders binaryHeap (StockExchange.new 1)
        ([⟨1, 1, 1, 0, 5, 10⟩, ⟨1, 1, 1, 0, 5, 10⟩, ⟨1, 2, -1, 0, 5, 4⟩] : List (Order Int)))
      (receiveOrders binaryHeap (StockExchange.new 1)
        ([⟨1, 1, 1, 0, 5, 10⟩, ⟨1, 1, 1, 0, 5, 10⟩, ⟨1, 2, -1, 0, 5, 4⟩] :
          List (Order Int)).eraseDups) := by
  rintro ⟨-, -, sameLast⟩
  revert sameLast
  decide

end PpiwTrading.Exchange
