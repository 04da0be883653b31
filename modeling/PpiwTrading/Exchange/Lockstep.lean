import PpiwTrading.Exchange.PriceTimePriority

/-!
# Handlers in lockstep

The handlers are separate loops over the same heaps.  Two loops whose tests
agree on every record of the heap remove, rewrite and trade in the same way,
so their results are equal as heaps and not only as sets of records.  The
results below compare handlers on every book that a stock exchange can reach:
types 1 and 2 are limit orders at a resolved price, and types 4 and 5 are limit
orders without a limit whose remainder is dropped.
-/

namespace PpiwTrading.Exchange

open PpiwTrading.Heap
open PpiwTrading.Exchange.Reference

variable {P : Type} [LinearOrder P]

/-- The traded volume of a list of trades. -/
def totalTraded (trades : List (Trade P)) : Int :=
  (trades.map Trade.volume).sum

/-- The exact volume resting in a list of records. -/
def exactVolume (records : List (Record P)) : Int :=
  (records.map Record.volume).sum

omit [LinearOrder P] in
theorem exactVolume_perm {first second : List (Record P)} (perm : first.Perm second) :
    exactVolume first = exactVolume second :=
  (perm.map Record.volume).sum_eq

omit [LinearOrder P] in
theorem Reference.Positive.exactVolume_nonneg {records : List (Record P)}
    (positive : Positive records) : 0 ≤ exactVolume records := by
  apply List.sum_nonneg
  intro volume member
  rcases List.mem_map.mp member with ⟨r, inRecords, rfl⟩
  exact (positive r inRecords).1.le

omit [LinearOrder P] in
theorem totalTraded_fillTrades (stkCode : Int) (order : Order P) (side : Side)
    (fills : List (Record P × Int)) :
    totalTraded (fillTrades stkCode order side fills) = (fills.map Prod.snd).sum := by
  have volumes : (fillTrades stkCode order side fills).map Trade.volume =
      fills.map Prod.snd := by
    rw [fillTrades, List.map_map]
    apply List.map_congr_left
    intro fill _
    cases side <;> rfl
  rw [totalTraded, volumes]

omit [LinearOrder P] in
/-- What a sweep trades is what it takes from the order. -/
theorem totalTraded_sweep (stkCode : Int) (order : Order P) (side : Side)
    (accepts : Levels P → Record P → Option (Levels P)) (levels : Levels P) {left : Int}
    (nonnegative : 0 ≤ left) (sorted : List (Record P)) :
    totalTraded (sweep stkCode order side accepts levels left sorted).trades =
      left - (sweep stkCode order side accepts levels left sorted).left := by
  rcases sweep_filled stkCode order side accepts levels left sorted nonnegative with
    ⟨fills, filled, trades, _⟩
  rw [trades, totalTraded_fillTrades]
  have balance := filled.balance
  omega

section Loops

variable (algorithms : HeapAlgorithms) (stkCode : Int) (order : Order P) (side : Side)

/-- Two loops whose tests agree on every record of the heap run in lockstep.
They may differ in what they do on an empty side when the order cannot empty
it. -/
theorem matchLoop_congr {test test' : Levels P → Record P → Option (Levels P)}
    {onEmpty onEmpty' : Except Fault Unit} (sorted : List (Record P)) :
    ∀ (bound : Nat) (levels : Levels P) (state : LoopState P),
      Represents side.lt (state.book.decls side) sorted → Positive sorted →
      0 ≤ state.leftVolume → state.leftVolume ≤ intMax →
      (∀ levels, ∀ r ∈ sorted, test levels r = test' levels r) →
      (onEmpty = onEmpty' ∨ state.leftVolume ≤ exactVolume sorted) →
      matchLoop algorithms stkCode order side test onEmpty bound levels state =
        matchLoop algorithms stkCode order side test' onEmpty' bound levels state := by
  induction sorted with
  | nil =>
      intro bound levels state represents _ nonnegative _ _ available
      cases bound with
      | zero => rfl
      | succ bound =>
          have query : state.book.queryFirst side = none := Represents.queryFirst represents
          simp only [matchLoop, query]
          rcases available with same | covered
          · rw [same]
          · have done : state.leftVolume = 0 := by
              simp only [exactVolume, List.map_nil, List.sum_nil] at covered
              omega
            rw [if_pos done, if_pos done]
  | cons r rest inductionHypothesis =>
      intro bound levels state represents positive nonnegative small agree available
      cases bound with
      | zero => rfl
      | succ bound =>
          rcases represents.exists_cons side.lt_strictWeak with ⟨tail, front⟩
          have query : state.book.queryFirst side = some r := Represents.queryFirst represents
          have bounds := positive r List.mem_cons_self
          simp only [matchLoop, query]
          by_cases done : state.leftVolume = 0
          · rw [if_pos done, if_pos done]
          · rw [if_neg done, if_neg done, agree levels r List.mem_cons_self]
            cases test' levels r with
            | none => rfl
            | some levels' =>
                by_cases smaller : state.leftVolume < r.volume
                · simp only [ok_bind, fillFirst_part algorithms stkCode order side r.price front
                    nonnegative smaller bounds.2]
                  cases bound <;> simp [matchLoop]
                · simp only [ok_bind, fillFirst_whole algorithms stkCode order side r.price front
                    bounds.1 (not_lt.mp smaller) small]
                  apply inductionHypothesis
                  · rw [StockDeclarationBook.decls_setDecls, ← front]
                    exact represents.removeFirst algorithms side.lt_strictWeak
                  · exact positive.tail
                  · simp only
                    omega
                  · simp only
                    omega
                  · exact fun levels s member => agree levels s (List.mem_cons_of_mem r member)
                  · apply available.imp_right
                    intro covered
                    simp only [exactVolume, List.map_cons, List.sum_cons] at covered ⊢
                    omega

/-- The loops read nothing of an order but its id. -/
theorem matchLoop_withPrice (price : P) (test : Levels P → Record P → Option (Levels P))
    (onEmpty : Except Fault Unit) (bound : Nat) :
    ∀ (levels : Levels P) (state : LoopState P),
      matchLoop algorithms stkCode { order with price := price } side test onEmpty bound levels
          state =
        matchLoop algorithms stkCode order side test onEmpty bound levels state := by
  induction bound with
  | zero => exact fun _ _ => rfl
  | succ bound inductionHypothesis =>
      intro levels state
      simp only [matchLoop, inductionHypothesis]
      rfl

end Loops

section Handlers

variable [Zero P] (algorithms : HeapAlgorithms) (stkCode : Int)
  {book sorted : StockDeclarationBook P} {order : Order P} {side : Side}

/-- What the loops need of a book and an order; unlike in `Ready`, the id of the
order may already rest in the book. -/
structure Stocked (book sorted : StockDeclarationBook P) (order : Order P) : Prop where
  matching : Matches book sorted
  positive : ∀ side, Positive (sorted.decls side)
  volumePositive : 0 < order.volume
  volumeSmall : order.volume ≤ intMax

omit [Zero P] in
theorem Stocked.exactVolume_eq (stocked : Stocked book sorted order) (side : Side) :
    exactVolume (book.decls side) = exactVolume (sorted.decls side) :=
  exactVolume_perm (stocked.matching side).perm

omit [Zero P] in
theorem Stocked.mem_iff (stocked : Stocked book sorted order) {side : Side} {r : Record P} :
    r ∈ book.decls side ↔ r ∈ sorted.decls side :=
  (stocked.matching side).perm.mem_iff

omit [Zero P] in
/-- The price of an order plays no part in what its loop needs. -/
theorem Stocked.withPrice (stocked : Stocked book sorted order) (price : P) :
    Stocked book sorted { order with price := price } :=
  ⟨stocked.matching, stocked.positive, stocked.volumePositive, stocked.volumeSmall⟩

/-- The loop of a handler performs the sweep of the side opposite to the order. -/
theorem Stocked.startLoop_refines (stocked : Stocked book sorted order) (side : Side)
    (test : Levels P → Record P → Option (Levels P)) (onEmpty : Except Fault Unit)
    (available : onEmpty = .ok () ∨ order.volume ≤ exactVolume (sorted.decls side.other)) :
    ∃ heap, startLoop algorithms stkCode book order side test onEmpty =
        .ok
          { book := book.setDecls side.other heap
            leftVolume := (sweep stkCode order side.other test Levels.start order.volume
              (sorted.decls side.other)).left
            trades := (sweep stkCode order side.other test Levels.start order.volume
              (sorted.decls side.other)).trades } ∧
      Represents side.other.lt heap (sweep stkCode order side.other test Levels.start
        order.volume (sorted.decls side.other)).rest := by
  have represents := stocked.matching side.other
  rcases matchLoop_refines algorithms stkCode order side.other test onEmpty
    (sorted.decls side.other) ((book.decls side.other).length + 1) Levels.start
    (LoopState.start book order) represents (stocked.positive side.other)
    stocked.volumePositive.le stocked.volumeSmall
    (by rw [represents.perm.length_eq]; omega) available with ⟨heap, looped, represents'⟩
  exact ⟨heap, by simpa [startLoop, LoopState.start] using looped, represents'⟩

/-- Handlers whose tests agree on the opposite side run in lockstep. -/
theorem Stocked.startLoop_congr (stocked : Stocked book sorted order) (side : Side)
    {test test' : Levels P → Record P → Option (Levels P)} {onEmpty onEmpty' : Except Fault Unit}
    (agree : ∀ levels, ∀ r ∈ sorted.decls side.other, test levels r = test' levels r)
    (available : onEmpty = onEmpty' ∨ order.volume ≤ exactVolume (sorted.decls side.other)) :
    startLoop algorithms stkCode book order side test onEmpty =
      startLoop algorithms stkCode book order side test' onEmpty' :=
  matchLoop_congr algorithms stkCode order side.other _ _ _ _ (stocked.matching side.other)
    (stocked.positive side.other) stocked.volumePositive.le stocked.volumeSmall agree available

theorem startLoop_withPrice (book : StockDeclarationBook P) (order : Order P) (side : Side)
    (price : P) (test : Levels P → Record P → Option (Levels P)) (onEmpty : Except Fault Unit) :
    startLoop algorithms stkCode book { order with price := price } side test onEmpty =
      startLoop algorithms stkCode book order side test onEmpty :=
  matchLoop_withPrice algorithms stkCode order side.other price test onEmpty _ _ _

/-! ## Types 1 and 2 are limit orders -/

/-- The best price at which a side has records. -/
def BestPrice (book : StockDeclarationBook P) (side : Side) (price : P) : Prop :=
  (∃ r ∈ book.decls side, r.price = price) ∧
    ∀ r ∈ book.decls side, ¬ side.Better r.price price

omit [Zero P] in
/-- The best price is the price of the head of the sorted side. -/
theorem BestPrice.exists_cons (stocked : Stocked book sorted order) {side : Side} {price : P}
    (best : BestPrice book side price) (ordered : Sorted side (sorted.decls side)) :
    ∃ first rest, sorted.decls side = first :: rest ∧ first.price = price := by
  rcases best with ⟨⟨r, member, rfl⟩, notBetter⟩
  rw [stocked.mem_iff] at member
  cases split : sorted.decls side with
  | nil =>
      rw [split] at member
      contradiction
  | cons first rest =>
      rw [split] at member ordered
      have inBook : first ∈ book.decls side := by
        rw [stocked.mem_iff, split]
        exact List.mem_cons_self
      refine ⟨first, rest, rfl, ?_⟩
      rcases side.better_trichotomy first.price r.price with better | equal | better
      · exact absurd better (notBetter first inBook)
      · exact equal
      · exact absurd better (ordered.head_best r member)

omit [Zero P] in
/-- A record that is not at the best price is beyond it. -/
theorem BestPrice.ne_iff_better {side : Side} {price : P}
    (best : BestPrice book side.other price) {r : Record P}
    (member : r ∈ book.decls side.other) : r.price ≠ price ↔ side.Better r.price price := by
  have notBetter := best.2 r member
  rw [Side.better_other] at notBetter
  rcases side.better_trichotomy r.price price with better | equal | better
  · refine iff_of_true ?_ better
    intro equal
    rw [equal] at better
    exact side.better_irrefl _ better
  · exact iff_of_false (not_not.mpr equal) (equal ▸ side.better_irrefl _)
  · exact absurd better notBetter

omit [Zero P] in
/-- The exits of types 0 and 1 leave the same remainder. -/
theorem leaveRemainder_exit (order : Order P) (side : Side) (price : P) (state : LoopState P) :
    (.ok ⟨leaveRemainder algorithms order side.other price state.book state.leftVolume,
        state.trades, 0, 0⟩ : Except Fault (Outcome P)) =
      if state.leftVolume ≠ 0 then do
        let book ← state.book.insertDecl algorithms side
          ⟨order.orderId, price, state.leftVolume⟩
        pure ⟨book, state.trades, 0, 0⟩
      else pure ⟨state.book, state.trades, 0, 0⟩ := by
  by_cases used : state.leftVolume = 0
  · simp [leaveRemainder, used]
  · rw [if_pos used, leaveRemainder, if_neg used, StockDeclarationBook.insertDecl, if_neg used,
      Side.other_other]
    rfl

/-- A limit order performs its sweep and leaves the remainder at its price. -/
theorem Stocked.handleLimitOrder_refines (stocked : Stocked book sorted order)
    (sided : sideOf order = some side) {swept : Swept P}
    (sweptEq : sweep stkCode order side.other
      (fun levels r => if side.Better r.price order.price then none else some levels)
      Levels.start order.volume (sorted.decls side.other) = swept) :
    ∃ heap, handleLimitOrder algorithms stkCode book order =
        .ok ⟨leaveRemainder algorithms order side.other order.price
          (book.setDecls side.other heap) swept.left, swept.trades, 0, 0⟩ ∧
      Represents side.other.lt heap swept.rest := by
  subst sweptEq
  rcases stocked.startLoop_refines algorithms stkCode side
    (fun levels r => if side.Better r.price order.price then none else some levels) (.ok ())
    (Or.inl rfl) with ⟨heap, looped, represents⟩
  refine ⟨heap, ?_, represents⟩
  rw [handleLimitOrder_eq algorithms stkCode book sided, looped, ok_bind,
    ← leaveRemainder_exit algorithms order side order.price]

/-- Type 1 is a limit order at the best price of the opposite side. -/
theorem Stocked.handleCounterpartyBest_eq_limit (stocked : Stocked book sorted order)
    (ordered : Sorted side.other (sorted.decls side.other)) (sided : sideOf order = some side)
    {price : P} (best : BestPrice book side.other price) :
    handleCounterpartyBest algorithms stkCode book order =
      handleLimitOrder algorithms stkCode book { order with price := price } := by
  rcases best.exists_cons stocked ordered with ⟨first, rest, opposite, rfl⟩
  have represents := stocked.matching side.other
  rw [opposite] at represents
  have length := represents.perm.length_eq
  simp only [List.length_cons] at length
  have looped := counterpartyLoop_eq_matchLoop algorithms stkCode order side.other first.price
    Levels.start ((book.decls side.other).length + 1) (LoopState.start book order) first rest rfl
    represents (opposite ▸ stocked.positive side.other) stocked.volumePositive
    stocked.volumeSmall (by omega)
  have agree : startLoop algorithms stkCode book order side
        (fun levels s => if s.price ≠ first.price then none else some levels) (.ok ()) =
      startLoop algorithms stkCode book order side
        (fun levels r => if side.Better r.price first.price then none else some levels)
        (.ok ()) := by
    apply stocked.startLoop_congr algorithms stkCode side _ (Or.inl rfl)
    intro levels r member
    simp only [best.ne_iff_better (stocked.mem_iff.mpr member)]
  have limitSided : sideOf { order with price := first.price } = some side := sided
  rw [handleLimitOrder_eq algorithms stkCode book limitSided, startLoop_withPrice, ← agree,
    handleCounterpartyBest_eq algorithms stkCode book sided,
    stocked.matching.queryFirst side.other, opposite]
  simp only [List.head?_cons, looped, bind_assoc, pure_bind]
  exact bind_congr fun state => leaveRemainder_exit algorithms order side first.price state

omit [Zero P] in
/-- Type 2 leaves the whole order at the front price of its own side. -/
theorem handleOurBest_eq_ok (sided : sideOf order = some side) {r : Record P}
    (query : book.queryFirst side = some r) (remains : order.volume ≠ 0) :
    handleOurBest algorithms book order =
      .ok ⟨book.setDecls side (algorithms.insert side.lt (book.decls side)
        ⟨order.orderId, r.price, order.volume⟩), [], 0, 0⟩ := by
  rw [handleOurBest_eq algorithms book sided, query]
  simp [StockDeclarationBook.insertDecl, remains]

/-- Type 2 is a limit order at the best price of its own side: in an uncrossed
book such an order finds nothing to trade with. -/
theorem Stocked.handleOurBest_eq_limit {latest : Int} (stocked : Stocked book sorted order)
    (sound : Sound latest sorted) (sided : sideOf order = some side) {price : P}
    (best : BestPrice book side price) :
    handleOurBest algorithms book order =
      handleLimitOrder algorithms stkCode book { order with price := price } := by
  rcases best.exists_cons stocked (sound.sorted side) with ⟨first, rest, own, rfl⟩
  have firstMember : first ∈ sorted.decls side := own ▸ List.mem_cons_self
  have agree : startLoop algorithms stkCode book order side
        (fun levels r => if side.Better r.price first.price then none else some levels) (.ok ()) =
      startLoop algorithms stkCode book order side (fun _ _ => none) (.ok ()) := by
    apply stocked.startLoop_congr algorithms stkCode side _ (Or.inl rfl)
    intro levels r member
    exact if_pos (sound.uncrossed side first firstMember r member)
  have untouched : startLoop algorithms stkCode book order side (fun _ _ => none) (.ok ()) =
      .ok (LoopState.start book order) := by
    rw [startLoop, matchLoop]
    cases (LoopState.start book order).book.queryFirst side.other <;> simp
  have limitSided : sideOf { order with price := first.price } = some side := sided
  have query : book.queryFirst side = some first := by
    rw [stocked.matching.queryFirst side, own]
    rfl
  have remains : (LoopState.start book order).leftVolume ≠ 0 := stocked.volumePositive.ne'
  rw [handleLimitOrder_eq algorithms stkCode book limitSided, startLoop_withPrice, agree,
    untouched, handleOurBest_eq_ok algorithms sided query remains, ok_bind, if_pos remains,
    StockDeclarationBook.insertDecl, if_neg remains]
  rfl

/-- Type 4 performs the sweep that accepts every record and reports what is left. -/
theorem Stocked.handleImmediateOtherCancel_refines (stocked : Stocked book sorted order)
    (sided : sideOf order = some side) {swept : Swept P}
    (sweptEq : sweep stkCode order side.other (fun levels _ => some levels) Levels.start
      order.volume (sorted.decls side.other) = swept) :
    ∃ heap, handleImmediateOtherCancel algorithms stkCode book order =
        .ok ⟨book.setDecls side.other heap, swept.trades, swept.left, swept.left⟩ ∧
      Represents side.other.lt heap swept.rest := by
  subst sweptEq
  rcases stocked.startLoop_refines algorithms stkCode side (fun levels _ => some levels) (.ok ())
    (Or.inl rfl) with ⟨heap, looped, represents⟩
  refine ⟨heap, ?_, represents⟩
  rw [handleImmediateOtherCancel_eq algorithms stkCode book sided, looped]
  rfl

/-- Above every resting price, the loop of a limit order is that of type 4. -/
theorem Stocked.startLoop_unlimited (stocked : Stocked book sorted order) (side : Side) {price : P}
    (beyond : ∀ r ∈ book.decls side.other, ¬ side.Better r.price price) :
    startLoop algorithms stkCode book order side
        (fun levels r => if side.Better r.price price then none else some levels) (.ok ()) =
      startLoop algorithms stkCode book order side (fun levels _ => some levels) (.ok ()) := by
  apply stocked.startLoop_congr algorithms stkCode side _ (Or.inl rfl)
  intro levels r member
  exact if_neg (beyond r (stocked.mem_iff.mpr member))

omit [Zero P] in
/-- Passing the guard of type 5 means that the opposite side can fill the order,
also when the accumulated total has wrapped. -/
theorem Stocked.covered_of_total (stocked : Stocked book sorted order) {side : Side}
    (guard : order.volume ≤ StockDeclarationBook.totalVolume (book.decls side)) :
    order.volume ≤ exactVolume (sorted.decls side) := by
  rw [Represents.totalVolume (stocked.matching side)] at guard
  exact guard.trans (wrapInt32_le (stocked.positive side).exactVolume_nonneg)

/-- Type 4 fills an order that the opposite side covers. -/
theorem Stocked.sweep_covered (stocked : Stocked book sorted order) {side : Side}
    (covered : order.volume ≤ exactVolume (sorted.decls side)) :
    (sweep stkCode order side (fun levels _ => some levels) Levels.start order.volume
      (sorted.decls side)).left = 0 :=
  sweep_left_eq_zero stkCode order side _ Levels.start order.volume _ (by simp)
    stocked.volumePositive.le covered

/-- Behind its guard, type 5 is type 4, and both fill the whole order. -/
theorem Stocked.handleWholeOrCancel_eq_immediate (stocked : Stocked book sorted order)
    (sided : sideOf order = some side)
    (guard : order.volume ≤ StockDeclarationBook.totalVolume (book.decls side.other)) :
    ∃ outcome, handleWholeOrCancel algorithms stkCode book order = .ok outcome ∧
      handleImmediateOtherCancel algorithms stkCode book order = .ok outcome ∧
      outcome.ret = 0 ∧ totalTraded outcome.trades = order.volume := by
  have covered := stocked.covered_of_total guard
  rcases stocked.startLoop_refines algorithms stkCode side (fun levels _ => some levels) (.ok ())
    (Or.inl rfl) with ⟨heap, looped, _⟩
  have traded := totalTraded_sweep stkCode order side.other (fun levels _ => some levels)
    Levels.start stocked.volumePositive.le (sorted.decls side.other)
  rw [stocked.sweep_covered stkCode covered] at looped traded
  have lockstep : startLoop algorithms stkCode book order side (fun levels _ => some levels)
        (.error .noCounterparty) =
      startLoop algorithms stkCode book order side (fun levels _ => some levels) (.ok ()) :=
    stocked.startLoop_congr algorithms stkCode side (fun _ _ _ => rfl) (Or.inr covered)
  refine ⟨⟨book.setDecls side.other heap, _, 0, 0⟩, ?_, ?_, rfl, traded.trans (Int.sub_zero _)⟩
  · rw [handleWholeOrCancel_eq algorithms stkCode book sided, if_neg (not_lt.mpr guard), lockstep,
      looped]
    rfl
  · rw [handleImmediateOtherCancel_eq algorithms stkCode book sided, looped]
    rfl

/-- In front of its guard, type 5 cancels the whole order. -/
theorem handleWholeOrCancel_eq_refuse (sided : sideOf order = some side)
    (guard : StockDeclarationBook.totalVolume (book.decls side.other) < order.volume) :
    handleWholeOrCancel algorithms stkCode book order = .ok (Outcome.refuse book order (-1)) := by
  rw [handleWholeOrCancel_eq algorithms stkCode book sided, if_pos guard]
  rfl

end Handlers

/-! ## Reachable books -/

section Reachable

variable [Zero P] {algorithms : HeapAlgorithms} {stkCode : Int} {book : StockDeclarationBook P}
  {order : Order P} {side : Side}

/-- The books a stock exchange reaches by committing orders with increasing ids
and positive `int` volumes. -/
def Reachable (algorithms : HeapAlgorithms) (stkCode : Int) (book : StockDeclarationBook P) :
    Prop :=
  ∃ orders trades, Feed orders ∧
    commitOrders algorithms stkCode StockDeclarationBook.empty orders = .ok (book, trades)

theorem Reachable.exists_sound (reachable : Reachable algorithms stkCode book) :
    ∃ latest sorted, Sound latest sorted ∧ Matches book sorted := by
  rcases reachable with ⟨orders, trades, feed, committed⟩
  rcases feed.exists_latest with ⟨latest, later⟩
  rcases exists_bound orders latest with ⟨bound, le, bounded⟩
  rcases commitOrders_refines_empty stkCode algorithms feed with ⟨final, refined, matching⟩
  rw [committed] at refined
  cases refined
  exact ⟨bound, _, (Sound.empty latest).run stkCode feed later le bounded, matching⟩

theorem Reachable.exists_stocked (reachable : Reachable algorithms stkCode book)
    (volume : 0 < order.volume ∧ order.volume ≤ intMax) :
    ∃ latest sorted, Sound latest sorted ∧ Stocked book sorted order := by
  rcases reachable.exists_sound with ⟨latest, sorted, sound, matching⟩
  exact ⟨latest, sorted, sound, matching, sound.positive, volume.1, volume.2⟩

/-- Two sells that rest at different prices. -/
def twoSells : StockDeclarationBook Int :=
  ⟨[], [⟨2, 4, 10⟩, ⟨1, 5, 10⟩]⟩

theorem twoSells_reachable : Reachable binaryHeap 1 twoSells :=
  ⟨[⟨1, 1, -1, 0, 5, 10⟩, ⟨1, 2, -1, 0, 4, 10⟩], [], ⟨by decide, by decide⟩, rfl⟩

/-- Type 5 is all or nothing: it cancels the order without touching the book, or
it fills the order completely, exactly as type 4 would, and its assertion never
fires. -/
theorem handleWholeOrCancel_all_or_nothing (order : Order P)
    (reachable : Reachable algorithms stkCode book)
    (directed : order.direction = 1 ∨ order.direction = -1)
    (volume : 0 < order.volume ∧ order.volume ≤ intMax) :
    ∃ outcome, handleWholeOrCancel algorithms stkCode book order = .ok outcome ∧
      (outcome.ret = -1 ∧ outcome.trades = [] ∧ outcome.book = book ∨
        outcome.ret = 0 ∧ totalTraded outcome.trades = order.volume ∧
          ∃ immediate, handleImmediateOtherCancel algorithms stkCode book order = .ok immediate ∧
            outcome.trades = immediate.trades ∧ outcome.book = immediate.book) := by
  rcases sideOf_of_direction directed with ⟨side, sided⟩
  rcases reachable.exists_stocked volume with ⟨latest, sorted, _, stocked⟩
  by_cases guard : order.volume ≤ StockDeclarationBook.totalVolume (book.decls side.other)
  · rcases stocked.handleWholeOrCancel_eq_immediate algorithms stkCode sided guard with
      ⟨outcome, whole, immediate, ret, traded⟩
    exact ⟨outcome, whole, Or.inr ⟨ret, traded, outcome, immediate, rfl, rfl⟩⟩
  · exact ⟨_, handleWholeOrCancel_eq_refuse algorithms stkCode sided (not_le.mp guard),
      Or.inl ⟨rfl, rfl, rfl⟩⟩

/-- A buy of 15 takes one sell and half of the other. -/
theorem handleWholeOrCancel_all_or_nothing_buy :
    ∃ outcome, handleWholeOrCancel binaryHeap 1 twoSells ⟨1, 3, 1, 5, 0, 15⟩ = .ok outcome ∧
      outcome.ret = 0 ∧ totalTraded outcome.trades = 15 := by
  rcases handleWholeOrCancel_all_or_nothing ⟨1, 3, 1, 5, 0, 15⟩ twoSells_reachable
    (Or.inl rfl) (by decide) with ⟨outcome, handled, ⟨refused, _⟩ | ⟨ret, traded, _⟩⟩
  · cases handled
    contradiction
  · exact ⟨outcome, handled, ret, traded⟩

/-- Type 5 fills exactly the orders that pass its guard. -/
theorem Stocked.handleWholeOrCancel_filled_iff {sorted : StockDeclarationBook P}
    (stocked : Stocked book sorted order) (sided : sideOf order = some side) :
    (∃ outcome, handleWholeOrCancel algorithms stkCode book order = .ok outcome ∧
        totalTraded outcome.trades = order.volume) ↔
      order.volume ≤ StockDeclarationBook.totalVolume (book.decls side.other) := by
  constructor
  · rintro ⟨outcome, handled, traded⟩
    by_contra guard
    rw [handleWholeOrCancel_eq_refuse algorithms stkCode sided (not_le.mp guard)] at handled
    cases handled
    exact absurd traded stocked.volumePositive.ne
  · intro guard
    rcases stocked.handleWholeOrCancel_eq_immediate algorithms stkCode sided guard with
      ⟨outcome, whole, _, _, traded⟩
    exact ⟨outcome, whole, traded⟩

/-- Type 5 fills an order exactly when the opposite side covers it if and only
if the accumulated total has not wrapped below an order that could be filled. -/
theorem handleWholeOrCancel_filled_iff_covered (order : Order P)
    (reachable : Reachable algorithms stkCode book)
    (sided : sideOf order = some side) (volume : 0 < order.volume ∧ order.volume ≤ intMax) :
    ((∃ outcome, handleWholeOrCancel algorithms stkCode book order = .ok outcome ∧
          totalTraded outcome.trades = order.volume) ↔
        order.volume ≤ exactVolume (book.decls side.other)) ↔
      exactVolume (book.decls side.other) < order.volume ∨
        order.volume ≤ wrapInt32 (exactVolume (book.decls side.other)) := by
  rcases reachable.exists_stocked volume with ⟨latest, sorted, _, stocked⟩
  have total : StockDeclarationBook.totalVolume (book.decls side.other) =
      wrapInt32 (exactVolume (book.decls side.other)) :=
    StockDeclarationBook.totalVolume_eq_wrapInt32_sum _
  have wrapped : wrapInt32 (exactVolume (book.decls side.other)) ≤
      exactVolume (book.decls side.other) := by
    rw [stocked.exactVolume_eq]
    exact wrapInt32_le (stocked.positive side.other).exactVolume_nonneg
  rw [stocked.handleWholeOrCancel_filled_iff sided, total]
  omega

/-- On small totals type 5 fills what it can. -/
theorem handleWholeOrCancel_filled_iff_covered_buy :
    (∃ outcome, handleWholeOrCancel binaryHeap 1 twoSells ⟨1, 3, 1, 5, 0, 15⟩ = .ok outcome ∧
        totalTraded outcome.trades = 15) ↔ 15 ≤ exactVolume twoSells.sellDecls :=
  (handleWholeOrCancel_filled_iff_covered ⟨1, 3, 1, 5, 0, 15⟩
    twoSells_reachable rfl (by decide)).mpr (Or.inr (by decide))

/-- Two sells whose volumes add up to `2 ^ 32 - 2`. -/
def deepSells : StockDeclarationBook Int :=
  ⟨[], [⟨2, 4, 2147483647⟩, ⟨1, 5, 2147483647⟩]⟩

/-- A buy of volume 1 is cancelled although more than four thousand million rest
on the other side. -/
theorem handleWholeOrCancel_cancels_covered :
    Reachable binaryHeap 1 deepSells ∧
      ¬ ((∃ outcome, handleWholeOrCancel binaryHeap 1 deepSells ⟨1, 3, 1, 5, 0, 1⟩ = .ok outcome ∧
            totalTraded outcome.trades = 1) ↔
          1 ≤ exactVolume deepSells.sellDecls) := by
  constructor
  · exact ⟨[⟨1, 1, -1, 0, 5, 2147483647⟩, ⟨1, 2, -1, 0, 4, 2147483647⟩], [],
      ⟨by decide, by decide⟩, rfl⟩
  · intro fills
    rcases fills.mpr (by decide) with ⟨outcome, handled, traded⟩
    cases handled
    contradiction

/-- Types 1 and 2 are limit orders at the best price of the opposite side and of
the own side; without such a price they are refused. -/
theorem best_price_handlers_eq_limit (order : Order P)
    (reachable : Reachable algorithms stkCode book)
    (sided : sideOf order = some side) (volume : 0 < order.volume ∧ order.volume ≤ intMax) :
    (∀ price, BestPrice book side.other price →
        ∃ outcome, handleCounterpartyBest algorithms stkCode book order = .ok outcome ∧
          handleLimitOrder algorithms stkCode book { order with price := price } = .ok outcome) ∧
      (∀ price, BestPrice book side price →
        ∃ outcome, handleOurBest algorithms book order = .ok outcome ∧
          handleLimitOrder algorithms stkCode book { order with price := price } = .ok outcome ∧
          outcome.trades = []) ∧
      (book.decls side.other = [] →
        handleCounterpartyBest algorithms stkCode book order = .ok ⟨book, [], -1, order.volume⟩) ∧
      (book.decls side = [] →
        handleOurBest algorithms book order = .ok ⟨book, [], -1, order.volume⟩) := by
  rcases reachable.exists_stocked volume with ⟨latest, sorted, sound, stocked⟩
  refine ⟨?_, ?_, ?_, ?_⟩
  · intro price best
    rcases (stocked.withPrice price).handleLimitOrder_refines algorithms stkCode sided rfl with
      ⟨heap, limited, _⟩
    refine ⟨_, ?_, limited⟩
    rw [← limited]
    exact stocked.handleCounterpartyBest_eq_limit algorithms stkCode (sound.sorted side.other)
      sided best
  · intro price best
    have equal := stocked.handleOurBest_eq_limit algorithms stkCode sound sided best
    rcases best.exists_cons stocked (sound.sorted side) with ⟨first, rest, own, rfl⟩
    have query : book.queryFirst side = some first := by
      rw [stocked.matching.queryFirst side, own]
      rfl
    have handled := handleOurBest_eq_ok algorithms sided query volume.1.ne'
    exact ⟨_, handled, equal ▸ handled, rfl⟩
  · intro empty
    rw [handleCounterpartyBest_eq algorithms stkCode book sided,
      StockDeclarationBook.queryFirst_eq_head?, empty]
    rfl
  · intro empty
    rw [handleOurBest_eq algorithms book sided, StockDeclarationBook.queryFirst_eq_head?, empty]
    rfl

/-- A type 1 buy is a limit order at 4, and a type 2 buy finds no own price. -/
theorem best_price_handlers_eq_limit_buy :
    (∃ outcome, handleCounterpartyBest binaryHeap 1 twoSells ⟨1, 3, 1, 1, 0, 15⟩ = .ok outcome ∧
        handleLimitOrder binaryHeap 1 twoSells ⟨1, 3, 1, 1, 4, 15⟩ = .ok outcome) ∧
      handleOurBest binaryHeap twoSells ⟨1, 3, 1, 2, 0, 15⟩ = .ok ⟨twoSells, [], -1, 15⟩ := by
  constructor
  · refine (best_price_handlers_eq_limit ⟨1, 3, 1, 1, 0, 15⟩
      twoSells_reachable rfl (by decide)).1 4 ?_
    unfold BestPrice
    decide
  · exact (best_price_handlers_eq_limit ⟨1, 3, 1, 2, 0, 15⟩
      twoSells_reachable rfl (by decide)).2.2.2 rfl

/-- Type 4 is a limit order whose limit is beyond every resting price, without
the remainder. -/
theorem handleImmediateOtherCancel_eq_unlimited (order : Order P)
    (reachable : Reachable algorithms stkCode book)
    (sided : sideOf order = some side) (volume : 0 < order.volume ∧ order.volume ≤ intMax)
    (price : P) (beyond : ∀ r ∈ book.decls side.other, ¬ side.Better r.price price) :
    ∃ immediate limited,
      handleImmediateOtherCancel algorithms stkCode book order = .ok immediate ∧
      handleLimitOrder algorithms stkCode book { order with price := price } = .ok limited ∧
      immediate.trades = limited.trades ∧
      immediate.book.decls side.other = limited.book.decls side.other ∧
      immediate.book.decls side = book.decls side ∧
      (order.volume - totalTraded immediate.trades = 0 →
        limited.book.decls side = immediate.book.decls side) ∧
      (order.volume - totalTraded immediate.trades ≠ 0 →
        (limited.book.decls side).Perm
          (⟨order.orderId, price, order.volume - totalTraded immediate.trades⟩ ::
            immediate.book.decls side)) := by
  rcases reachable.exists_stocked volume with ⟨latest, sorted, _, stocked⟩
  have limitSided : sideOf { order with price := price } = some side := sided
  have traded := totalTraded_sweep stkCode order side.other (fun levels _ => some levels)
    Levels.start stocked.volumePositive.le (sorted.decls side.other)
  rcases stocked.startLoop_refines algorithms stkCode side (fun levels _ => some levels) (.ok ())
    (Or.inl rfl) with ⟨heap, looped, _⟩
  generalize sweep stkCode order side.other (fun levels _ => some levels) Levels.start order.volume
    (sorted.decls side.other) = swept at traded looped
  have left : order.volume - totalTraded swept.trades = swept.left := by omega
  refine ⟨⟨book.setDecls side.other heap, swept.trades, swept.left, swept.left⟩,
    ⟨leaveRemainder algorithms order side.other price (book.setDecls side.other heap) swept.left,
      swept.trades, 0, 0⟩, ?_, ?_, rfl, ?_, ?_, ?_, ?_⟩
  · rw [handleImmediateOtherCancel_eq algorithms stkCode book sided, looped]
    rfl
  · rw [handleLimitOrder_eq algorithms stkCode book limitSided, startLoop_withPrice,
      stocked.startLoop_unlimited algorithms stkCode side beyond, looped, ok_bind]
    exact (leaveRemainder_exit algorithms order side price _).symm
  · simp only [leaveRemainder]
    split
    · rfl
    · simp
  · simp
  · intro used
    rw [left] at used
    simp [leaveRemainder, used]
  · intro remains
    rw [left] at remains ⊢
    simp only [leaveRemainder, if_neg remains, Side.other_other,
      StockDeclarationBook.decls_setDecls, StockDeclarationBook.decls_setDecls_of_other]
    exact algorithms.insert_perm side.lt_strictWeak (stocked.matching side).isHeap _

/-- Against two sells of 10, a type 4 buy of 25 is a limit buy at 5 whose
remainder of 5 does not rest. -/
theorem handleImmediateOtherCancel_eq_unlimited_buy :
    ∃ immediate limited,
      handleImmediateOtherCancel binaryHeap 1 twoSells ⟨1, 3, 1, 4, 0, 25⟩ = .ok immediate ∧
      handleLimitOrder binaryHeap 1 twoSells ⟨1, 3, 1, 4, 5, 25⟩ = .ok limited ∧
      immediate.trades = limited.trades ∧ immediate.book.buyDecls = [] := by
  rcases handleImmediateOtherCancel_eq_unlimited ⟨1, 3, 1, 4, 0, 25⟩
    twoSells_reachable rfl (by decide) 5 (by decide) with
    ⟨immediate, limited, handled, limit, trades, _, own, _⟩
  exact ⟨immediate, limited, handled, limit, trades, own⟩

end Reachable

end PpiwTrading.Exchange
