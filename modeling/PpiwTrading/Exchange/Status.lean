import PpiwTrading.Exchange.FiveLevel
import PpiwTrading.Exchange.ReceiveOrder

/-!
# The status of a commit

A handler reports through its return value what became of the order: 0 when all
of it was traded or left in the book, -1 when it was refused, and otherwise the
volume it dropped.  What is really dropped is read off the book before the
commit, so the two can be compared at every exit.  The selling branch of type 3
reports nothing, and `commitOrder` keeps no status of a known type.
-/

namespace PpiwTrading.Exchange

open PpiwTrading.Heap
open PpiwTrading.Exchange.Reference

variable {P : Type} [LinearOrder P]

/-- The part of an order that was neither traded nor left resting on its side. -/
def unfilled (side : Side) (book : StockDeclarationBook P) (order : Order P)
    (outcome : Outcome P) : Int :=
  order.volume - totalTraded outcome.trades -
    (exactVolume (outcome.book.decls side) - exactVolume (book.decls side))

omit [LinearOrder P] in
/-- An order that is refused is dropped whole. -/
theorem unfilled_refuse (side : Side) (book : StockDeclarationBook P) (order : Order P)
    (ret : Int) : unfilled side book order (Outcome.refuse book order ret) = order.volume := by
  simp [unfilled, Outcome.refuse, totalTraded]

omit [LinearOrder P] in
/-- Type 4 drops what the records do not cover. -/
theorem sweep_left_eq_max (stkCode : Int) (order : Order P) (side : Side) (levels : Levels P)
    {left : Int} (nonnegative : 0 ≤ left) {sorted : List (Record P)} (positive : Positive sorted) :
    (sweep stkCode order side (fun levels _ => some levels) levels left sorted).left =
      max 0 (left - exactVolume sorted) := by
  by_cases covered : left ≤ exactVolume sorted
  · rw [sweep_left_eq_zero stkCode order side _ levels left sorted (by simp) nonnegative covered]
    omega
  · have exhausted := sweep_rest_eq_nil stkCode order side levels left sorted
    rcases sweep_filled stkCode order side (fun levels _ => some levels) levels left sorted
      nonnegative with ⟨fills, filled, _⟩
    have balance := filled.balance
    have total : exactVolume sorted = _ := filled.volume_sum
    have restNonneg := (filled.rest_positive positive).exactVolume_nonneg
    rw [exactVolume] at restNonneg
    rw [exhausted (by omega), List.map_nil, List.sum_nil] at total
    omega

variable [Zero P]

section Handlers

variable (algorithms : HeapAlgorithms) (stkCode : Int)
  {book sorted : StockDeclarationBook P} {order : Order P} {side : Side}

omit [Zero P] in
/-- A remainder rests with its whole volume. -/
theorem exactVolume_leaveRemainder (order : Order P) (side : Side) (price : P)
    (isHeap : IsHeap side.lt (book.decls side)) (left : Int) (heap : List (Record P)) :
    exactVolume ((leaveRemainder algorithms order side.other price
      (book.setDecls side.other heap) left).decls side) = exactVolume (book.decls side) + left := by
  by_cases used : left = 0
  · simp [leaveRemainder, used]
  · simp only [leaveRemainder, if_neg used, Side.other_other,
      StockDeclarationBook.decls_setDecls, StockDeclarationBook.decls_setDecls_of_other]
    rw [exactVolume_perm (algorithms.insert_perm side.lt_strictWeak isHeap _)]
    simp only [exactVolume, List.map_cons, List.sum_cons]
    omega

omit [LinearOrder P] [Zero P] in
/-- A handler that only trades drops what it does not trade. -/
theorem unfilled_setDecls_other (order : Order P) (side : Side) (heap : List (Record P))
    (trades : List (Trade P)) (ret cancelled : Int) :
    unfilled side book order ⟨book.setDecls side.other heap, trades, ret, cancelled⟩ =
      order.volume - totalTraded trades := by
  simp [unfilled]

/-- A handler returns, drops `cancelled` of the order and reports `status`; it
reports -1 only when nothing has happened. -/
def Reports (side : Side) (book : StockDeclarationBook P) (order : Order P)
    (cancelled status : Int) (result : Except Fault (Outcome P)) : Prop :=
  ∃ outcome, result = .ok outcome ∧ unfilled side book order outcome = cancelled ∧
    outcome.ret = status ∧ (status = -1 → outcome.trades = [] ∧ outcome.book = book)

omit [LinearOrder P] [Zero P] in
theorem reports_refuse (side : Side) (book : StockDeclarationBook P) (order : Order P)
    (ret : Int) :
    Reports side book order order.volume ret (.ok (Outcome.refuse book order ret)) :=
  ⟨_, rfl, unfilled_refuse side book order ret, rfl, fun _ => ⟨rfl, rfl⟩⟩

/-- A limit order is traded or left in the book, never dropped. -/
theorem Stocked.limit_reports (stocked : Stocked book sorted order)
    (sided : sideOf order = some side) :
    Reports side book order 0 0 (handleLimitOrder algorithms stkCode book order) := by
  have traded := totalTraded_sweep stkCode order side.other
    (fun levels r => if side.Better r.price order.price then none else some levels)
    Levels.start stocked.volumePositive.le (sorted.decls side.other)
  rcases stocked.handleLimitOrder_refines algorithms stkCode sided rfl with ⟨heap, handled, _⟩
  refine ⟨_, handled, ?_, rfl, by simp⟩
  rw [unfilled, exactVolume_leaveRemainder algorithms order side order.price
    (stocked.matching side).isHeap]
  simp only [traded]
  omega

omit [Zero P] in
/-- A non-empty side has a best price. -/
theorem Stocked.exists_bestPrice {latest : Int} (stocked : Stocked book sorted order)
    (sound : Sound latest sorted) {side : Side} (nonempty : book.decls side ≠ []) :
    ∃ price, BestPrice book side price := by
  cases split : sorted.decls side with
  | nil =>
      have perm := (stocked.matching side).perm
      rw [split] at perm
      exact absurd perm.eq_nil nonempty
  | cons first rest =>
      have ordered := sound.sorted side
      rw [split] at ordered
      refine ⟨first.price, ⟨first, ?_, rfl⟩, ?_⟩
      · rw [stocked.mem_iff, split]
        exact List.mem_cons_self
      · intro r member
        rw [stocked.mem_iff, split] at member
        exact ordered.head_best r member

theorem Stocked.counterparty_reports {latest : Int} (stocked : Stocked book sorted order)
    (sound : Sound latest sorted) (sided : sideOf order = some side)
    (nonempty : book.decls side.other ≠ []) :
    Reports side book order 0 0 (handleCounterpartyBest algorithms stkCode book order) := by
  rcases stocked.exists_bestPrice sound nonempty with ⟨price, best⟩
  rw [stocked.handleCounterpartyBest_eq_limit algorithms stkCode (sound.sorted side.other) sided
    best]
  exact (stocked.withPrice price).limit_reports algorithms stkCode sided

theorem Stocked.ourBest_reports {latest : Int} (stocked : Stocked book sorted order)
    (sound : Sound latest sorted) (sided : sideOf order = some side)
    (nonempty : book.decls side ≠ []) :
    Reports side book order 0 0 (handleOurBest algorithms book order) := by
  rcases stocked.exists_bestPrice sound nonempty with ⟨price, best⟩
  rw [stocked.handleOurBest_eq_limit algorithms 0 sound sided best]
  exact (stocked.withPrice price).limit_reports algorithms 0 sided

/-- Type 3 drops what the records within its levels do not cover; only the
buying branch reports it. -/
theorem Stocked.fiveLevel_reports {latest : Int} (stocked : Stocked book sorted order)
    (sound : Sound latest sorted) (sided : sideOf order = some side) {cancelled : Int}
    (cancelledEq : cancelled =
      max 0 (order.volume - exactVolume (withinLevels side.other (book.decls side.other)))) :
    Reports side book order cancelled (fiveLevelStatus side cancelled)
      (handleFiveLevelOtherCancel algorithms stkCode book order) := by
  rw [exactVolume_perm (withinLevels_perm (stocked.head?_eq side.other)
    (stocked.matching side.other).perm)] at cancelledEq
  have withinPositive : Positive (withinLevels side.other (sorted.decls side.other)) :=
    (stocked.positive side.other).filter _
  have traded := totalTraded_sweep stkCode order side.other (fun levels _ => some levels)
    Levels.start stocked.volumePositive.le (withinLevels side.other (sorted.decls side.other))
  have left := sweep_left_eq_max stkCode order side.other Levels.start stocked.volumePositive.le
    withinPositive
  rcases stocked.handleFiveLevelOtherCancel_refines algorithms stkCode (sound.sorted side.other)
    sided rfl with ⟨heap, handled, _⟩
  rw [left, ← cancelledEq] at handled traded
  refine ⟨_, handled, ?_, rfl, ?_⟩
  · rw [unfilled_setDecls_other, traded]
    omega
  · cases side <;> simp only [fiveLevelStatus] <;> omega

/-- Type 4 drops and reports what the opposite side does not cover. -/
theorem Stocked.immediate_reports (stocked : Stocked book sorted order)
    (sided : sideOf order = some side) {cancelled : Int}
    (cancelledEq : cancelled = max 0 (order.volume - exactVolume (book.decls side.other))) :
    Reports side book order cancelled cancelled
      (handleImmediateOtherCancel algorithms stkCode book order) := by
  rw [stocked.exactVolume_eq] at cancelledEq
  have traded := totalTraded_sweep stkCode order side.other (fun levels _ => some levels)
    Levels.start stocked.volumePositive.le (sorted.decls side.other)
  have left := sweep_left_eq_max stkCode order side.other Levels.start stocked.volumePositive.le
    (stocked.positive side.other)
  rcases stocked.handleImmediateOtherCancel_refines algorithms stkCode sided rfl with
    ⟨heap, handled, _⟩
  rw [left, ← cancelledEq] at handled traded
  refine ⟨_, handled, ?_, rfl, by omega⟩
  rw [unfilled_setDecls_other, traded]
  omega

theorem Stocked.whole_reports (stocked : Stocked book sorted order)
    (sided : sideOf order = some side)
    (guard : order.volume ≤ wrapInt32 (exactVolume (book.decls side.other))) :
    Reports side book order 0 0 (handleWholeOrCancel algorithms stkCode book order) := by
  rw [exactVolume, ← StockDeclarationBook.totalVolume_eq_wrapInt32_sum] at guard
  rcases stocked.handleWholeOrCancel_eq_immediate algorithms stkCode sided guard with
    ⟨outcome, whole, immediate, ret, traded⟩
  rcases stocked.immediate_reports algorithms stkCode sided rfl with
    ⟨outcome', immediate', dropped, _⟩
  rw [immediate] at immediate'
  cases immediate'
  have covered := stocked.covered_of_total guard
  rw [← stocked.exactVolume_eq] at covered
  refine ⟨outcome, whole, ?_, ret, by simp⟩
  rw [dropped]
  omega

theorem whole_reports_refused (sided : sideOf order = some side)
    (guard : wrapInt32 (exactVolume (book.decls side.other)) < order.volume) :
    Reports side book order order.volume (-1)
      (handleWholeOrCancel algorithms stkCode book order) := by
  rw [exactVolume, ← StockDeclarationBook.totalVolume_eq_wrapInt32_sum] at guard
  rw [handleWholeOrCancel_eq_refuse algorithms stkCode sided guard]
  exact reports_refuse side book order (-1)

/-! ## The switch -/

/-- The part of an order that its commit drops, read off the book before it. -/
def cancelledVolume (side : Side) (book : StockDeclarationBook P) (order : Order P) : Int :=
  if order.type = 0 then 0
  else if order.type = 1 then
    if (book.decls side.other).isEmpty then order.volume else 0
  else if order.type = 2 then
    if (book.decls side).isEmpty then order.volume else 0
  else if order.type = 3 then
    max 0 (order.volume - exactVolume (withinLevels side.other (book.decls side.other)))
  else if order.type = 4 then
    max 0 (order.volume - exactVolume (book.decls side.other))
  else if order.type = 5 then
    if order.volume ≤ wrapInt32 (exactVolume (book.decls side.other)) then 0 else order.volume
  else order.volume

/-- The status that the switch of `commitOrder` stores. -/
def handlerStatus (side : Side) (book : StockDeclarationBook P) (order : Order P) : Int :=
  if order.type = -1 ∨ order.type = 0 then 0
  else if order.type = 3 then fiveLevelStatus side (cancelledVolume side book order)
  else if order.type = 4 then cancelledVolume side book order
  else if cancelledVolume side book order = 0 then 0
  else -1

theorem cancelledVolume_nonneg (side : Side) (book : StockDeclarationBook P) {order : Order P}
    (nonnegative : 0 ≤ order.volume) : 0 ≤ cancelledVolume side book order := by
  unfold cancelledVolume
  split_ifs <;> omega

/-- Apart from type 3, a handler reports 0 exactly when it drops nothing. -/
theorem handlerStatus_eq_zero_iff (side : Side) (book : StockDeclarationBook P) {order : Order P}
    (handled : 0 ≤ order.type) (notFiveLevel : order.type ≠ 3) :
    handlerStatus side book order = 0 ↔ cancelledVolume side book order = 0 := by
  have notCancelled : order.type ≠ -1 := by omega
  by_cases limit : order.type = 0
  · simp [handlerStatus, cancelledVolume, limit]
  · simp only [handlerStatus, notCancelled, limit, or_self, if_false, if_neg notFiveLevel]
    split
    · rfl
    · split <;> simp_all

/-- The two branches of type 3. -/
theorem handlerStatus_fiveLevel (side : Side) (book : StockDeclarationBook P) {order : Order P}
    (fiveLevel : order.type = 3) :
    cancelledVolume side book order =
        max 0 (order.volume - exactVolume (withinLevels side.other (book.decls side.other))) ∧
      handlerStatus side book order =
        fiveLevelStatus side (cancelledVolume side book order) := by
  simp [handlerStatus, cancelledVolume, fiveLevel]

theorem Stocked.dispatchOrder_reports {latest : Int} (stocked : Stocked book sorted order)
    (sound : Sound latest sorted) (sided : sideOf order = some side) :
    Reports side book order (cancelledVolume side book order) (handlerStatus side book order)
      (dispatchOrder algorithms stkCode book order) := by
  have remains : order.volume ≠ 0 := stocked.volumePositive.ne'
  simp only [dispatchOrder, handlerStatus, cancelledVolume]
  by_cases cancelled : order.type = -1
  · simp only [cancelled, Int.reduceNeg, Int.reduceEq, if_false, if_true, or_false, pure_eq_ok]
    exact reports_refuse side book order 0
  by_cases type0 : order.type = 0
  · simp only [type0, if_true, or_true, Int.reduceNeg, Int.reduceEq, if_false]
    exact stocked.limit_reports algorithms stkCode sided
  simp only [cancelled, type0, or_self, if_false]
  by_cases type1 : order.type = 1
  · simp only [type1, Int.reduceEq, if_true, if_false]
    cases opposite : book.decls side.other with
    | nil =>
        rw [handleCounterpartyBest_eq algorithms stkCode book sided,
          StockDeclarationBook.queryFirst_eq_head?, opposite]
        simpa [remains] using reports_refuse side book order (-1)
    | cons first rest =>
        simpa using stocked.counterparty_reports algorithms stkCode sound sided (by simp [opposite])
  simp only [if_neg type1]
  by_cases type2 : order.type = 2
  · simp only [type2, Int.reduceEq, if_true, if_false]
    cases own : book.decls side with
    | nil =>
        rw [handleOurBest_eq algorithms book sided,
          StockDeclarationBook.queryFirst_eq_head?, own]
        simpa [remains] using reports_refuse side book order (-1)
    | cons first rest =>
        simpa using stocked.ourBest_reports algorithms sound sided (by simp [own])
  simp only [if_neg type2]
  by_cases type3 : order.type = 3
  · simp only [if_pos type3]
    exact stocked.fiveLevel_reports algorithms stkCode sound sided rfl
  simp only [if_neg type3]
  by_cases type4 : order.type = 4
  · simp only [if_pos type4]
    exact stocked.immediate_reports algorithms stkCode sided rfl
  simp only [if_neg type4]
  by_cases type5 : order.type = 5
  · simp only [if_pos type5]
    by_cases guard : order.volume ≤ wrapInt32 (exactVolume (book.decls side.other))
    · simpa only [if_pos guard, if_true] using stocked.whole_reports algorithms stkCode sided guard
    · simpa only [if_neg guard, if_neg remains] using
        whole_reports_refused algorithms stkCode sided (not_le.mp guard)
  · simp only [if_neg type5, if_neg remains]
    exact reports_refuse side book order (-1)

end Handlers

section Reachable

variable {algorithms : HeapAlgorithms} {stkCode : Int} {book : StockDeclarationBook P}
  {side : Side}

/-- What the status of a handler should say: 0 exactly when nothing of the order
was dropped, -1 only when nothing happened, and the dropped volume for a type 3
or 4 order that is not filled. -/
structure StatusLaw (side : Side) (book : StockDeclarationBook P) (order : Order P)
    (outcome : Outcome P) : Prop where
  zero_iff : outcome.ret = 0 ↔ unfilled side book order outcome = 0
  rejected : outcome.ret = -1 → outcome.trades = [] ∧ outcome.book = book
  remainder : order.type = 3 ∨ order.type = 4 → unfilled side book order outcome ≠ 0 →
    outcome.ret = unfilled side book order outcome ∧ 0 < unfilled side book order outcome

/-- Where type 3 does not sell more than the levels it may reach, the status tells
what is dropped. -/
theorem handlerStatus_reports (sided : sideOf order = some side) (handled : 0 ≤ order.type)
    (covered : ¬ (order.type = 3 ∧ order.direction = -1 ∧
      exactVolume (withinLevels side.other (book.decls side.other)) < order.volume)) :
    (handlerStatus side book order = 0 ↔ cancelledVolume side book order = 0) ∧
      (order.type = 3 ∨ order.type = 4 →
        handlerStatus side book order = cancelledVolume side book order) := by
  by_cases fiveLevel : order.type = 3
  · rcases handlerStatus_fiveLevel side book fiveLevel with ⟨cancelled, reported⟩
    cases side with
    | buy => simp [reported, fiveLevelStatus]
    | sell =>
        have selling := direction_of_sideOf_sell sided
        have nothing : cancelledVolume .sell book order = 0 := by
          rw [cancelled]
          omega
        simp [reported, fiveLevelStatus, nothing]
  · refine ⟨handlerStatus_eq_zero_iff side book handled fiveLevel, ?_⟩
    rintro (isFiveLevel | immediate)
    · contradiction
    · simp [handlerStatus, immediate]

/-- The handlers keep the law, except for a type 3 sell that the levels it may
reach do not cover. -/
theorem dispatchOrder_statusLaw_iff (order : Order P)
    (reachable : Reachable algorithms stkCode book) (sided : sideOf order = some side)
    (volume : 0 < order.volume ∧ order.volume ≤ intMax)
    (handled : 0 ≤ order.type ∧ order.type ≤ 5) :
    (∃ outcome, dispatchOrder algorithms stkCode book order = .ok outcome ∧
        StatusLaw side book order outcome) ↔
      ¬ (order.type = 3 ∧ order.direction = -1 ∧
        exactVolume (withinLevels side.other (book.decls side.other)) < order.volume) := by
  rcases reachable.exists_stocked volume with ⟨latest, sorted, sound, stocked⟩
  rcases stocked.dispatchOrder_reports algorithms stkCode sound sided with
    ⟨outcome, dispatched, dropped, status, refused⟩
  have nonnegative := cancelledVolume_nonneg side book volume.1.le
  constructor
  · rintro ⟨outcome', dispatched', law⟩ ⟨fiveLevel, selling, uncovered⟩
    rw [dispatched] at dispatched'
    cases dispatched'
    have sell : side = .sell := by
      cases side with
      | buy => exact absurd (direction_of_sideOf_buy sided) (by omega)
      | sell => rfl
    rcases handlerStatus_fiveLevel side book fiveLevel with ⟨cancelled, reported⟩
    have reportsZero : outcome.ret = 0 := by rw [status, reported, sell, fiveLevelStatus]
    have nothing := law.zero_iff.mp reportsZero
    rw [dropped, cancelled] at nothing
    omega
  · intro covered
    have reportsDropped := handlerStatus_reports sided handled.1 covered
    refine ⟨outcome, dispatched, ?_, ?_, ?_⟩
    · rw [status, dropped]
      exact reportsDropped.1
    · rw [status]
      exact refused
    · rw [status, dropped]
      intro cancelling remains
      exact ⟨reportsDropped.2 cancelling, by omega⟩

/-- A type 3 buy of 25 against two sells of 10 reports the 5 it drops. -/
theorem dispatchOrder_statusLaw_iff_buy :
    ∃ outcome, dispatchOrder binaryHeap 1 twoSells ⟨1, 3, 1, 3, 0, 25⟩ = .ok outcome ∧
      StatusLaw .buy twoSells ⟨1, 3, 1, 3, 0, 25⟩ outcome :=
  (dispatchOrder_statusLaw_iff ⟨1, 3, 1, 3, 0, 25⟩ twoSells_reachable rfl (by decide)
    (by decide)).mpr (by decide)

/-- A type 3 sell into an empty book drops its volume of 10 and reports 0. -/
theorem dispatchOrder_statusLaw_fails :
    Reachable binaryHeap 1 (StockDeclarationBook.empty : StockDeclarationBook Int) ∧
      ¬ ∃ outcome, dispatchOrder binaryHeap 1 StockDeclarationBook.empty
            (⟨1, 1, -1, 3, 0, 10⟩ : Order Int) = .ok outcome ∧
          StatusLaw .sell StockDeclarationBook.empty ⟨1, 1, -1, 3, 0, 10⟩ outcome := by
  constructor
  · exact ⟨[], [], ⟨by decide, by decide⟩, rfl⟩
  · rintro ⟨outcome, dispatched, law⟩
    cases dispatched
    have nothing := law.zero_iff.mp rfl
    contradiction

/-! ## What reaches `receiveOrder` -/

/-- The `ex_debug` lines of the loop of `receiveOrder`: the id of each order whose
commit returned a status other than 0, with that status. -/
def drainReports (algorithms : HeapAlgorithms) : Nat → Received P → List (Int × Int)
  | 0, _ => []
  | bound + 1, state =>
      match state.exchange.notReadyOrders with
      | [] => []
      | front :: _ =>
          if state.exchange.lastCommitOrderId + 1 ≠ front.orderId then []
          else
            match commitOrder algorithms state.exchange.stkCode state.exchange.declBook front with
            | .error _ => []
            | .ok outcome =>
                (if outcome.ret ≠ 0 then
                    [(state.exchange.lastCommitOrderId + 1, outcome.ret)]
                  else []) ++
                drainReports algorithms bound
                  { exchange :=
                      { state.exchange with
                        declBook := outcome.book
                        notReadyOrders :=
                          algorithms.removeFirst orderGtById state.exchange.notReadyOrders
                        lastCommitOrderId := state.exchange.lastCommitOrderId + 1 }
                    ret := outcome.ret
                    trades := state.trades ++ outcome.trades
                    committed := state.committed ++ [front] }

/-- The loop of `receiveOrder` is about to commit `order` on `book`. -/
structure Committing (stkCode : Int) (book : StockDeclarationBook P) (order : Order P)
    (state : Received P) : Prop where
  stock : state.exchange.stkCode = stkCode
  declBook : state.exchange.declBook = book
  front : state.exchange.notReadyOrders.head? = some order
  next : state.exchange.lastCommitOrderId + 1 = order.orderId

/-- Only orders that are still to be committed are reported. -/
theorem lt_of_mem_drainReports {bound : Nat} {state : Received P} {report : Int × Int}
    (member : report ∈ drainReports algorithms bound state) :
    state.exchange.lastCommitOrderId < report.1 := by
  induction bound generalizing state with
  | zero => contradiction
  | succ bound inductionHypothesis =>
      rw [drainReports] at member
      split at member
      · contradiction
      · split at member
        · contradiction
        · split at member
          · contradiction
          · rcases List.mem_append.mp member with now | later
            · split at now
              · rw [List.mem_singleton.mp now]
                omega
              · contradiction
            · have continued := inductionHypothesis later
              simp only at continued
              omega

/-- A commit is reported exactly when `commitOrder` returns a status other than
0. -/
theorem mem_drainReports_iff {order : Order P} {outcome : Outcome P} {state : Received P}
    (committing : Committing stkCode book order state)
    (committed : commitOrder algorithms stkCode book order = .ok outcome) (bound : Nat) :
    (∃ ret, (order.orderId, ret) ∈ drainReports algorithms (bound + 1) state) ↔
      outcome.ret ≠ 0 := by
  rcases List.head?_eq_some_iff.mp committing.front with ⟨rest, waiting⟩
  rw [drainReports, waiting]
  simp only [committing.next, ne_eq, not_true_eq_false, if_false, committing.stock,
    committing.declBook, committed]
  constructor
  · rintro ⟨ret, member⟩ zero
    rw [if_neg (not_not.mpr zero), List.nil_append] at member
    have later := lt_of_mem_drainReports member
    simp only at later
    omega
  · intro reported
    exact ⟨outcome.ret, by simp [reported]⟩

/-- What `commitOrder` should pass on: the status of the handler, which is not 0
when part of a type 1 to 5 order was dropped, so that `receiveOrder` reports
these commits and those of an unknown type. -/
structure RejectionReported (algorithms : HeapAlgorithms) (stkCode : Int) (side : Side)
    (book : StockDeclarationBook P) (order : Order P) : Prop where
  status : ∃ outcome handled, commitOrder algorithms stkCode book order = .ok outcome ∧
    dispatchOrder algorithms stkCode book order = .ok handled ∧ outcome.ret = handled.ret
  cancelled : ∀ outcome, commitOrder algorithms stkCode book order = .ok outcome →
    1 ≤ order.type ∧ order.type ≤ 5 → unfilled side book order outcome ≠ 0 → outcome.ret ≠ 0
  reported : ∀ outcome state bound, commitOrder algorithms stkCode book order = .ok outcome →
    Committing stkCode book order state →
    ((∃ ret, (order.orderId, ret) ∈ drainReports algorithms (bound + 1) state) ↔
      (1 ≤ order.type ∧ order.type ≤ 5) ∧ unfilled side book order outcome ≠ 0 ∨
        ¬ (-1 ≤ order.type ∧ order.type ≤ 5))

/-- The book lets an order of each of the types 1 to 5 go through whole. -/
structure Accommodates (side : Side) (book : StockDeclarationBook P) (order : Order P) :
    Prop where
  counterpartyBest : order.type = 1 → book.decls side.other ≠ []
  ourBest : order.type = 2 → book.decls side ≠ []
  fiveLevel : order.type = 3 →
    order.volume ≤ exactVolume (withinLevels side.other (book.decls side.other))
  immediate : order.type = 4 → order.volume ≤ exactVolume (book.decls side.other)
  whole : order.type = 5 → order.volume ≤ wrapInt32 (exactVolume (book.decls side.other))

/-- Nothing of a type 1 to 5 order is dropped exactly when the book lets it
through. -/
theorem accommodates_iff (side : Side) (book : StockDeclarationBook P) {order : Order P}
    (positive : 0 < order.volume) :
    Accommodates side book order ↔
      (1 ≤ order.type ∧ order.type ≤ 5 → cancelledVolume side book order = 0) := by
  constructor
  · intro accommodates known
    obtain type1 | type2 | type3 | type4 | type5 : order.type = 1 ∨ order.type = 2 ∨
        order.type = 3 ∨ order.type = 4 ∨ order.type = 5 := by omega
    · simp [cancelledVolume, type1, accommodates.counterpartyBest type1]
    · simp [cancelledVolume, type2, accommodates.ourBest type2]
    · simpa [cancelledVolume, type3] using accommodates.fiveLevel type3
    · simpa [cancelledVolume, type4] using accommodates.immediate type4
    · simp [cancelledVolume, type5, accommodates.whole type5]
  · intro nothing
    constructor
    · intro type1 empty
      have cancelled := nothing (by omega)
      simp [cancelledVolume, type1, empty, positive.ne'] at cancelled
    · intro type2 empty
      have cancelled := nothing (by omega)
      simp [cancelledVolume, type2, empty, positive.ne'] at cancelled
    · intro type3
      have cancelled := nothing (by omega)
      simpa [cancelledVolume, type3] using cancelled
    · intro type4
      have cancelled := nothing (by omega)
      simpa [cancelledVolume, type4] using cancelled
    · intro type5
      have cancelled := nothing (by omega)
      simpa [cancelledVolume, type5, positive.ne'] using cancelled

/-- A handler of a known type that drops nothing reports 0. -/
theorem handlerStatus_eq_zero (side : Side) (book : StockDeclarationBook P) {order : Order P}
    (known : -1 ≤ order.type ∧ order.type ≤ 5)
    (nothing : 1 ≤ order.type ∧ order.type ≤ 5 → cancelledVolume side book order = 0) :
    handlerStatus side book order = 0 := by
  by_cases untouched : order.type = -1 ∨ order.type = 0
  · rw [handlerStatus, if_pos untouched]
  · have cancelled := nothing (by omega)
    rw [handlerStatus, if_neg untouched, cancelled]
    cases side <;> simp [fiveLevelStatus]

/-- An order of an unknown type is reported with -1. -/
theorem handlerStatus_unknown (side : Side) (book : StockDeclarationBook P) {order : Order P}
    (positive : 0 < order.volume) (unknown : ¬ (-1 ≤ order.type ∧ order.type ≤ 5)) :
    handlerStatus side book order = -1 := by
  have others : ∀ k, -1 ≤ k → k ≤ 5 → order.type ≠ k := fun k _ _ => by omega
  simp [handlerStatus, cancelledVolume, others, positive.ne']

/-- `commitOrder` reports every rejection exactly for the orders of which nothing
is dropped: a status of a known type never leaves it. -/
theorem commitOrder_rejectionReported_iff (order : Order P)
    (reachable : Reachable algorithms stkCode book) (sided : sideOf order = some side)
    (volume : 0 < order.volume ∧ order.volume ≤ intMax) :
    RejectionReported algorithms stkCode side book order ↔ Accommodates side book order := by
  rcases reachable.exists_stocked volume with ⟨latest, sorted, sound, stocked⟩
  rcases stocked.dispatchOrder_reports algorithms stkCode sound sided with
    ⟨handled, dispatched, dropped, status, _⟩
  rw [accommodates_iff side book volume.1]
  by_cases known : -1 ≤ order.type ∧ order.type ≤ 5
  · have committed : commitOrder algorithms stkCode book order =
        .ok { handled with ret := 0 } := by
      rw [commitOrder_known algorithms stkCode book known, dispatched]
      rfl
    have droppedCommit : unfilled side book order { handled with ret := 0 } =
        cancelledVolume side book order := dropped
    constructor
    · intro reported rejectable
      by_contra remains
      exact reported.cancelled _ committed rejectable (by rwa [droppedCommit]) rfl
    · intro nothing
      have reportsNothing : handled.ret = 0 := by
        rw [status]
        exact handlerStatus_eq_zero side book known nothing
      refine ⟨⟨_, handled, committed, dispatched, reportsNothing.symm⟩, ?_, ?_⟩
      · intro outcome committed' rejectable remains
        rw [committed] at committed'
        cases committed'
        exact absurd (nothing rejectable) (droppedCommit ▸ remains)
      · intro outcome state bound committed' committing
        rw [committed] at committed'
        cases committed'
        rw [mem_drainReports_iff committing committed, droppedCommit]
        apply iff_of_false (by simp)
        rintro (⟨rejectable, remains⟩ | unknown)
        · exact remains (nothing rejectable)
        · exact unknown known
  · have committed : commitOrder algorithms stkCode book order = .ok handled := by
      rw [commitOrder_unknown algorithms stkCode book known, dispatched]
    have reportsUnknown : handled.ret ≠ 0 := by
      rw [status, handlerStatus_unknown side book volume.1 known]
      decide
    refine iff_of_true ⟨⟨handled, handled, committed, dispatched, rfl⟩, ?_, ?_⟩ (by omega)
    · intro outcome committed' rejectable
      omega
    · intro outcome state bound committed' committing
      rw [committed] at committed'
      cases committed'
      rw [mem_drainReports_iff committing committed]
      exact iff_of_true reportsUnknown (Or.inr known)

/-- Against two sells of 10, a type 4 buy of 15 is filled. -/
theorem commitOrder_rejectionReported_iff_buy :
    RejectionReported binaryHeap 1 .buy twoSells ⟨1, 3, 1, 4, 0, 15⟩ := by
  refine (commitOrder_rejectionReported_iff ⟨1, 3, 1, 4, 0, 15⟩ twoSells_reachable rfl
    (by decide)).mpr ?_
  constructor <;> decide

/-- A type 4 buy into an empty book is dropped whole, and `commitOrder` returns
0. -/
theorem commitOrder_rejection_lost :
    Reachable binaryHeap 1 (StockDeclarationBook.empty : StockDeclarationBook Int) ∧
      ¬ RejectionReported binaryHeap 1 .buy StockDeclarationBook.empty
        (⟨1, 1, 1, 4, 0, 10⟩ : Order Int) := by
  constructor
  · exact ⟨[], [], ⟨by decide, by decide⟩, rfl⟩
  · intro reported
    exact reported.cancelled _ rfl (by decide) (by decide) rfl

end Reachable

end PpiwTrading.Exchange
