import PpiwTrading.Exchange.Reference

/-!
# The handlers by side

Each handler is written once for buying and once for selling.  The equations
below give one body for both: the order trades against the side opposite to
its own and leaves a remainder on its own.  Only type 3 keeps two, because its
selling branch reports no remainder.
-/

namespace PpiwTrading.Exchange

open PpiwTrading.Heap
open PpiwTrading.Exchange.Reference

variable {P : Type} [LinearOrder P] [Zero P] (algorithms : HeapAlgorithms) (stkCode : Int)
  (book : StockDeclarationBook P) {order : Order P} {side : Side}

omit [LinearOrder P] [Zero P] in
theorem sideOf_of_direction (directed : order.direction = 1 ∨ order.direction = -1) :
    ∃ side, sideOf order = some side := by
  rcases directed with buying | selling
  · exact ⟨.buy, by simp [sideOf, buying]⟩
  · exact ⟨.sell, by simp [sideOf, selling]⟩

omit [LinearOrder P] [Zero P] in
theorem direction_of_sideOf_none (unsided : sideOf order = none) :
    order.direction ≠ 1 ∧ order.direction ≠ -1 := by
  simp only [sideOf] at unsided
  split at unsided
  · contradiction
  · split at unsided
    · contradiction
    · exact ⟨by assumption, by assumption⟩

/-- The loop of a handler, started on the side opposite to the order. -/
def startLoop (order : Order P) (side : Side)
    (test : Levels P → Record P → Option (Levels P)) (onEmpty : Except Fault Unit) :
    Except Fault (LoopState P) :=
  matchLoop algorithms stkCode order side.other test onEmpty
    ((book.decls side.other).length + 1) Levels.start (LoopState.start book order)

theorem handleLimitOrder_eq (sided : sideOf order = some side) :
    handleLimitOrder algorithms stkCode book order =
      (do
        let state ← startLoop algorithms stkCode book order side
          (fun levels r => if side.Better r.price order.price then none else some levels) (.ok ())
        if state.leftVolume ≠ 0 then
          let book ← state.book.insertDecl algorithms side
            ⟨order.orderId, order.price, state.leftVolume⟩
          pure ⟨book, state.trades, 0, 0⟩
        else
          pure ⟨state.book, state.trades, 0, 0⟩) := by
  cases side with
  | buy =>
      rw [handleLimitOrder, if_pos (direction_of_sideOf_buy sided)]
      rfl
  | sell =>
      have selling := direction_of_sideOf_sell sided
      rw [handleLimitOrder, if_neg (by omega), if_pos selling]
      rfl

omit [Zero P] in
theorem handleCounterpartyBest_eq (sided : sideOf order = some side) :
    handleCounterpartyBest algorithms stkCode book order =
      (match book.queryFirst side.other with
      | none => pure (Outcome.refuse book order (-1))
      | some r => do
          let state ← counterpartyLoop algorithms stkCode order side.other r.price
            ((book.decls side.other).length + 1) (LoopState.start book order) r
          pure ⟨state.book, state.trades, 0, 0⟩) := by
  cases side with
  | buy =>
      rw [handleCounterpartyBest, if_pos (direction_of_sideOf_buy sided)]
      rfl
  | sell =>
      have selling := direction_of_sideOf_sell sided
      rw [handleCounterpartyBest, if_neg (by omega), if_pos selling]
      rfl

omit [Zero P] in
theorem handleOurBest_eq (sided : sideOf order = some side) :
    handleOurBest algorithms book order =
      (match book.queryFirst side with
      | none => pure (Outcome.refuse book order (-1))
      | some r => do
          let book ← book.insertDecl algorithms side ⟨order.orderId, r.price, order.volume⟩
          pure ⟨book, [], 0, 0⟩) := by
  cases side with
  | buy =>
      rw [handleOurBest, if_pos (direction_of_sideOf_buy sided)]
      rfl
  | sell =>
      have selling := direction_of_sideOf_sell sided
      rw [handleOurBest, if_neg (by omega), if_pos selling]
      rfl

/-- The status of type 3: a selling order always reports 0. -/
def fiveLevelStatus (side : Side) (leftVolume : Int) : Int :=
  match side with
  | .buy => leftVolume
  | .sell => 0

theorem handleFiveLevelOtherCancel_eq (sided : sideOf order = some side) :
    handleFiveLevelOtherCancel algorithms stkCode book order =
      (do
        let state ← startLoop algorithms stkCode book order side levelTest (.ok ())
        pure ⟨state.book, state.trades, fiveLevelStatus side state.leftVolume,
          state.leftVolume⟩) := by
  cases side with
  | buy =>
      rw [handleFiveLevelOtherCancel, if_pos (direction_of_sideOf_buy sided)]
      refine bind_congr fun state => ?_
      by_cases used : state.leftVolume = 0
      · simp [used, fiveLevelStatus]
      · simp [used, fiveLevelStatus]
  | sell =>
      have selling := direction_of_sideOf_sell sided
      rw [handleFiveLevelOtherCancel, if_neg (by omega), if_pos selling]
      rfl

theorem handleImmediateOtherCancel_eq (sided : sideOf order = some side) :
    handleImmediateOtherCancel algorithms stkCode book order =
      (do
        let state ← startLoop algorithms stkCode book order side
          (fun levels _ => some levels) (.ok ())
        pure ⟨state.book, state.trades, state.leftVolume, state.leftVolume⟩) := by
  have report : ∀ state : LoopState P,
      (if state.leftVolume ≠ 0 then
          pure ⟨state.book, state.trades, state.leftVolume, state.leftVolume⟩
        else pure ⟨state.book, state.trades, 0, 0⟩ : Except Fault (Outcome P)) =
      pure ⟨state.book, state.trades, state.leftVolume, state.leftVolume⟩ := by
    intro state
    by_cases used : state.leftVolume = 0
    · simp [used]
    · simp [used]
  cases side with
  | buy =>
      rw [handleImmediateOtherCancel, if_pos (direction_of_sideOf_buy sided)]
      exact bind_congr report
  | sell =>
      have selling := direction_of_sideOf_sell sided
      rw [handleImmediateOtherCancel, if_neg (by omega), if_pos selling]
      exact bind_congr report

theorem handleWholeOrCancel_eq (sided : sideOf order = some side) :
    handleWholeOrCancel algorithms stkCode book order =
      (if order.volume > StockDeclarationBook.totalVolume (book.decls side.other) then
        pure (Outcome.refuse book order (-1))
      else do
        let state ← startLoop algorithms stkCode book order side
          (fun levels _ => some levels) (.error .noCounterparty)
        pure ⟨state.book, state.trades, 0, 0⟩) := by
  cases side with
  | buy =>
      rw [handleWholeOrCancel, if_pos (direction_of_sideOf_buy sided)]
      rfl
  | sell =>
      have selling := direction_of_sideOf_sell sided
      rw [handleWholeOrCancel, if_neg (by omega), if_pos selling]
      rfl

/-- The switch refuses an order without a known type or direction. -/
theorem dispatchOrder_refused
    (unknown : ¬ (0 ≤ order.type ∧ order.type ≤ 5 ∧
      (order.direction = 1 ∨ order.direction = -1))) :
    ∃ ret, dispatchOrder algorithms stkCode book order =
      .ok (Outcome.refuse book order ret) := by
  by_cases typed : 0 ≤ order.type ∧ order.type ≤ 5
  · have notBuy : order.direction ≠ 1 := fun buy => unknown ⟨typed.1, typed.2, Or.inl buy⟩
    have notSell : order.direction ≠ -1 := fun sell => unknown ⟨typed.1, typed.2, Or.inr sell⟩
    simp only [dispatchOrder, handleLimitOrder, handleCounterpartyBest, handleOurBest,
      handleFiveLevelOtherCancel, handleImmediateOtherCancel, handleWholeOrCancel,
      if_neg notBuy, if_neg notSell]
    refine ⟨0, ?_⟩
    repeat' split
    all_goals first | rfl | omega
  · by_cases skipped : order.type = -1
    · exact ⟨0, by simp [dispatchOrder, skipped]⟩
    · refine ⟨-1, ?_⟩
      simp only [dispatchOrder, pure_eq_ok]
      iterate 7 rw [if_neg (by omega)]

/-- The commit of a known type returns 0 whatever its handler reports. -/
theorem commitOrder_known (known : -1 ≤ order.type ∧ order.type ≤ 5) :
    commitOrder algorithms stkCode book order =
      (dispatchOrder algorithms stkCode book order).map fun outcome =>
        { outcome with ret := 0 } := by
  rw [commitOrder]
  cases dispatchOrder algorithms stkCode book order with
  | error fault => rfl
  | ok outcome => exact if_pos known

theorem commitOrder_unknown (unknown : ¬ (-1 ≤ order.type ∧ order.type ≤ 5)) :
    commitOrder algorithms stkCode book order =
      dispatchOrder algorithms stkCode book order := by
  rw [commitOrder]
  cases dispatchOrder algorithms stkCode book order with
  | error fault => rfl
  | ok outcome => exact if_neg unknown

end PpiwTrading.Exchange
