import PpiwTrading.Exchange.Lockstep

/-!
# Orders without volume

No handler looks at the volume of an order before it matches it.  The loops stop
at once when there is nothing to fill, so an order without volume passes through
them and leaves no remainder.  Type 2 has no loop: it puts the order into the
book, where the insertion asserts that the volume is not zero.
-/

namespace PpiwTrading.Exchange

open PpiwTrading.Heap
open PpiwTrading.Exchange.Reference

variable {P : Type} [LinearOrder P] [Zero P] (algorithms : HeapAlgorithms) (stkCode : Int)
  (book : StockDeclarationBook P) {order : Order P} {side : Side}

/-- A handler returns, reports no trade and leaves the book as it was. -/
def Idle (book : StockDeclarationBook P) (result : Except Fault (Outcome P)) : Prop :=
  ∃ outcome, result = .ok outcome ∧ outcome.trades = [] ∧ outcome.book = book

omit [LinearOrder P] [Zero P] in
theorem idle_refuse (order : Order P) (ret : Int) :
    Idle book (.ok (Outcome.refuse book order ret)) :=
  ⟨_, rfl, rfl, rfl⟩

/-- Putting another status on what a handler returns changes nothing else. -/
theorem idle_commitOrder :
    Idle book (commitOrder algorithms stkCode book order) ↔
      Idle book (dispatchOrder algorithms stkCode book order) := by
  by_cases known : -1 ≤ order.type ∧ order.type ≤ 5
  · rw [commitOrder_known algorithms stkCode book known]
    cases dispatchOrder algorithms stkCode book order with
    | error fault => simp [Idle, Except.map]
    | ok outcome => simp [Idle, Except.map]
  · rw [commitOrder_unknown algorithms stkCode book known]

/-- A loop with nothing to fill stops before it looks at the book. -/
theorem startLoop_zero (zero : order.volume = 0)
    (test : Levels P → Record P → Option (Levels P)) (onEmpty : Except Fault Unit) :
    startLoop algorithms stkCode book order side test onEmpty =
      .ok (LoopState.start book order) := by
  rw [startLoop, matchLoop, if_pos]
  exact zero

section Handlers

variable (sided : sideOf order = some side) (zero : order.volume = 0)
include sided zero

theorem idle_handleLimitOrder : Idle book (handleLimitOrder algorithms stkCode book order) := by
  have used : ¬ (LoopState.start book order).leftVolume ≠ 0 := not_not.mpr zero
  rw [handleLimitOrder_eq algorithms stkCode book sided, startLoop_zero _ _ _ zero, ok_bind,
    if_neg used]
  exact ⟨_, rfl, rfl, rfl⟩

omit [Zero P] in
theorem idle_handleCounterpartyBest :
    Idle book (handleCounterpartyBest algorithms stkCode book order) := by
  rw [handleCounterpartyBest_eq algorithms stkCode book sided]
  cases book.queryFirst side.other with
  | none => exact idle_refuse book order (-1)
  | some r =>
      have stopped : counterpartyLoop algorithms stkCode order side.other r.price
          ((book.decls side.other).length + 1) (LoopState.start book order) r =
            .ok (LoopState.start book order) := by
        rw [counterpartyLoop, if_pos]
        exact zero
      dsimp only
      rw [stopped]
      exact ⟨_, rfl, rfl, rfl⟩

theorem idle_handleFiveLevelOtherCancel :
    Idle book (handleFiveLevelOtherCancel algorithms stkCode book order) := by
  rw [handleFiveLevelOtherCancel_eq algorithms stkCode book sided, startLoop_zero _ _ _ zero]
  exact ⟨_, rfl, rfl, rfl⟩

theorem idle_handleImmediateOtherCancel :
    Idle book (handleImmediateOtherCancel algorithms stkCode book order) := by
  rw [handleImmediateOtherCancel_eq algorithms stkCode book sided, startLoop_zero _ _ _ zero]
  exact ⟨_, rfl, rfl, rfl⟩

/-- The guard of type 5 may refuse the order, when the total of the side has
wrapped below zero. -/
theorem idle_handleWholeOrCancel :
    Idle book (handleWholeOrCancel algorithms stkCode book order) := by
  rw [handleWholeOrCancel_eq algorithms stkCode book sided]
  split
  · exact idle_refuse book order (-1)
  · rw [startLoop_zero _ _ _ zero]
    exact ⟨_, rfl, rfl, rfl⟩

omit [Zero P] in
/-- Type 2 asserts on an order without volume when its own side is not empty. -/
theorem handleOurBest_zero (nonempty : book.decls side ≠ []) :
    handleOurBest algorithms book order = .error .zeroVolumeDecl := by
  rw [handleOurBest_eq algorithms book sided, StockDeclarationBook.queryFirst_eq_head?]
  cases found : book.decls side with
  | nil => exact absurd found nonempty
  | cons r rest => simp [StockDeclarationBook.insertDecl, zero]

omit [Zero P] in
theorem idle_handleOurBest :
    Idle book (handleOurBest algorithms book order) ↔ book.decls side = [] := by
  constructor
  · rintro ⟨outcome, returned, -⟩
    by_contra nonempty
    rw [handleOurBest_zero algorithms book sided zero nonempty] at returned
    cases returned
  · intro empty
    rw [handleOurBest_eq algorithms book sided, StockDeclarationBook.queryFirst_eq_head?, empty]
    exact idle_refuse book order (-1)

end Handlers

/-- The switch leaves an order without volume idle unless it is of type 2 and its
own side is not empty. -/
theorem idle_dispatchOrder (sided : sideOf order = some side) (zero : order.volume = 0)
    (typed : 0 ≤ order.type ∧ order.type ≤ 5) :
    Idle book (dispatchOrder algorithms stkCode book order) ↔
      ¬ (order.type = 2 ∧ book.decls side ≠ []) := by
  have cases : order.type = 2 ∨ order.type = 0 ∨ order.type = 1 ∨ order.type = 3 ∨
      order.type = 4 ∨ order.type = 5 := by omega
  rcases cases with two | others
  · have switch : dispatchOrder algorithms stkCode book order =
        handleOurBest algorithms book order := by
      simp [dispatchOrder, two]
    rw [switch, idle_handleOurBest algorithms book sided zero]
    simp [two]
  · apply iff_of_true
    · rcases others with type | type | type | type | type <;>
        simp only [dispatchOrder, type, Int.reduceNeg, Int.reduceEq, if_true, if_false]
      · exact idle_handleLimitOrder algorithms stkCode book sided zero
      · exact idle_handleCounterpartyBest algorithms stkCode book sided zero
      · exact idle_handleFiveLevelOtherCancel algorithms stkCode book sided zero
      · exact idle_handleImmediateOtherCancel algorithms stkCode book sided zero
      · exact idle_handleWholeOrCancel algorithms stkCode book sided zero
    · rintro ⟨two, -⟩
      omega

/-- An order without volume is harmless unless it is of type 2 and its own side is
not empty. -/
theorem commitOrder_zero_volume_iff (order : Order P) (zero : order.volume = 0) :
    Idle book (commitOrder algorithms stkCode book order) ↔
      ¬ (order.type = 2 ∧ ∃ side, sideOf order = some side ∧ book.decls side ≠ []) := by
  rw [idle_commitOrder]
  by_cases known : 0 ≤ order.type ∧ order.type ≤ 5 ∧
      (order.direction = 1 ∨ order.direction = -1)
  · rcases sideOf_of_direction known.2.2 with ⟨side, sided⟩
    rw [idle_dispatchOrder algorithms stkCode book sided zero ⟨known.1, known.2.1⟩, sided]
    simp
  · rcases dispatchOrder_refused algorithms stkCode book known with ⟨ret, refused⟩
    rw [refused]
    apply iff_of_true (idle_refuse book order ret)
    rintro ⟨two, side, sided, -⟩
    apply known
    constructor
    · omega
    constructor
    · omega
    cases side with
    | buy => exact Or.inl (direction_of_sideOf_buy sided)
    | sell => exact Or.inr (direction_of_sideOf_sell sided)

/-- A limit order without volume. -/
theorem commitOrder_zero_volume_limit :
    Idle twoSells (commitOrder binaryHeap 1 twoSells ⟨1, 3, 1, 0, 9, 0⟩) :=
  (commitOrder_zero_volume_iff binaryHeap 1 twoSells ⟨1, 3, 1, 0, 9, 0⟩ rfl).mpr (by decide)

/-- A sell of type 2 without volume makes the exchange abort while sells rest. -/
theorem zero_volume_ourBest_asserts :
    Reachable binaryHeap 1 twoSells ∧
      commitOrder binaryHeap 1 twoSells ⟨1, 3, -1, 2, 9, 0⟩ = .error .zeroVolumeDecl ∧
      ¬ Idle twoSells (commitOrder binaryHeap 1 twoSells ⟨1, 3, -1, 2, 9, 0⟩) := by
  have asserts : commitOrder binaryHeap 1 twoSells ⟨1, 3, -1, 2, 9, 0⟩ =
      .error .zeroVolumeDecl := by decide
  constructor
  · exact twoSells_reachable
  constructor
  · exact asserts
  · rintro ⟨outcome, returned, -⟩
    rw [asserts] at returned
    cases returned

end PpiwTrading.Exchange
