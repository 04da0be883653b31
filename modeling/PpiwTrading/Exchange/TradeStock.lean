import PpiwTrading.Exchange.Sided

/-!
# Every trade carries the code of its stock

The receivers of the trades tell stocks apart by the code in the trade, so the
engine of a stock must not produce a trade of another one.  This holds of every
call that returns, for any book and any order.
-/

namespace PpiwTrading.Exchange

open PpiwTrading.Heap
open PpiwTrading.Exchange.Reference

section Tagged

variable {P : Type} [LinearOrder P] (algorithms : HeapAlgorithms) (stkCode : Int)
  (order : Order P)

/-- All trades are trades of the stock. -/
def Tagged (trades : List (Trade P)) : Prop :=
  ∀ t ∈ trades, t.stkCode = stkCode

variable {stkCode}

theorem fillFirst_tagged {side : Side} {state state' : LoopState P} {r : Record P} {price : P}
    (tagged : Tagged stkCode state.trades)
    (filled : fillFirst algorithms stkCode order side state r price = .ok state') :
    Tagged stkCode state'.trades := by
  have traded : ∀ volume, Tagged stkCode
      (state.trades ++ [newTrade stkCode order side r price volume]) := by
    intro volume t member
    rcases List.mem_append.mp member with old | new
    · exact tagged t old
    · rw [List.mem_singleton.mp new]
      cases side <;> rfl
  unfold fillFirst at filled
  split at filled
  · obtain ⟨_, _, filled⟩ := bind_eq_ok_iff.mp filled
    obtain ⟨_, _, filled⟩ := bind_eq_ok_iff.mp filled
    cases filled
    exact traded _
  · obtain ⟨_, _, filled⟩ := bind_eq_ok_iff.mp filled
    obtain ⟨_, _, filled⟩ := bind_eq_ok_iff.mp filled
    cases filled
    exact traded _

theorem matchLoop_tagged {side : Side} {test : Levels P → Record P → Option (Levels P)}
    {onEmpty : Except Fault Unit} {bound : Nat} {levels : Levels P} {state state' : LoopState P}
    (tagged : Tagged stkCode state.trades)
    (ended : matchLoop algorithms stkCode order side test onEmpty bound levels state =
      .ok state') : Tagged stkCode state'.trades := by
  induction bound generalizing levels state with
  | zero => cases ended
  | succ bound inductionHypothesis =>
      rw [matchLoop] at ended
      split at ended
      · cases ended
        exact tagged
      · split at ended
        · obtain ⟨_, _, ended⟩ := bind_eq_ok_iff.mp ended
          cases ended
          exact tagged
        · split at ended
          · cases ended
            exact tagged
          · obtain ⟨_, filled, ended⟩ := bind_eq_ok_iff.mp ended
            exact inductionHypothesis (fillFirst_tagged algorithms order tagged filled) ended

theorem counterpartyLoop_tagged {side : Side} {tPrice : P} {bound : Nat}
    {state state' : LoopState P} {r : Record P} (tagged : Tagged stkCode state.trades)
    (ended : counterpartyLoop algorithms stkCode order side tPrice bound state r = .ok state') :
    Tagged stkCode state'.trades := by
  induction bound generalizing state r with
  | zero => cases ended
  | succ bound inductionHypothesis =>
      rw [counterpartyLoop] at ended
      split at ended
      · cases ended
        exact tagged
      · split at ended
        · obtain ⟨_, filled, ended⟩ := bind_eq_ok_iff.mp ended
          exact inductionHypothesis (fillFirst_tagged algorithms order tagged filled) ended
        · obtain ⟨_, filled, ended⟩ := bind_eq_ok_iff.mp ended
          have tagged' := fillFirst_tagged algorithms order tagged filled
          split at ended
          · cases ended
            exact tagged'
          · simp only at ended
            split at ended
            · obtain ⟨_, _, ended⟩ := bind_eq_ok_iff.mp ended
              obtain ⟨_, _, ended⟩ := bind_eq_ok_iff.mp ended
              refine inductionHypothesis ?_ ended
              exact tagged'
            · split at ended
              · obtain ⟨_, _, ended⟩ := bind_eq_ok_iff.mp ended
                obtain ⟨_, _, ended⟩ := bind_eq_ok_iff.mp ended
                refine inductionHypothesis ?_ ended
                exact tagged'
              · exact inductionHypothesis tagged' ended

variable [Zero P] (book : StockDeclarationBook P) {order} {side : Side} {outcome : Outcome P}

omit [LinearOrder P] [Zero P] in
theorem tagged_nil : Tagged stkCode ([] : List (Trade P)) := by
  intro t member
  cases member

/-- A handler that ends a matching loop returns the trades of the loop. -/
theorem tagged_of_startLoop {test : Levels P → Record P → Option (Levels P)}
    {onEmpty : Except Fault Unit} {finish : LoopState P → Except Fault (Outcome P)}
    (kept : ∀ state, finish state = .ok outcome → outcome.trades = state.trades)
    (returned : startLoop algorithms stkCode book order side test onEmpty >>= finish =
      .ok outcome) : Tagged stkCode outcome.trades := by
  obtain ⟨state, ended, finished⟩ := bind_eq_ok_iff.mp returned
  rw [kept state finished]
  exact matchLoop_tagged algorithms order tagged_nil ended

theorem handleLimitOrder_tagged (sided : sideOf order = some side)
    (returned : handleLimitOrder algorithms stkCode book order = .ok outcome) :
    Tagged stkCode outcome.trades := by
  rw [handleLimitOrder_eq algorithms stkCode book sided] at returned
  refine tagged_of_startLoop algorithms book ?_ returned
  intro state finished
  split at finished
  · obtain ⟨_, _, finished⟩ := bind_eq_ok_iff.mp finished
    cases finished
    rfl
  · cases finished
    rfl

omit [Zero P] in
theorem handleCounterpartyBest_tagged (sided : sideOf order = some side)
    (returned : handleCounterpartyBest algorithms stkCode book order = .ok outcome) :
    Tagged stkCode outcome.trades := by
  rw [handleCounterpartyBest_eq algorithms stkCode book sided] at returned
  split at returned
  · cases returned
    exact tagged_nil
  · obtain ⟨_, ended, finished⟩ := bind_eq_ok_iff.mp returned
    cases finished
    exact counterpartyLoop_tagged algorithms order tagged_nil ended

omit [Zero P] in
theorem handleOurBest_tagged (sided : sideOf order = some side)
    (returned : handleOurBest algorithms book order = .ok outcome) :
    Tagged stkCode outcome.trades := by
  rw [handleOurBest_eq algorithms book sided] at returned
  split at returned
  · cases returned
    exact tagged_nil
  · obtain ⟨_, _, finished⟩ := bind_eq_ok_iff.mp returned
    cases finished
    exact tagged_nil

theorem handleFiveLevelOtherCancel_tagged (sided : sideOf order = some side)
    (returned : handleFiveLevelOtherCancel algorithms stkCode book order = .ok outcome) :
    Tagged stkCode outcome.trades := by
  rw [handleFiveLevelOtherCancel_eq algorithms stkCode book sided] at returned
  refine tagged_of_startLoop algorithms book ?_ returned
  intro state finished
  cases finished
  rfl

theorem handleImmediateOtherCancel_tagged (sided : sideOf order = some side)
    (returned : handleImmediateOtherCancel algorithms stkCode book order = .ok outcome) :
    Tagged stkCode outcome.trades := by
  rw [handleImmediateOtherCancel_eq algorithms stkCode book sided] at returned
  refine tagged_of_startLoop algorithms book ?_ returned
  intro state finished
  cases finished
  rfl

theorem handleWholeOrCancel_tagged (sided : sideOf order = some side)
    (returned : handleWholeOrCancel algorithms stkCode book order = .ok outcome) :
    Tagged stkCode outcome.trades := by
  rw [handleWholeOrCancel_eq algorithms stkCode book sided] at returned
  split at returned
  · cases returned
    exact tagged_nil
  · refine tagged_of_startLoop algorithms book ?_ returned
    intro state finished
    cases finished
    rfl

theorem dispatchOrder_tagged
    (returned : dispatchOrder algorithms stkCode book order = .ok outcome) :
    Tagged stkCode outcome.trades := by
  cases sided : sideOf order with
  | none =>
      have unsided := direction_of_sideOf_none sided
      have unknown : ¬ (0 ≤ order.type ∧ order.type ≤ 5 ∧
          (order.direction = 1 ∨ order.direction = -1)) := by omega
      rcases dispatchOrder_refused algorithms stkCode book unknown with ⟨ret, refused⟩
      rw [refused] at returned
      cases returned
      exact tagged_nil
  | some side =>
      unfold dispatchOrder at returned
      repeat' split at returned
      · cases returned
        exact tagged_nil
      · exact handleLimitOrder_tagged algorithms book sided returned
      · exact handleCounterpartyBest_tagged algorithms book sided returned
      · exact handleOurBest_tagged algorithms book sided returned
      · exact handleFiveLevelOtherCancel_tagged algorithms book sided returned
      · exact handleImmediateOtherCancel_tagged algorithms book sided returned
      · exact handleWholeOrCancel_tagged algorithms book sided returned
      · cases returned
        exact tagged_nil

theorem commitOrder_tagged
    (returned : commitOrder algorithms stkCode book order = .ok outcome) :
    Tagged stkCode outcome.trades := by
  obtain ⟨dispatched, handled, finished⟩ := bind_eq_ok_iff.mp returned
  have tagged := dispatchOrder_tagged algorithms book handled
  split at finished <;> cases finished <;> exact tagged

/-- Every trade of a run is a trade of its stock. -/
theorem commitOrders_tagged {orders : List (Order P)} {book final : StockDeclarationBook P}
    {trades : List (Trade P)}
    (committed : commitOrders algorithms stkCode book orders = .ok (final, trades)) :
    Tagged stkCode trades := by
  induction orders generalizing book trades with
  | nil =>
      cases committed
      exact tagged_nil
  | cons order rest inductionHypothesis =>
      obtain ⟨outcome, returned, committed⟩ := bind_eq_ok_iff.mp committed
      obtain ⟨⟨final', later⟩, continued, finished⟩ := bind_eq_ok_iff.mp committed
      cases finished
      intro t member
      rcases List.mem_append.mp member with now | afterwards
      · exact commitOrder_tagged algorithms book returned t now
      · exact inductionHypothesis continued t afterwards

end Tagged

end PpiwTrading.Exchange
