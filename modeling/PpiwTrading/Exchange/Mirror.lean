import PpiwTrading.Exchange.Sided
import PpiwTrading.Heap.Sift

/-!
# Buying and selling are mirror images

The mirror swaps the two sides of a book and negates every price, turns the
direction of an order and swaps the parties of a trade.  Each operation of the
book, each loop and each handler commutes with it, on every book and whatever
it contains.  The heap algorithms are only asked to be natural: they arrange a
side and its mirror image in the same way.

The one asymmetry is the status of type 3, which `commitOrder` does not return.
-/

namespace PpiwTrading.Exchange

open PpiwTrading.Heap
open PpiwTrading.Exchange.Reference

variable {P : Type} [AddCommGroup P]

def mirrorRecord (r : Record P) : Record P :=
  { r with price := -r.price }

def mirrorBook (book : StockDeclarationBook P) : StockDeclarationBook P where
  buyDecls := book.sellDecls.map mirrorRecord
  sellDecls := book.buyDecls.map mirrorRecord

def mirrorOrder (order : Order P) : Order P :=
  { order with direction := -order.direction, price := -order.price }

def mirrorTrade (t : Trade P) : Trade P :=
  { t with bidId := t.askId, askId := t.bidId, price := -t.price }

def mirrorLevels (levels : Levels P) : Levels P :=
  { levels with previousPrice := -levels.previousPrice }

def mirrorState (state : LoopState P) : LoopState P where
  book := mirrorBook state.book
  leftVolume := state.leftVolume
  trades := state.trades.map mirrorTrade

def mirrorOutcome (outcome : Outcome P) : Outcome P where
  book := mirrorBook outcome.book
  trades := outcome.trades.map mirrorTrade
  ret := outcome.ret
  cancelled := outcome.cancelled

@[simp]
theorem mirrorRecord_volume (r : Record P) : (mirrorRecord r).volume = r.volume :=
  rfl

@[simp]
theorem mirrorState_leftVolume (state : LoopState P) :
    (mirrorState state).leftVolume = state.leftVolume :=
  rfl

@[simp]
theorem mirrorState_book (state : LoopState P) :
    (mirrorState state).book = mirrorBook state.book :=
  rfl

/-- A computation on a mapped result, when the continuations agree. -/
theorem bind_eq_map {α α' β β' : Type} {first : Except Fault α} {first' : Except Fault α'}
    {next : α → Except Fault β} {next' : α' → Except Fault β'} {f : α → α'} {g : β → β'}
    (mapped : first' = first.map f) (agree : ∀ a, next' (f a) = (next a).map g) :
    (first' >>= next') = (first >>= next).map g := by
  subst mapped
  cases first with
  | error fault => rfl
  | ok a => exact agree a

/-! ## The book -/

theorem mirrorBook_decls (book : StockDeclarationBook P) (side : Side) :
    (mirrorBook book).decls side.other = (book.decls side).map mirrorRecord := by
  cases side <;> rfl

theorem mirrorBook_setDecls (book : StockDeclarationBook P) (side : Side)
    (decls : List (Record P)) :
    mirrorBook (book.setDecls side decls) =
      (mirrorBook book).setDecls side.other (decls.map mirrorRecord) := by
  cases side <;> rfl

theorem mirrorBook_queryFirst (book : StockDeclarationBook P) (side : Side) :
    (mirrorBook book).queryFirst side.other = (book.queryFirst side).map mirrorRecord := by
  rw [StockDeclarationBook.queryFirst_eq_head?, StockDeclarationBook.queryFirst_eq_head?,
    mirrorBook_decls, List.head?_map]

theorem mirrorBook_writeFirst (book : StockDeclarationBook P) (side : Side) (r : Record P) :
    (mirrorBook book).writeFirst side.other (mirrorRecord r) =
      mirrorBook (book.writeFirst side r) := by
  rw [StockDeclarationBook.writeFirst, StockDeclarationBook.writeFirst, mirrorBook_setDecls,
    mirrorBook_decls, List.map_set]

theorem totalVolume_map_mirrorRecord (decls : List (Record P)) :
    StockDeclarationBook.totalVolume (decls.map mirrorRecord) =
      StockDeclarationBook.totalVolume decls := by
  rw [StockDeclarationBook.totalVolume, StockDeclarationBook.totalVolume, List.foldl_map]
  rfl

theorem newTrade_mirror (stkCode : Int) (order : Order P) (side : Side) (r : Record P) (price : P)
    (volume : Int) :
    newTrade stkCode (mirrorOrder order) side.other (mirrorRecord r) (-price) volume =
      mirrorTrade (newTrade stkCode order side r price volume) := by
  cases side <;> rfl

theorem sideOf_mirrorOrder {order : Order P} {side : Side} (sided : sideOf order = some side) :
    sideOf (mirrorOrder order) = some side.other := by
  cases side with
  | buy => simp [sideOf, mirrorOrder, direction_of_sideOf_buy sided, Side.other]
  | sell => simp [sideOf, mirrorOrder, direction_of_sideOf_sell sided, Side.other]

variable [LinearOrder P] [IsOrderedAddMonoid P]

theorem better_neg {side : Side} {p q : P} : side.other.Better (-p) (-q) ↔ side.Better p q := by
  cases side <;> simp [Side.other, Side.Better]

/-- The comparison of a side is that of its mirror image. -/
theorem lt_mirrorRecord (side : Side) (r s : Record P) :
    side.other.lt (mirrorRecord r) (mirrorRecord s) = side.lt r s := by
  cases side <;> simp [Side.other, Side.lt, BuyRecord.lt, SellRecord.lt, mirrorRecord]

omit [IsOrderedAddMonoid P] in
theorem levelTest_mirror (levels : Levels P) (r : Record P) :
    levelTest (mirrorLevels levels) (mirrorRecord r) = (levelTest levels r).map mirrorLevels := by
  by_cases samePrice : r.price = levels.previousPrice
  · simp [levelTest, mirrorRecord, mirrorLevels, samePrice]
  · by_cases full : levels.levelCount + 1 > 5
    · simp [levelTest, mirrorRecord, mirrorLevels, samePrice, full]
    · simp [levelTest, mirrorRecord, mirrorLevels, samePrice, full]

section Operations

variable {algorithms : HeapAlgorithms} (natural : algorithms.Natural)

include natural

theorem mirrorBook_insertDecl (book : StockDeclarationBook P) (side : Side) (r : Record P) :
    (mirrorBook book).insertDecl algorithms side.other (mirrorRecord r) =
      (book.insertDecl algorithms side r).map mirrorBook := by
  by_cases zero : r.volume = 0
  · simp [StockDeclarationBook.insertDecl, mirrorRecord, zero, Except.map]
  · have inserted := natural.insert_map (lt_mirrorRecord side) (book.decls side) r
    rw [← mirrorBook_decls] at inserted
    have mirrorZero : (mirrorRecord r).volume ≠ 0 := zero
    rw [StockDeclarationBook.insertDecl, if_neg mirrorZero, StockDeclarationBook.insertDecl,
      if_neg zero, Except.map, mirrorBook_setDecls, inserted]

theorem mirrorBook_removeFirst (book : StockDeclarationBook P) (side : Side) :
    (mirrorBook book).removeFirst algorithms side.other =
      (book.removeFirst algorithms side).map mirrorBook := by
  rw [StockDeclarationBook.removeFirst, StockDeclarationBook.removeFirst, mirrorBook_decls,
    List.isEmpty_map]
  split
  · rfl
  · rw [natural.removeFirst_map (lt_mirrorRecord side), Except.map, mirrorBook_setDecls]

/-! ## The loops -/

theorem fillFirst_mirror (stkCode : Int) (order : Order P) (side : Side) (state : LoopState P)
    (r : Record P) (price : P) :
    fillFirst algorithms stkCode (mirrorOrder order) side.other (mirrorState state)
        (mirrorRecord r) (-price) =
      (fillFirst algorithms stkCode order side state r price).map mirrorState := by
  simp only [fillFirst, mirrorState_leftVolume, mirrorRecord_volume, mirrorState_book,
    mirrorBook_removeFirst natural]
  by_cases smaller : state.leftVolume < r.volume
  · simp only [if_pos smaller]
    cases subVolume r.volume state.leftVolume with
    | error fault => rfl
    | ok volume =>
        cases subVolume state.leftVolume state.leftVolume with
        | error fault => rfl
        | ok leftVolume =>
            have written := mirrorBook_writeFirst state.book side { r with volume := volume }
            simp only [ok_bind, pure_eq_ok, Except.map, mirrorState, List.map_append,
              List.map_cons, List.map_nil, ← newTrade_mirror, ← written]
            rfl
  · simp only [if_neg smaller]
    cases subVolume state.leftVolume r.volume with
    | error fault => rfl
    | ok leftVolume =>
        cases state.book.removeFirst algorithms side with
        | error fault => rfl
        | ok book =>
            simp only [ok_bind, pure_eq_ok, Except.map, mirrorState, List.map_append,
              List.map_cons, List.map_nil, ← newTrade_mirror]

/-- The shared loop, when its tests are mirror images. -/
theorem matchLoop_mirror (stkCode : Int) (order : Order P) (side : Side)
    {test test' : Levels P → Record P → Option (Levels P)}
    (mirrored : ∀ levels r,
      test' (mirrorLevels levels) (mirrorRecord r) = (test levels r).map mirrorLevels)
    (onEmpty : Except Fault Unit) (bound : Nat) (levels : Levels P) (state : LoopState P) :
    matchLoop algorithms stkCode (mirrorOrder order) side.other test' onEmpty bound
        (mirrorLevels levels) (mirrorState state) =
      (matchLoop algorithms stkCode order side test onEmpty bound levels state).map
        mirrorState := by
  induction bound generalizing levels state with
  | zero => rfl
  | succ bound inductionHypothesis =>
      simp only [matchLoop, mirrorState_leftVolume, mirrorState_book, mirrorBook_queryFirst]
      by_cases done : state.leftVolume = 0
      · simp only [if_pos done]
        rfl
      · simp only [if_neg done]
        cases state.book.queryFirst side with
        | none => cases onEmpty <;> rfl
        | some r =>
            simp only [Option.map_some, mirrored]
            cases test levels r with
            | none => rfl
            | some levels' =>
                have filled := fillFirst_mirror natural stkCode order side state r r.price
                simp only [Option.map_some]
                rw [show (mirrorRecord r).price = -r.price from rfl, filled]
                cases fillFirst algorithms stkCode order side state r r.price with
                | error fault => rfl
                | ok state' => exact inductionHypothesis levels' state'

/-- The loop of type 1. -/
theorem counterpartyLoop_mirror (stkCode : Int) (order : Order P) (side : Side) (tPrice : P)
    (bound : Nat) (state : LoopState P) (r : Record P) :
    counterpartyLoop algorithms stkCode (mirrorOrder order) side.other (-tPrice) bound
        (mirrorState state) (mirrorRecord r) =
      (counterpartyLoop algorithms stkCode order side tPrice bound state r).map mirrorState := by
  induction bound generalizing state r with
  | zero => rfl
  | succ bound inductionHypothesis =>
      have leave : ∀ (state' : LoopState P) (r : Record P),
          (do
            let book ← (mirrorBook state'.book).insertDecl algorithms side.other.other
              (mirrorRecord ⟨order.orderId, tPrice, state'.leftVolume⟩)
            let leftVolume ← subVolume state'.leftVolume state'.leftVolume
            counterpartyLoop algorithms stkCode (mirrorOrder order) side.other (-tPrice) bound
              { mirrorState state' with book := book, leftVolume := leftVolume }
              (mirrorRecord r)) =
          (do
            let book ← state'.book.insertDecl algorithms side.other
              ⟨order.orderId, tPrice, state'.leftVolume⟩
            let leftVolume ← subVolume state'.leftVolume state'.leftVolume
            counterpartyLoop algorithms stkCode order side tPrice bound
              { state' with book := book, leftVolume := leftVolume } r).map mirrorState := by
        intro state' r
        rw [mirrorBook_insertDecl natural]
        cases state'.book.insertDecl algorithms side.other
          ⟨order.orderId, tPrice, state'.leftVolume⟩ with
        | error fault => rfl
        | ok book =>
            cases subVolume state'.leftVolume state'.leftVolume with
            | error fault => rfl
            | ok leftVolume =>
                exact inductionHypothesis
                  { state' with book := book, leftVolume := leftVolume } r
      simp only [counterpartyLoop, mirrorState_leftVolume, mirrorRecord_volume,
        fillFirst_mirror natural]
      by_cases done : state.leftVolume = 0
      · simp only [if_pos done]
        rfl
      · simp only [if_neg done]
        cases fillFirst algorithms stkCode order side state r tPrice with
        | error fault =>
            split <;> rfl
        | ok state' =>
            by_cases smaller : state.leftVolume < r.volume
            · simp only [if_pos smaller]
              exact inductionHypothesis state' r
            · simp only [if_neg smaller, Except.map, ok_bind, mirrorState_leftVolume,
                mirrorState_book, mirrorBook_queryFirst]
              by_cases used : state'.leftVolume = 0
              · simp only [if_pos used]
                rfl
              · simp only [if_neg used]
                cases state'.book.queryFirst side with
                | none => exact leave state' r
                | some next =>
                    by_cases samePrice : next.price = tPrice
                    · have mirrorPrice : (mirrorRecord next).price = -tPrice := by
                        rw [← samePrice]
                        rfl
                      simp only [Option.map_some, mirrorPrice, samePrice, ne_eq,
                        not_true_eq_false, if_false]
                      exact inductionHypothesis state' next
                    · have mirrorPrice : (mirrorRecord next).price ≠ -tPrice := fun equal =>
                        samePrice (neg_injective equal)
                      simp only [Option.map_some, if_pos mirrorPrice, if_pos samePrice]
                      exact leave state' r

/-! ## The handlers -/

theorem startLoop_mirror (stkCode : Int) (book : StockDeclarationBook P) (order : Order P)
    (side : Side) (test test' : Levels P → Record P → Option (Levels P))
    (mirrored : ∀ levels r,
      test' (mirrorLevels levels) (mirrorRecord r) = (test levels r).map mirrorLevels)
    (onEmpty : Except Fault Unit) :
    startLoop algorithms stkCode (mirrorBook book) (mirrorOrder order) side.other test' onEmpty =
      (startLoop algorithms stkCode book order side test onEmpty).map mirrorState := by
  have start : (Levels.start : Levels P) = mirrorLevels Levels.start := by
    simp [Levels.start, mirrorLevels]
  have looped := matchLoop_mirror natural stkCode order side.other mirrored onEmpty
    ((book.decls side.other).length + 1) Levels.start (LoopState.start book order)
  rw [← start] at looped
  rw [startLoop, mirrorBook_decls, List.length_map]
  exact looped

/-- The loop of types 4 and 5. -/
theorem startLoop_always_mirror (stkCode : Int) (book : StockDeclarationBook P) (order : Order P)
    (side : Side) (onEmpty : Except Fault Unit) :
    startLoop algorithms stkCode (mirrorBook book) (mirrorOrder order) side.other
        (fun levels _ => some levels) onEmpty =
      (startLoop algorithms stkCode book order side (fun levels _ => some levels)
        onEmpty).map mirrorState :=
  startLoop_mirror natural stkCode book order side _ _ (fun _ _ => rfl) onEmpty

variable {order : Order P} {side : Side}

theorem handleLimitOrder_mirror (stkCode : Int) (book : StockDeclarationBook P)
    (sided : sideOf order = some side) :
    handleLimitOrder algorithms stkCode (mirrorBook book) (mirrorOrder order) =
      (handleLimitOrder algorithms stkCode book order).map mirrorOutcome := by
  have looped := startLoop_mirror natural stkCode book order side
    (fun levels r => if side.Better r.price order.price then none else some levels)
    (fun levels r =>
      if side.other.Better r.price (mirrorOrder order).price then none else some levels)
    (by
      intro levels r
      simp only [mirrorRecord, mirrorOrder, better_neg]
      split <;> rfl)
    (.ok ())
  rw [handleLimitOrder_eq algorithms stkCode _ (sideOf_mirrorOrder sided),
    handleLimitOrder_eq algorithms stkCode book sided]
  apply bind_eq_map looped
  intro state
  by_cases used : state.leftVolume = 0
  · simp [used, Except.map, mirrorState, mirrorOutcome]
  · simp only [mirrorState_leftVolume, ne_eq, used, not_false_eq_true, if_true]
    have inserted := mirrorBook_insertDecl natural state.book side
      ⟨order.orderId, order.price, state.leftVolume⟩
    exact bind_eq_map inserted fun book => rfl

theorem handleCounterpartyBest_mirror (stkCode : Int) (book : StockDeclarationBook P)
    (sided : sideOf order = some side) :
    handleCounterpartyBest algorithms stkCode (mirrorBook book) (mirrorOrder order) =
      (handleCounterpartyBest algorithms stkCode book order).map mirrorOutcome := by
  rw [handleCounterpartyBest_eq algorithms stkCode _ (sideOf_mirrorOrder sided),
    handleCounterpartyBest_eq algorithms stkCode book sided, mirrorBook_queryFirst]
  cases book.queryFirst side.other with
  | none => rfl
  | some r =>
      have looped := counterpartyLoop_mirror natural stkCode order side.other r.price
        ((book.decls side.other).length + 1) (LoopState.start book order) r
      simp only [Option.map_some, mirrorBook_decls, List.length_map]
      exact bind_eq_map looped fun state => rfl

theorem handleOurBest_mirror (book : StockDeclarationBook P) (sided : sideOf order = some side) :
    handleOurBest algorithms (mirrorBook book) (mirrorOrder order) =
      (handleOurBest algorithms book order).map mirrorOutcome := by
  rw [handleOurBest_eq algorithms _ (sideOf_mirrorOrder sided),
    handleOurBest_eq algorithms book sided, mirrorBook_queryFirst]
  cases book.queryFirst side with
  | none => rfl
  | some r =>
      have inserted := mirrorBook_insertDecl natural book side
        ⟨order.orderId, r.price, order.volume⟩
      exact bind_eq_map inserted fun book => rfl

/-- The outcome of a handler without its status. -/
def withoutStatus (outcome : Outcome P) : Outcome P :=
  { outcome with ret := 0 }

/-- The two branches of type 3 differ in their status only. -/
theorem handleFiveLevelOtherCancel_mirror (stkCode : Int) (book : StockDeclarationBook P)
    (sided : sideOf order = some side) :
    (handleFiveLevelOtherCancel algorithms stkCode (mirrorBook book) (mirrorOrder order)).map
        withoutStatus =
      ((handleFiveLevelOtherCancel algorithms stkCode book order).map withoutStatus).map
        mirrorOutcome := by
  have looped := startLoop_mirror natural stkCode book order side levelTest levelTest
    levelTest_mirror (.ok ())
  rw [handleFiveLevelOtherCancel_eq algorithms stkCode _ (sideOf_mirrorOrder sided), looped,
    handleFiveLevelOtherCancel_eq algorithms stkCode book sided]
  cases startLoop algorithms stkCode book order side levelTest (.ok ()) with
  | error fault => rfl
  | ok state => rfl

theorem handleImmediateOtherCancel_mirror (stkCode : Int) (book : StockDeclarationBook P)
    (sided : sideOf order = some side) :
    handleImmediateOtherCancel algorithms stkCode (mirrorBook book) (mirrorOrder order) =
      (handleImmediateOtherCancel algorithms stkCode book order).map mirrorOutcome := by
  rw [handleImmediateOtherCancel_eq algorithms stkCode _ (sideOf_mirrorOrder sided),
    handleImmediateOtherCancel_eq algorithms stkCode book sided]
  exact bind_eq_map (startLoop_always_mirror natural stkCode book order side _) fun state => rfl

theorem handleWholeOrCancel_mirror (stkCode : Int) (book : StockDeclarationBook P)
    (sided : sideOf order = some side) :
    handleWholeOrCancel algorithms stkCode (mirrorBook book) (mirrorOrder order) =
      (handleWholeOrCancel algorithms stkCode book order).map mirrorOutcome := by
  have total : StockDeclarationBook.totalVolume ((mirrorBook book).decls side.other.other) =
      StockDeclarationBook.totalVolume (book.decls side.other) := by
    rw [mirrorBook_decls, totalVolume_map_mirrorRecord]
  rw [handleWholeOrCancel_eq algorithms stkCode _ (sideOf_mirrorOrder sided), total,
    handleWholeOrCancel_eq algorithms stkCode book sided]
  by_cases guard : order.volume > StockDeclarationBook.totalVolume (book.decls side.other)
  · have mirrorGuard : (mirrorOrder order).volume >
        StockDeclarationBook.totalVolume (book.decls side.other) := guard
    rw [if_pos guard, if_pos mirrorGuard]
    rfl
  · have mirrorGuard : ¬ (mirrorOrder order).volume >
        StockDeclarationBook.totalVolume (book.decls side.other) := guard
    rw [if_neg guard, if_neg mirrorGuard]
    exact bind_eq_map (startLoop_always_mirror natural stkCode book order side _) fun state => rfl

/-- The switch without the status of the handler. -/
theorem dispatchOrder_mirror (stkCode : Int) (book : StockDeclarationBook P)
    (sided : sideOf order = some side) :
    (dispatchOrder algorithms stkCode (mirrorBook book) (mirrorOrder order)).map withoutStatus =
      ((dispatchOrder algorithms stkCode book order).map withoutStatus).map mirrorOutcome := by
  have forgets : ∀ {result result' : Except Fault (Outcome P)},
      result' = result.map mirrorOutcome →
      result'.map withoutStatus = (result.map withoutStatus).map mirrorOutcome := by
    intro result result' mirrored
    subst mirrored
    cases result <;> rfl
  have sameType : (mirrorOrder order).type = order.type := rfl
  simp only [dispatchOrder, sameType]
  split_ifs
  · rfl
  · exact forgets (handleLimitOrder_mirror natural stkCode book sided)
  · exact forgets (handleCounterpartyBest_mirror natural stkCode book sided)
  · exact forgets (handleOurBest_mirror natural book sided)
  · exact handleFiveLevelOtherCancel_mirror natural stkCode book sided
  · exact forgets (handleImmediateOtherCancel_mirror natural stkCode book sided)
  · exact forgets (handleWholeOrCancel_mirror natural stkCode book sided)
  · rfl

/-- The engine is symmetric: the mirror image of an order, committed on the
mirror image of a book, emits the mirror image of the trades and leaves the
mirror image of the book. -/
theorem commitOrder_mirror (stkCode : Int) (book : StockDeclarationBook P) (order : Order P)
    (known : -1 ≤ order.type ∧ order.type ≤ 5)
    (directed : order.direction = 1 ∨ order.direction = -1) :
    commitOrder algorithms stkCode (mirrorBook book) (mirrorOrder order) =
      (commitOrder algorithms stkCode book order).map mirrorOutcome := by
  rcases sideOf_of_direction directed with ⟨side, sided⟩
  have mirrorKnown : -1 ≤ (mirrorOrder order).type ∧ (mirrorOrder order).type ≤ 5 := known
  rw [commitOrder_known algorithms stkCode _ mirrorKnown,
    commitOrder_known algorithms stkCode book known]
  exact dispatchOrder_mirror natural stkCode book sided

end Operations

/-- A sell of 15 into two buys mirrors a buy of 15 into two sells. -/
theorem commitOrder_mirror_sell :
    commitOrder binaryHeap 1 (mirrorBook ⟨[], [⟨2, 4, 10⟩, ⟨1, 5, 10⟩]⟩)
        (mirrorOrder (⟨1, 3, 1, 4, 0, 15⟩ : Order Int)) =
      (commitOrder binaryHeap 1 ⟨[], [⟨2, 4, 10⟩, ⟨1, 5, 10⟩]⟩ ⟨1, 3, 1, 4, 0, 15⟩).map
        mirrorOutcome :=
  commitOrder_mirror binaryHeap_natural 1 _ _ (by decide) (by decide)

end PpiwTrading.Exchange
