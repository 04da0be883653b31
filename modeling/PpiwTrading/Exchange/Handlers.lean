import PpiwTrading.Exchange.DeclBook

/-!
# The six order handlers

Each handler is written once for buying and once for selling, and matches the
incoming order against the front of the opposite side in a loop.  The loops of
types 0, 3, 4 and 5 share `matchLoop`: they differ in the test made on the
front record before it is filled and in what happens when the side runs out.
Type 1 keeps its own loop, which holds on to the front record across a removal
and leaves the remainder in the book from inside the loop.

Every handler returns an `Outcome`.  Its last field is not a variable of the
program: it names the volume a handler drops at the exit it takes, which the
program reports only through some of its return values.
-/

namespace PpiwTrading.Exchange

open PpiwTrading.Heap

/-- What a handler leaves behind. -/
structure Outcome (P : Type) where
  book : StockDeclarationBook P
  trades : List (Trade P)
  ret : Int
  cancelled : Int
  deriving DecidableEq, Repr

/-- The locals shared by the matching loops. -/
structure LoopState (P : Type) where
  book : StockDeclarationBook P
  leftVolume : Int
  trades : List (Trade P)

/-- The level counter of type 3. -/
structure Levels (P : Type) where
  levelCount : Int
  previousPrice : P

/-- A trade between the incoming order and a record resting on `side`. -/
def newTrade {P : Type} (stkCode : Int) (order : Order P) (side : Side) (r : Record P)
    (price : P) (volume : Int) : Trade P :=
  match side with
  | .sell => ⟨stkCode, order.orderId, r.orderId, price, volume⟩
  | .buy => ⟨stkCode, r.orderId, order.orderId, price, volume⟩

/-- The id a trade gives to the party of a side. -/
def Side.party {P : Type} : Side → Trade P → Int
  | .buy, t => t.bidId
  | .sell, t => t.askId

section NewTrade

variable {P : Type} (stkCode : Int) (order : Order P) (side : Side) (r : Record P) (price : P)
  (volume : Int)

theorem newTrade_party :
    side.party (newTrade stkCode order side r price volume) = r.orderId ∧
      side.other.party (newTrade stkCode order side r price volume) = order.orderId := by
  cases side <;> exact ⟨rfl, rfl⟩

theorem newTrade_price : (newTrade stkCode order side r price volume).price = price := by
  cases side <;> rfl

end NewTrade

section Loops

variable {P : Type} [LinearOrder P] (algorithms : HeapAlgorithms) (stkCode : Int)
  (order : Order P) (side : Side)

/-- The body shared by every loop: fill against the front record `r`, which
either keeps a positive volume or leaves the book. -/
def fillFirst (state : LoopState P) (r : Record P) (price : P) :
    Except Fault (LoopState P) :=
  if state.leftVolume < r.volume then do
    let volume ← subVolume r.volume state.leftVolume
    let leftVolume ← subVolume state.leftVolume state.leftVolume
    pure
      { book := state.book.writeFirst side { r with volume := volume }
        leftVolume := leftVolume
        trades := state.trades ++ [newTrade stkCode order side r price state.leftVolume] }
  else do
    let leftVolume ← subVolume state.leftVolume r.volume
    let book ← state.book.removeFirst algorithms side
    pure
      { book := book
        leftVolume := leftVolume
        trades := state.trades ++ [newTrade stkCode order side r price r.volume] }

/-- The loop of types 0, 3, 4 and 5.  `test` is the check on the front record
and may end the loop; `onEmpty` is what the loop does when no record is left. -/
def matchLoop (test : Levels P → Record P → Option (Levels P))
    (onEmpty : Except Fault Unit) :
    Nat → Levels P → LoopState P → Except Fault (LoopState P)
  | 0, _, _ => .error .loopBound
  | bound + 1, levels, state =>
      if state.leftVolume = 0 then .ok state
      else
        match state.book.queryFirst side with
        | none => do
            onEmpty
            pure state
        | some r =>
            match test levels r with
            | none => .ok state
            | some levels' => do
                let state' ← fillFirst algorithms stkCode order side state r r.price
                matchLoop test onEmpty bound levels' state'

/-- The loop of type 1, entered with the front record `r`. -/
def counterpartyLoop (tPrice : P) :
    Nat → LoopState P → Record P → Except Fault (LoopState P)
  | 0, _, _ => .error .loopBound
  | bound + 1, state, r =>
      if state.leftVolume = 0 then .ok state
      else if state.leftVolume < r.volume then do
        let state' ← fillFirst algorithms stkCode order side state r tPrice
        counterpartyLoop tPrice bound state' r
      else do
        let state' ← fillFirst algorithms stkCode order side state r tPrice
        if state'.leftVolume = 0 then pure state'
        else
          let leave : Except Fault (LoopState P) := do
            let book ← state'.book.insertDecl algorithms side.other
              ⟨order.orderId, tPrice, state'.leftVolume⟩
            let leftVolume ← subVolume state'.leftVolume state'.leftVolume
            counterpartyLoop tPrice bound
              { state' with book := book, leftVolume := leftVolume } r
          match state'.book.queryFirst side with
          | none => leave
          | some next => if next.price ≠ tPrice then leave else
              counterpartyLoop tPrice bound state' next

end Loops

section Handlers

variable {P : Type} [LinearOrder P] [Zero P] (algorithms : HeapAlgorithms)
  (stkCode : Int) (book : StockDeclarationBook P) (order : Order P)

/-- The locals of a handler before its loop. -/
def LoopState.start : LoopState P :=
  ⟨book, order.volume, []⟩

/-- `level_count = 0, previous_price = 0`. -/
def Levels.start : Levels P :=
  ⟨0, 0⟩

/-- The exit of an order that is refused as a whole. -/
def Outcome.refuse (ret : Int) : Outcome P :=
  ⟨book, [], ret, order.volume⟩

/-- Type 0. -/
def handleLimitOrder : Except Fault (Outcome P) :=
  if order.direction = 1 then do
    let state ← matchLoop algorithms stkCode order .sell
      (fun levels sr => if sr.price > order.price then none else some levels)
      (.ok ()) (book.sellDecls.length + 1) Levels.start (LoopState.start book order)
    if state.leftVolume ≠ 0 then
      let book ← state.book.insertBuyDecl algorithms
        ⟨order.orderId, order.price, state.leftVolume⟩
      pure ⟨book, state.trades, 0, 0⟩
    else
      pure ⟨state.book, state.trades, 0, 0⟩
  else if order.direction = -1 then do
    let state ← matchLoop algorithms stkCode order .buy
      (fun levels br => if br.price < order.price then none else some levels)
      (.ok ()) (book.buyDecls.length + 1) Levels.start (LoopState.start book order)
    if state.leftVolume ≠ 0 then
      let book ← state.book.insertSellDecl algorithms
        ⟨order.orderId, order.price, state.leftVolume⟩
      pure ⟨book, state.trades, 0, 0⟩
    else
      pure ⟨state.book, state.trades, 0, 0⟩
  else pure (Outcome.refuse book order 0)

/-- Type 1. -/
def handleCounterpartyBest : Except Fault (Outcome P) :=
  if order.direction = 1 then
    match book.querySellFirst with
    | none => pure (Outcome.refuse book order (-1))
    | some sr => do
        let state ← counterpartyLoop algorithms stkCode order .sell sr.price
          (book.sellDecls.length + 1) (LoopState.start book order) sr
        pure ⟨state.book, state.trades, 0, 0⟩
  else if order.direction = -1 then
    match book.queryBuyFirst with
    | none => pure (Outcome.refuse book order (-1))
    | some br => do
        let state ← counterpartyLoop algorithms stkCode order .buy br.price
          (book.buyDecls.length + 1) (LoopState.start book order) br
        pure ⟨state.book, state.trades, 0, 0⟩
  else pure (Outcome.refuse book order 0)

/-- Type 2. -/
def handleOurBest : Except Fault (Outcome P) :=
  if order.direction = 1 then
    match book.queryBuyFirst with
    | none => pure (Outcome.refuse book order (-1))
    | some br => do
        let book ← book.insertBuyDecl algorithms ⟨order.orderId, br.price, order.volume⟩
        pure ⟨book, [], 0, 0⟩
  else if order.direction = -1 then
    match book.querySellFirst with
    | none => pure (Outcome.refuse book order (-1))
    | some sr => do
        let book ← book.insertSellDecl algorithms ⟨order.orderId, sr.price, order.volume⟩
        pure ⟨book, [], 0, 0⟩
  else pure (Outcome.refuse book order 0)

/-- The level check of type 3: a new price opens a level, and the sixth level
ends the loop. -/
def levelTest (levels : Levels P) (r : Record P) : Option (Levels P) :=
  if r.price ≠ levels.previousPrice then
    if levels.levelCount + 1 > 5 then none
    else some ⟨levels.levelCount + 1, r.price⟩
  else some levels

/-- Type 3.  The selling branch has no `return left_volume`. -/
def handleFiveLevelOtherCancel : Except Fault (Outcome P) :=
  if order.direction = 1 then do
    let state ← matchLoop algorithms stkCode order .sell levelTest (.ok ())
      (book.sellDecls.length + 1) Levels.start (LoopState.start book order)
    if state.leftVolume ≠ 0 then
      pure ⟨state.book, state.trades, state.leftVolume, state.leftVolume⟩
    else
      pure ⟨state.book, state.trades, 0, 0⟩
  else if order.direction = -1 then do
    let state ← matchLoop algorithms stkCode order .buy levelTest (.ok ())
      (book.buyDecls.length + 1) Levels.start (LoopState.start book order)
    pure ⟨state.book, state.trades, 0, state.leftVolume⟩
  else pure (Outcome.refuse book order 0)

/-- Type 4. -/
def handleImmediateOtherCancel : Except Fault (Outcome P) :=
  if order.direction = 1 then do
    let state ← matchLoop algorithms stkCode order .sell (fun levels _ => some levels)
      (.ok ()) (book.sellDecls.length + 1) Levels.start (LoopState.start book order)
    if state.leftVolume ≠ 0 then
      pure ⟨state.book, state.trades, state.leftVolume, state.leftVolume⟩
    else
      pure ⟨state.book, state.trades, 0, 0⟩
  else if order.direction = -1 then do
    let state ← matchLoop algorithms stkCode order .buy (fun levels _ => some levels)
      (.ok ()) (book.buyDecls.length + 1) Levels.start (LoopState.start book order)
    if state.leftVolume ≠ 0 then
      pure ⟨state.book, state.trades, state.leftVolume, state.leftVolume⟩
    else
      pure ⟨state.book, state.trades, 0, 0⟩
  else pure (Outcome.refuse book order 0)

/-- Type 5. -/
def handleWholeOrCancel : Except Fault (Outcome P) :=
  if order.direction = 1 then
    if order.volume > book.totalSellVolume then pure (Outcome.refuse book order (-1))
    else do
      let state ← matchLoop algorithms stkCode order .sell (fun levels _ => some levels)
        (.error .noCounterparty) (book.sellDecls.length + 1) Levels.start
        (LoopState.start book order)
      pure ⟨state.book, state.trades, 0, 0⟩
  else if order.direction = -1 then
    if order.volume > book.totalBuyVolume then pure (Outcome.refuse book order (-1))
    else do
      let state ← matchLoop algorithms stkCode order .buy (fun levels _ => some levels)
        (.error .noCounterparty) (book.buyDecls.length + 1) Levels.start
        (LoopState.start book order)
      pure ⟨state.book, state.trades, 0, 0⟩
  else pure (Outcome.refuse book order 0)

/-- The switch of `commitOrder`, before the status of the handler is dropped. -/
def dispatchOrder : Except Fault (Outcome P) :=
  if order.type = -1 then pure (Outcome.refuse book order 0)
  else if order.type = 0 then handleLimitOrder algorithms stkCode book order
  else if order.type = 1 then handleCounterpartyBest algorithms stkCode book order
  else if order.type = 2 then handleOurBest algorithms book order
  else if order.type = 3 then handleFiveLevelOtherCancel algorithms stkCode book order
  else if order.type = 4 then handleImmediateOtherCancel algorithms stkCode book order
  else if order.type = 5 then handleWholeOrCancel algorithms stkCode book order
  else pure (Outcome.refuse book order (-1))

/-- `StockExchange::commitOrder`: the status of the handler is stored in `ret`
and 0 is returned, except for an unknown type. -/
def commitOrder : Except Fault (Outcome P) := do
  let outcome ← dispatchOrder algorithms stkCode book order
  if -1 ≤ order.type ∧ order.type ≤ 5 then pure { outcome with ret := 0 }
  else pure outcome

end Handlers

/-- Commit a list of orders one after another. -/
def commitOrders {P : Type} [LinearOrder P] [Zero P] (algorithms : HeapAlgorithms)
    (stkCode : Int) : StockDeclarationBook P → List (Order P) →
      Except Fault (StockDeclarationBook P × List (Trade P))
  | book, [] => pure (book, [])
  | book, order :: rest => do
      let outcome ← commitOrder algorithms stkCode book order
      let (final, trades) ← commitOrders algorithms stkCode outcome.book rest
      pure (final, outcome.trades ++ trades)

theorem commitOrders_append {P : Type} [LinearOrder P] [Zero P] (algorithms : HeapAlgorithms)
    (stkCode : Int) (book : StockDeclarationBook P) (first second : List (Order P)) :
    commitOrders algorithms stkCode book (first ++ second) =
      (do
        let reached ← commitOrders algorithms stkCode book first
        let final ← commitOrders algorithms stkCode reached.1 second
        pure (final.1, reached.2 ++ final.2)) := by
  induction first generalizing book with
  | nil =>
      cases tail : commitOrders algorithms stkCode book second with
      | error fault => simp [commitOrders, tail]
      | ok final => simp [commitOrders, tail]
  | cons order rest inductionHypothesis =>
      rw [List.cons_append, commitOrders, commitOrders]
      cases commitOrder algorithms stkCode book order with
      | error fault => rfl
      | ok outcome =>
          simp only [ok_bind, inductionHypothesis]
          cases commitOrders algorithms stkCode outcome.book rest with
          | error fault => rfl
          | ok reached =>
              simp only [ok_bind, pure_eq_ok]
              cases commitOrders algorithms stkCode reached.1 second with
              | error fault => rfl
              | ok final => simp

/-- Committing more orders appends trades. -/
theorem commitOrders_isPrefix {P : Type} [LinearOrder P] [Zero P] {algorithms : HeapAlgorithms}
    {stkCode : Int} {book reached final : StockDeclarationBook P} {first second : List (Order P)}
    {trades allTrades : List (Trade P)}
    (some : commitOrders algorithms stkCode book first = .ok (reached, trades))
    (all : commitOrders algorithms stkCode book second = .ok (final, allTrades))
    (isPrefix : first <+: second) : trades <+: allTrades := by
  obtain ⟨more, rfl⟩ := isPrefix
  rw [commitOrders_append, some, ok_bind] at all
  rcases bind_eq_ok_iff.mp all with ⟨continued, _, result⟩
  cases result
  exact List.prefix_append _ _

end PpiwTrading.Exchange
