import PpiwTrading.Exchange.Settlement
import PpiwTrading.Exchange.Sided

/-!
# The handlers refine the reference engine

`Matches` relates a book of heaps to the sorted book it represents.  Under it
every loop of the model performs the sweep of the reference engine, whatever
the heap algorithms do within their specification, and so does every handler.
In particular no assertion fires, no volume leaves its range and no loop runs
out of its bound.
-/

namespace PpiwTrading.Exchange

open PpiwTrading.Heap
open PpiwTrading.Exchange.Reference

variable {P : Type} [LinearOrder P]

/-- Each heap of `book` represents the corresponding list of `sorted`. -/
def Matches (book sorted : StockDeclarationBook P) : Prop :=
  ∀ side : Side, Represents side.lt (book.decls side) (sorted.decls side)

theorem Matches.empty :
    Matches (StockDeclarationBook.empty (P := P)) StockDeclarationBook.empty := by
  intro side
  cases side <;> exact Represents.nil

/-- The query reads the first record of the list that its heap represents. -/
theorem Represents.queryFirst {book : StockDeclarationBook P} {side : Side}
    {sorted : List (Record P)} (represents : Represents side.lt (book.decls side) sorted) :
    book.queryFirst side = sorted.head? := by
  rw [StockDeclarationBook.queryFirst_eq_head?]
  cases sorted with
  | nil => rw [represents.eq_nil]
  | cons first rest =>
      obtain ⟨tail, heap⟩ := represents.exists_cons side.lt_strictWeak
      rw [heap]
      rfl

theorem Matches.queryFirst {book sorted : StockDeclarationBook P}
    (matching : Matches book sorted) (side : Side) :
    book.queryFirst side = (sorted.decls side).head? :=
  Represents.queryFirst (matching side)

/-- The accumulated total of a heap is the wrapped sum of the sorted list. -/
theorem Represents.totalVolume {side : Side} {heap sorted : List (Record P)}
    (represents : Represents side.lt heap sorted) :
    StockDeclarationBook.totalVolume heap = wrapInt32 (sorted.map Record.volume).sum := by
  rw [StockDeclarationBook.totalVolume_eq_wrapInt32_sum,
    (represents.perm.map Record.volume).sum_eq]

section Loops

variable (algorithms : HeapAlgorithms) (stkCode : Int) (order : Order P) (side : Side)

/-- A fill smaller than the front record rewrites its volume. -/
theorem fillFirst_part {state : LoopState P} {r : Record P} {tail : List (Record P)}
    (price : P) (front : state.book.decls side = r :: tail)
    (nonnegative : 0 ≤ state.leftVolume) (smaller : state.leftVolume < r.volume)
    (small : r.volume ≤ intMax) :
    fillFirst algorithms stkCode order side state r price =
      .ok
        { book := state.book.setDecls side
            ({ r with volume := r.volume - state.leftVolume } :: tail)
          leftVolume := 0
          trades := state.trades ++
            [newTrade stkCode order side r price state.leftVolume] } := by
  have rewritten : subVolume r.volume state.leftVolume =
      .ok (r.volume - state.leftVolume) := subVolume_eq_ok (by omega) (by omega)
  have cleared : subVolume state.leftVolume state.leftVolume = .ok 0 := by
    rw [subVolume_eq_ok (le_refl _) (by omega), Int.sub_self]
  simp [fillFirst, smaller, rewritten, cleared, StockDeclarationBook.writeFirst, front]

/-- A fill of at least the front record removes it. -/
theorem fillFirst_whole {state : LoopState P} {r : Record P} {tail : List (Record P)}
    (price : P) (front : state.book.decls side = r :: tail) (positive : 0 < r.volume)
    (enough : r.volume ≤ state.leftVolume) (small : state.leftVolume ≤ intMax) :
    fillFirst algorithms stkCode order side state r price =
      .ok
        { book := state.book.setDecls side (algorithms.removeFirst side.lt (r :: tail))
          leftVolume := state.leftVolume - r.volume
          trades := state.trades ++ [newTrade stkCode order side r price r.volume] } := by
  have lowered : subVolume state.leftVolume r.volume =
      .ok (state.leftVolume - r.volume) := subVolume_eq_ok enough (by omega)
  simp [fillFirst, not_lt.mpr enough, lowered, StockDeclarationBook.removeFirst, front]

/-- The shared loop performs the sweep of the list its heap represents.  A loop
that asserts instead of stopping on an empty side needs enough volume there. -/
theorem matchLoop_refines (test : Levels P → Record P → Option (Levels P))
    (onEmpty : Except Fault Unit) (sorted : List (Record P)) :
    ∀ (bound : Nat) (levels : Levels P) (state : LoopState P),
      Represents side.lt (state.book.decls side) sorted → Positive sorted →
      0 ≤ state.leftVolume → state.leftVolume ≤ intMax → sorted.length < bound →
      (onEmpty = .ok () ∨ state.leftVolume ≤ (sorted.map Record.volume).sum) →
      ∃ heap, matchLoop algorithms stkCode order side test onEmpty bound levels state =
          .ok
            { book := state.book.setDecls side heap
              leftVolume :=
                (sweep stkCode order side test levels state.leftVolume sorted).left
              trades := state.trades ++
                (sweep stkCode order side test levels state.leftVolume sorted).trades } ∧
        Represents side.lt heap
          (sweep stkCode order side test levels state.leftVolume sorted).rest := by
  induction sorted with
  | nil =>
      intro bound levels state represents _ nonnegative _ enough available
      obtain ⟨bound, rfl⟩ := Nat.exists_eq_succ_of_ne_zero (Nat.ne_zero_of_lt enough)
      have query : state.book.queryFirst side = none := Represents.queryFirst represents
      refine ⟨[], ?_, by simpa [sweep] using Represents.nil⟩
      have unchanged : state.book.setDecls side [] = state.book := by
        rw [← represents.eq_nil, StockDeclarationBook.setDecls_decls]
      simp only [matchLoop, sweep, query, unchanged, List.append_nil]
      rcases available with proceeds | covered
      · simp [proceeds]
      · have done : state.leftVolume = 0 := by
          simp only [List.map_nil, List.sum_nil] at covered
          omega
        rw [if_pos done]
  | cons r rest inductionHypothesis =>
      intro bound levels state represents positive nonnegative small enough available
      obtain ⟨bound, rfl⟩ := Nat.exists_eq_succ_of_ne_zero (Nat.ne_zero_of_lt enough)
      obtain ⟨tail, front⟩ := represents.exists_cons side.lt_strictWeak
      have query : state.book.queryFirst side = some r := Represents.queryFirst represents
      have bounds := positive r List.mem_cons_self
      have unchanged : ∃ heap, (.ok state : Except Fault (LoopState P)) =
          .ok { book := state.book.setDecls side heap, leftVolume := state.leftVolume,
                trades := state.trades ++ [] } ∧ Represents side.lt heap (r :: rest) :=
        ⟨state.book.decls side, by simp, represents⟩
      rw [sweep]
      simp only [matchLoop, query]
      by_cases done : state.leftVolume = 0
      · simp only [if_pos done]
        exact unchanged
      · simp only [if_neg done]
        cases tested : test levels r with
        | none => exact unchanged
        | some levels' =>
            by_cases smaller : state.leftVolume < r.volume
            · -- the next test of the loop finds nothing left
              obtain ⟨bound, rfl⟩ : ∃ more, bound = more + 1 := by
                apply Nat.exists_eq_succ_of_ne_zero
                rintro rfl
                simp at enough
              simp only [if_pos smaller, ok_bind, matchLoop, if_true,
                fillFirst_part algorithms stkCode order side r.price front nonnegative
                  smaller bounds.2]
              refine ⟨_, rfl, ?_⟩
              rw [front] at represents
              exact represents.replace_front (side.sameKey r _)
            · simp only [if_neg smaller, ok_bind,
                fillFirst_whole algorithms stkCode order side r.price front bounds.1
                  (by omega) small]
              obtain ⟨heap, looped, represents'⟩ := inductionHypothesis bound levels'
                { book := state.book.setDecls side
                    (algorithms.removeFirst side.lt (r :: tail))
                  leftVolume := state.leftVolume - r.volume
                  trades := state.trades ++
                    [newTrade stkCode order side r r.price r.volume] }
                (by
                  rw [StockDeclarationBook.decls_setDecls, ← front]
                  exact represents.removeFirst algorithms side.lt_strictWeak)
                positive.tail (by simp only; omega) (by simp only; omega)
                (by simp only [List.length_cons] at enough; omega)
                (available.imp_right fun covered => by
                  simp only [List.map_cons, List.sum_cons] at covered
                  simp only
                  omega)
              exact ⟨heap, by rw [looped]; simp, represents'⟩

/-- The book after a remainder of volume `left` is left resting at `price`. -/
def leaveRemainder (price : P) (book : StockDeclarationBook P) (left : Int) :
    StockDeclarationBook P :=
  if left = 0 then book
  else book.setDecls side.other
    (algorithms.insert side.other.lt (book.decls side.other) ⟨order.orderId, price, left⟩)

omit [LinearOrder P] in
theorem sweep_zero (accepts : Levels P → Record P → Option (Levels P)) (levels : Levels P)
    (sorted : List (Record P)) :
    sweep stkCode order side accepts levels 0 sorted = ⟨sorted, 0, []⟩ := by
  cases sorted <;> simp [sweep]

/-- A loop that has used up its volume returns. -/
theorem counterpartyLoop_done (tPrice : P) {bound : Nat} (enough : 0 < bound)
    (state : LoopState P) (r : Record P) (done : state.leftVolume = 0) :
    counterpartyLoop algorithms stkCode order side tPrice bound state r = .ok state := by
  obtain ⟨bound, rfl⟩ := Nat.exists_eq_succ_of_ne_zero enough.ne'
  rw [counterpartyLoop, if_pos done]

/-- The remainder of type 1 goes to the own side. -/
theorem insertDecl_leaveRemainder (price : P) (book : StockDeclarationBook P) {left : Int}
    (remains : left ≠ 0) :
    book.insertDecl algorithms side.other ⟨order.orderId, price, left⟩ =
      .ok (leaveRemainder algorithms order side price book left) := by
  rw [StockDeclarationBook.insertDecl, if_neg remains, leaveRemainder, if_neg remains]

/-- The exit of the loop of type 1 that leaves the remainder. -/
theorem counterpartyLoop_leave (tPrice : P) {bound : Nat} (enough : 0 < bound)
    (book : StockDeclarationBook P) {left : Int} (remains : left ≠ 0) (trades : List (Trade P))
    (r : Record P) :
    (do
      let book ← book.insertDecl algorithms side.other ⟨order.orderId, tPrice, left⟩
      let leftVolume ← subVolume left left
      counterpartyLoop algorithms stkCode order side tPrice bound
        { book := book, leftVolume := leftVolume, trades := trades } r) =
    .ok
      { book := leaveRemainder algorithms order side tPrice book left
        leftVolume := 0
        trades := trades } := by
  rw [insertDecl_leaveRemainder _ _ _ _ _ remains, ok_bind,
    subVolume_eq_ok (le_refl _) (by simp [intMax]), ok_bind,
    counterpartyLoop_done _ _ _ _ _ enough _ _ (by simp), Int.sub_self]

/-- A loop that has used up its volume returns. -/
theorem matchLoop_done (test : Levels P → Record P → Option (Levels P))
    (onEmpty : Except Fault Unit) {bound : Nat} (enough : 0 < bound) (levels : Levels P)
    (state : LoopState P) (done : state.leftVolume = 0) :
    matchLoop algorithms stkCode order side test onEmpty bound levels state = .ok state := by
  obtain ⟨bound, rfl⟩ := Nat.exists_eq_succ_of_ne_zero enough.ne'
  rw [matchLoop, if_pos done]

/-- The loop of type 1 is the shared loop with a test for its price, followed by
the insertion of what is left. -/
theorem counterpartyLoop_eq_matchLoop (tPrice : P) (levels : Levels P) (bound : Nat) :
    ∀ (state : LoopState P) (r : Record P) (rest : List (Record P)),
      r.price = tPrice → Represents side.lt (state.book.decls side) (r :: rest) →
      Positive (r :: rest) → 0 < state.leftVolume → state.leftVolume ≤ intMax →
      rest.length + 1 < bound →
      counterpartyLoop algorithms stkCode order side tPrice bound state r =
        (do
          let final ← matchLoop algorithms stkCode order side
            (fun levels s => if s.price ≠ tPrice then none else some levels) (.ok ())
            bound levels state
          pure
            { book := leaveRemainder algorithms order side tPrice final.book final.leftVolume
              leftVolume := 0
              trades := final.trades }) := by
  induction bound with
  | zero =>
      intro _ _ _ _ _ _ _ _ enough
      contradiction
  | succ bound inductionHypothesis =>
      intro state r rest priced represents positive positiveLeft small enough
      subst priced
      obtain ⟨tail, front⟩ := represents.exists_cons side.lt_strictWeak
      have query : state.book.queryFirst side = some r := Represents.queryFirst represents
      have bounds := positive r List.mem_cons_self
      have boundPositive : 0 < bound := by omega
      simp only [counterpartyLoop, matchLoop, positiveLeft.ne', if_false, query, ne_eq,
        not_true_eq_false]
      by_cases smaller : state.leftVolume < r.volume
      · rw [if_pos smaller,
          fillFirst_part algorithms stkCode order side r.price front positiveLeft.le smaller
            bounds.2, ok_bind, ok_bind, counterpartyLoop_done _ _ _ _ _ boundPositive _ _ rfl,
          matchLoop_done _ _ _ _ _ _ boundPositive _ _ rfl]
        rfl
      · rw [if_neg smaller,
          fillFirst_whole algorithms stkCode order side r.price front bounds.1 (by omega) small,
          ok_bind, ok_bind]
        have inBook : Represents side.lt
            ((state.book.setDecls side (algorithms.removeFirst side.lt (r :: tail))).decls side)
            rest := by
          rw [StockDeclarationBook.decls_setDecls, ← front]
          exact represents.removeFirst algorithms side.lt_strictWeak
        generalize algorithms.removeFirst side.lt (r :: tail) = heap at inBook ⊢
        by_cases used : state.leftVolume - r.volume = 0
        · -- the record was exactly enough
          rw [if_pos used, matchLoop_done _ _ _ _ _ _ boundPositive _ _ used]
          simp [leaveRemainder, used]
        · rw [if_neg used]
          have leave := counterpartyLoop_leave algorithms stkCode order side r.price boundPositive
            (state.book.setDecls side heap) used
            (state.trades ++ [newTrade stkCode order side r r.price r.volume])
          obtain ⟨bound, rfl⟩ := Nat.exists_eq_succ_of_ne_zero boundPositive.ne'
          cases rest with
          | nil =>
              have query : (state.book.setDecls side heap).queryFirst side = none :=
                Represents.queryFirst inBook
              simp [query, leave, matchLoop, used]
          | cons next rest =>
              have query : (state.book.setDecls side heap).queryFirst side = some next :=
                Represents.queryFirst inBook
              simp only [query, leave]
              by_cases samePrice : next.price = r.price
              · rw [if_neg (not_not.mpr samePrice)]
                exact inductionHypothesis
                  { book := state.book.setDecls side heap
                    leftVolume := state.leftVolume - r.volume
                    trades := state.trades ++
                      [newTrade stkCode order side r r.price r.volume] }
                  next rest samePrice inBook positive.tail (by simp only; omega)
                  (by simp only; omega) (by simp only [List.length_cons] at enough; omega)
              · rw [if_pos samePrice]
                simp [matchLoop, used, query, samePrice]

/-- The loop of type 1 performs the sweep that accepts only its price, and
leaves the remainder at that price. -/
theorem counterpartyLoop_refines (tPrice : P) (levels : Levels P) (bound : Nat)
    (state : LoopState P) (r : Record P) (rest : List (Record P)) (priced : r.price = tPrice)
    (represents : Represents side.lt (state.book.decls side) (r :: rest))
    (positive : Positive (r :: rest)) (positiveLeft : 0 < state.leftVolume)
    (small : state.leftVolume ≤ intMax) (enough : rest.length + 1 < bound) {swept : Swept P}
    (sweptEq : sweep stkCode order side
      (fun levels s => if s.price ≠ tPrice then none else some levels) levels
      state.leftVolume (r :: rest) = swept) :
    ∃ heap, counterpartyLoop algorithms stkCode order side tPrice bound state r =
        .ok
          { book := leaveRemainder algorithms order side tPrice
              (state.book.setDecls side heap) swept.left
            leftVolume := 0
            trades := state.trades ++ swept.trades } ∧
      Represents side.lt heap swept.rest := by
  subst sweptEq
  obtain ⟨heap, looped, represents'⟩ := matchLoop_refines algorithms stkCode order side
    (fun levels s => if s.price ≠ tPrice then none else some levels) (.ok ()) (r :: rest) bound
    levels state represents positive positiveLeft.le small enough (Or.inl rfl)
  refine ⟨heap, ?_, represents'⟩
  rw [counterpartyLoop_eq_matchLoop algorithms stkCode order side tPrice levels bound state r rest
    priced represents positive positiveLeft small enough, looped]
  rfl

end Loops

/-! ## The handlers -/

/-- A handler returns what the reference engine settles. -/
def Agrees (result : Except Fault (Outcome P)) (settled : Settled P) : Prop :=
  ∃ outcome, result = .ok outcome ∧ Matches outcome.book settled.book ∧
    outcome.trades = settled.trades ∧ outcome.cancelled = settled.cancelled

theorem Matches.setDecls {book sorted : StockDeclarationBook P} (matching : Matches book sorted)
    {side : Side} {heap list : List (Record P)} (represents : Represents side.lt heap list) :
    Matches (book.setDecls side heap) (sorted.setDecls side list) := by
  refine Side.forall_of_pair side ?_ ?_
  · simpa using represents
  · simpa using matching side.other

theorem Matches.insert (algorithms : HeapAlgorithms) {book sorted : StockDeclarationBook P}
    (matching : Matches book sorted) {side : Side} {r : Record P}
    (fresh : ∀ s ∈ sorted.decls side, r.orderId ≠ s.orderId) :
    Matches (book.setDecls side (algorithms.insert side.lt (book.decls side) r))
      (sorted.setDecls side (insertSorted side r (sorted.decls side))) := by
  apply matching.setDecls
  rw [insertSorted_eq_orderedInsert]
  exact (matching side).insert algorithms side.lt_strictWeak fun s member =>
    Side.lt_or_lt (fresh s member)

section Handlers

variable [Zero P] (algorithms : HeapAlgorithms) (stkCode : Int)
  {book sorted : StockDeclarationBook P} {order : Order P}

/-- What the handlers need of the book and of the order: the book represents a
sorted one with positive volumes, and the order has a fresh id and a positive
`int` volume. -/
structure Ready (book sorted : StockDeclarationBook P) (order : Order P) : Prop where
  matching : Matches book sorted
  positive : ∀ side, Positive (sorted.decls side)
  fresh : ∀ side, ∀ r ∈ sorted.decls side, order.orderId ≠ r.orderId
  volumePositive : 0 < order.volume
  volumeSmall : order.volume ≤ intMax

/-- The loop of a handler, started on the side opposite to the order. -/
theorem Ready.matchLoop (ready : Ready book sorted order) (side : Side)
    (test : Levels P → Record P → Option (Levels P)) (onEmpty : Except Fault Unit)
    (available : onEmpty = .ok () ∨
      order.volume ≤ ((sorted.decls side).map Record.volume).sum) :
    ∃ heap, Exchange.matchLoop algorithms stkCode order side test onEmpty
          ((book.decls side).length + 1) Levels.start (LoopState.start book order) =
        .ok
          { book := book.setDecls side heap
            leftVolume := (sweep stkCode order side test Levels.start order.volume
              (sorted.decls side)).left
            trades := (sweep stkCode order side test Levels.start order.volume
              (sorted.decls side)).trades } ∧
      Represents side.lt heap (sweep stkCode order side test Levels.start order.volume
        (sorted.decls side)).rest := by
  have represents := ready.matching side
  obtain ⟨heap, looped, represents'⟩ := matchLoop_refines algorithms stkCode order side test
    onEmpty (sorted.decls side) ((book.decls side).length + 1) Levels.start
    (LoopState.start book order) represents (ready.positive side) ready.volumePositive.le
    ready.volumeSmall (by rw [represents.perm.length_eq]; omega) available
  exact ⟨heap, by simpa [LoopState.start] using looped, represents'⟩

/-- A branch that leaves its remainder resting at `price`. -/
theorem Ready.resting_agrees (ready : Ready book sorted order) (side : Side)
    (test : Levels P → Record P → Option (Levels P)) (price : P) :
    Agrees
      (do
        let state ← Exchange.matchLoop algorithms stkCode order side.other test (.ok ())
          ((book.decls side.other).length + 1) Levels.start (LoopState.start book order)
        if state.leftVolume ≠ 0 then
          let book ← state.book.insertDecl algorithms side
            ⟨order.orderId, price, state.leftVolume⟩
          pure ⟨book, state.trades, 0, 0⟩
        else
          pure ⟨state.book, state.trades, 0, 0⟩)
      (settle stkCode sorted side order ⟨test, some price⟩) := by
  obtain ⟨heap, looped, represents⟩ :=
    ready.matchLoop algorithms stkCode side.other test (.ok ()) (Or.inl rfl)
  rw [looped, ok_bind]
  unfold settle
  generalize sweep stkCode order side.other test Levels.start order.volume
    (sorted.decls side.other) = swept at represents ⊢
  have matching := ready.matching.setDecls represents
  by_cases used : swept.left = 0
  · simp only [used, ne_eq, not_true_eq_false, if_false, if_true]
    exact ⟨_, rfl, matching, rfl, rfl⟩
  · simp only [ne_eq, used, not_false_eq_true, if_true, if_false,
      StockDeclarationBook.insertDecl, ok_bind]
    refine ⟨_, rfl, matching.insert algorithms ?_, rfl, rfl⟩
    intro s member
    rw [StockDeclarationBook.decls_setDecls_of_other] at member
    exact ready.fresh side s member

/-- A branch that drops its remainder; the status it reports is not part of the
agreement. -/
theorem Ready.cancelling_agrees (ready : Ready book sorted order) (side : Side)
    (test : Levels P → Record P → Option (Levels P)) (onEmpty : Except Fault Unit)
    (available : onEmpty = .ok () ∨
      order.volume ≤ ((sorted.decls side.other).map Record.volume).sum)
    {next : LoopState P → Except Fault (Outcome P)}
    (reports : ∀ state, state.leftVolume = (sweep stkCode order side.other test Levels.start
        order.volume (sorted.decls side.other)).left →
      ∃ ret, next state = .ok ⟨state.book, state.trades, ret, state.leftVolume⟩) :
    Agrees
      (Exchange.matchLoop algorithms stkCode order side.other test onEmpty
        ((book.decls side.other).length + 1) Levels.start (LoopState.start book order) >>= next)
      (settle stkCode sorted side order ⟨test, none⟩) := by
  obtain ⟨heap, looped, represents⟩ :=
    ready.matchLoop algorithms stkCode side.other test onEmpty available
  rw [looped, ok_bind]
  unfold settle
  generalize sweep stkCode order side.other test Levels.start order.volume
    (sorted.decls side.other) = swept at represents reports ⊢
  obtain ⟨ret, returned⟩ :=
    reports ⟨book.setDecls side.other heap, swept.left, swept.trades⟩ rfl
  exact ⟨_, returned, ready.matching.setDecls represents, rfl, rfl⟩

omit [Zero P] in
/-- The exit of a refused order. -/
theorem Ready.refuse_agrees (ready : Ready book sorted order) (ret : Int) :
    Agrees (pure (Outcome.refuse book order ret)) ⟨sorted, [], order.volume⟩ :=
  ⟨_, rfl, ready.matching, rfl, rfl⟩

theorem handleLimitOrder_agrees (ready : Ready book sorted order) {side : Side}
    (sided : sideOf order = some side) :
    Agrees (handleLimitOrder algorithms stkCode book order)
      (settle stkCode sorted side order
        ⟨fun levels r => if side.Better r.price order.price then none else some levels,
          some order.price⟩) := by
  rw [handleLimitOrder_eq algorithms stkCode book sided]
  exact ready.resting_agrees algorithms stkCode side _ order.price

/-- The loop of type 1, started on the side opposite to the order. -/
theorem Ready.counterparty_agrees (ready : Ready book sorted order) (side : Side)
    {best : Record P} {rest : List (Record P)}
    (opposite : sorted.decls side.other = best :: rest) :
    Agrees
      (do
        let state ← counterpartyLoop algorithms stkCode order side.other best.price
          ((book.decls side.other).length + 1) (LoopState.start book order) best
        pure ⟨state.book, state.trades, 0, 0⟩)
      (settle stkCode sorted side order
        ⟨fun levels r => if r.price ≠ best.price then none else some levels,
          some best.price⟩) := by
  have represents := opposite ▸ ready.matching side.other
  have length := represents.perm.length_eq
  simp only [List.length_cons] at length
  unfold settle
  rw [opposite]
  generalize sweepEq : sweep stkCode order side.other
    (fun levels r => if r.price ≠ best.price then none else some levels) Levels.start
    order.volume (best :: rest) = swept
  obtain ⟨heap, looped, represents'⟩ := counterpartyLoop_refines algorithms stkCode order
    side.other best.price Levels.start ((book.decls side.other).length + 1)
    (LoopState.start book order) best rest rfl represents
    (opposite ▸ ready.positive side.other) ready.volumePositive ready.volumeSmall
    (by omega) sweepEq
  rw [looped, ok_bind]
  have matching := ready.matching.setDecls represents'
  simp only [leaveRemainder, Side.other_other, LoopState.start, List.nil_append]
  by_cases used : swept.left = 0
  · simp only [if_pos used]
    exact ⟨_, rfl, matching, rfl, rfl⟩
  · simp only [if_neg used]
    refine ⟨_, rfl, matching.insert algorithms ?_, rfl, rfl⟩
    intro s member
    rw [StockDeclarationBook.decls_setDecls_of_other] at member
    exact ready.fresh side s member

theorem handleCounterpartyBest_agrees (ready : Ready book sorted order) {side : Side}
    (sided : sideOf order = some side) :
    Agrees (handleCounterpartyBest algorithms stkCode book order)
      (match (sorted.decls side.other).head? with
        | none => ⟨sorted, [], order.volume⟩
        | some best => settle stkCode sorted side order
            ⟨fun levels r => if r.price ≠ best.price then none else some levels,
              some best.price⟩) := by
  rw [handleCounterpartyBest_eq algorithms stkCode book sided, ready.matching.queryFirst side.other]
  cases opposite : sorted.decls side.other with
  | nil => exact ready.refuse_agrees (-1)
  | cons best rest => exact ready.counterparty_agrees algorithms stkCode side opposite

omit [LinearOrder P] [Zero P] in
theorem sweep_never (stkCode : Int) (order : Order P) (side : Side) (levels : Levels P)
    (left : Int) (sorted : List (Record P)) :
    sweep stkCode order side (fun _ _ => none) levels left sorted = ⟨sorted, left, []⟩ := by
  cases sorted <;> simp [sweep]

/-- Type 2 inserts the whole order at the best price of its own side. -/
theorem Ready.ourBest_agrees (ready : Ready book sorted order) (side : Side) (price : P) :
    Agrees
      (do
        let book ← book.insertDecl algorithms side ⟨order.orderId, price, order.volume⟩
        pure ⟨book, [], 0, 0⟩)
      (settle stkCode sorted side order ⟨fun _ _ => none, some price⟩) := by
  have nonzero : order.volume ≠ 0 := ready.volumePositive.ne'
  simp only [settle, sweep_never, StockDeclarationBook.setDecls_decls, if_neg nonzero,
    StockDeclarationBook.insertDecl, ok_bind]
  exact ⟨_, rfl, ready.matching.insert algorithms (ready.fresh side), rfl, rfl⟩

theorem handleOurBest_agrees (ready : Ready book sorted order) {side : Side}
    (sided : sideOf order = some side) :
    Agrees (handleOurBest algorithms book order)
      (match (sorted.decls side).head? with
        | none => ⟨sorted, [], order.volume⟩
        | some best => settle stkCode sorted side order
            ⟨fun _ _ => none, some best.price⟩) := by
  rw [handleOurBest_eq algorithms book sided, ready.matching.queryFirst side]
  cases (sorted.decls side).head? with
  | none => exact ready.refuse_agrees (-1)
  | some best => exact ready.ourBest_agrees algorithms stkCode side best.price

theorem handleFiveLevelOtherCancel_agrees (ready : Ready book sorted order) {side : Side}
    (sided : sideOf order = some side) :
    Agrees (handleFiveLevelOtherCancel algorithms stkCode book order)
      (settle stkCode sorted side order ⟨levelTest, none⟩) := by
  rw [handleFiveLevelOtherCancel_eq algorithms stkCode book sided]
  exact ready.cancelling_agrees algorithms stkCode side levelTest (.ok ()) (Or.inl rfl)
    fun state _ => ⟨_, rfl⟩

theorem handleImmediateOtherCancel_agrees (ready : Ready book sorted order) {side : Side}
    (sided : sideOf order = some side) :
    Agrees (handleImmediateOtherCancel algorithms stkCode book order)
      (settle stkCode sorted side order ⟨fun levels _ => some levels, none⟩) := by
  rw [handleImmediateOtherCancel_eq algorithms stkCode book sided]
  exact ready.cancelling_agrees algorithms stkCode side _ (.ok ()) (Or.inl rfl)
    fun state _ => ⟨_, rfl⟩

omit [Zero P] in
/-- Passing the guard of type 5 means the opposite side can fill the order, even
when the accumulated total has wrapped. -/
theorem Ready.covered_of_total (ready : Ready book sorted order) {side : Side}
    (guard : ¬ order.volume > wrapInt32 ((sorted.decls side).map Record.volume).sum) :
    order.volume ≤ ((sorted.decls side).map Record.volume).sum := by
  have nonnegative : 0 ≤ ((sorted.decls side).map Record.volume).sum := by
    apply List.sum_nonneg
    intro volume member
    obtain ⟨r, inBook, rfl⟩ := List.mem_map.mp member
    exact (ready.positive side r inBook).1.le
  exact (not_lt.mp guard).trans (wrapInt32_le nonnegative)

/-- The loop of type 5, entered after its guard. -/
theorem Ready.whole_agrees (ready : Ready book sorted order) (side : Side)
    (covered : order.volume ≤ ((sorted.decls side.other).map Record.volume).sum) :
    Agrees
      (do
        let state ← Exchange.matchLoop algorithms stkCode order side.other
          (fun levels _ => some levels) (.error .noCounterparty)
          ((book.decls side.other).length + 1) Levels.start (LoopState.start book order)
        pure ⟨state.book, state.trades, 0, 0⟩)
      (settle stkCode sorted side order ⟨fun levels _ => some levels, none⟩) := by
  apply ready.cancelling_agrees algorithms stkCode side _ _ (Or.inr covered)
  intro state leftEq
  rw [sweep_left_eq_zero stkCode order side.other _ Levels.start order.volume _ (by simp)
    ready.volumePositive.le covered] at leftEq
  exact ⟨0, by rw [leftEq]; rfl⟩

theorem handleWholeOrCancel_agrees (ready : Ready book sorted order) {side : Side}
    (sided : sideOf order = some side) :
    Agrees (handleWholeOrCancel algorithms stkCode book order)
      (if order.volume > wrapInt32 ((sorted.decls side.other).map Record.volume).sum then
        ⟨sorted, [], order.volume⟩
      else settle stkCode sorted side order ⟨fun levels _ => some levels, none⟩) := by
  rw [handleWholeOrCancel_eq algorithms stkCode book sided,
    Represents.totalVolume (ready.matching side.other)]
  by_cases guard : order.volume > wrapInt32 ((sorted.decls side.other).map Record.volume).sum
  · rw [if_pos guard, if_pos guard]
    exact ready.refuse_agrees (-1)
  · rw [if_neg guard, if_neg guard]
    exact ready.whole_agrees algorithms stkCode side (ready.covered_of_total guard)

/-- The switch of `commitOrder` answers as the reference engine does. -/
theorem dispatchOrder_agrees (ready : Ready book sorted order) :
    Agrees (dispatchOrder algorithms stkCode book order) (commit stkCode sorted order) := by
  cases sided : sideOf order with
  | none =>
      have unsided := direction_of_sideOf_none sided
      have unknown : ¬ (0 ≤ order.type ∧ order.type ≤ 5 ∧
          (order.direction = 1 ∨ order.direction = -1)) := by omega
      rcases dispatchOrder_refused algorithms stkCode book unknown with ⟨ret, refused⟩
      simp only [commit, sided, refused]
      exact ready.refuse_agrees ret
  | some side =>
      simp only [commit, sided, dispatchOrder, planOf]
      by_cases cancelled : order.type = -1
      · simp only [cancelled, if_true, Int.reduceNeg, Int.reduceEq, if_false]
        exact ready.refuse_agrees 0
      rw [if_neg cancelled]
      by_cases type0 : order.type = 0
      · simp only [if_pos type0]
        exact handleLimitOrder_agrees algorithms stkCode ready sided
      simp only [if_neg type0]
      by_cases type1 : order.type = 1
      · simp only [if_pos type1]
        have agrees := handleCounterpartyBest_agrees algorithms stkCode ready sided
        cases opposite : (sorted.decls side.other).head? with
        | none => simpa only [opposite, Option.map_none] using agrees
        | some best => simpa only [opposite, Option.map_some] using agrees
      simp only [if_neg type1]
      by_cases type2 : order.type = 2
      · simp only [if_pos type2]
        have agrees := handleOurBest_agrees algorithms stkCode ready sided
        cases own : (sorted.decls side).head? with
        | none => simpa only [own, Option.map_none] using agrees
        | some best => simpa only [own, Option.map_some] using agrees
      simp only [if_neg type2]
      by_cases type3 : order.type = 3
      · simp only [if_pos type3]
        exact handleFiveLevelOtherCancel_agrees algorithms stkCode ready sided
      simp only [if_neg type3]
      by_cases type4 : order.type = 4
      · simp only [if_pos type4]
        exact handleImmediateOtherCancel_agrees algorithms stkCode ready sided
      simp only [if_neg type4]
      by_cases type5 : order.type = 5
      · simp only [if_pos type5]
        have agrees := handleWholeOrCancel_agrees algorithms stkCode ready sided
        by_cases guard : order.volume >
            wrapInt32 ((sorted.decls side.other).map Record.volume).sum
        · simpa only [if_pos guard] using agrees
        · simpa only [if_neg guard] using agrees
      simp only [if_neg type5]
      exact ready.refuse_agrees (-1)

/-- Dropping the status of the handler does not touch the book or the trades. -/
theorem commitOrder_agrees (ready : Ready book sorted order) :
    Agrees (commitOrder algorithms stkCode book order) (commit stkCode sorted order) := by
  obtain ⟨outcome, dispatched, agreement⟩ := dispatchOrder_agrees algorithms stkCode ready
  rw [commitOrder, dispatched, ok_bind]
  split
  · exact ⟨_, rfl, agreement⟩
  · exact ⟨_, rfl, agreement⟩

end Handlers

end PpiwTrading.Exchange
