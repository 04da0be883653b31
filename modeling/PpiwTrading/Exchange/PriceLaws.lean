import PpiwTrading.Exchange.BookInvariant
import PpiwTrading.Exchange.Conservation

/-!
# The prices of trades

A trade is made at the price of the record that was resting.  The price at
which an order of type 0 or 1 may trade is capped when it is committed, by its
own limit or by the best opposite price it sees, and the cap stays with the
record the order leaves: it holds when a much later order fills that record.
-/

namespace PpiwTrading.Exchange

open PpiwTrading.Heap
open PpiwTrading.Exchange.Reference

variable {P : Type} [LinearOrder P]

/-- Every record and every trade of the order `id` of `side` is at an allowed
price. -/
structure Capped (id : Int) (side : Side) (allowed : P → Prop) (book : StockDeclarationBook P)
    (trades : List (Trade P)) : Prop where
  resting : ∀ r ∈ book.decls side, r.orderId = id → allowed r.price
  traded : ∀ t ∈ trades, side.party t = id → allowed t.price

/-- A plan that fills and rests at allowed prices only. -/
def Reference.Plan.Within (plan : Plan P) (allowed : P → Prop) : Prop :=
  (∀ levels r, plan.accepts levels r ≠ none → allowed r.price) ∧
    ∀ price, plan.restAt = some price → allowed price

variable [Zero P] (stkCode : Int) {order : Order P} {side : Side} {allowed : P → Prop}
  {book : StockDeclarationBook P} {trades : List (Trade P)} {latest : Int}

/-- A later commit keeps the cap. -/
theorem Capped.commit {id : Int} {next : Order P} (capped : Capped id side allowed book trades)
    (sound : Sound latest book) (different : next.orderId ≠ id) (positive : 0 < next.volume) :
    Capped id side allowed (commit stkCode book next).book
      (trades ++ (commit stkCode book next).trades) where
  resting := by
    intro s member sameOrder
    rcases commit_origin stkCode sound positive side s member with
      ⟨r, inBook, sameId, samePrice, _⟩ | ⟨_, ownId, _⟩
    · rw [← samePrice]
      exact capped.resting r inBook (sameId.trans sameOrder)
    · exact absurd (ownId.symm.trans sameOrder) different
  traded := by
    intro t member named
    rcases List.mem_append.mp member with old | new
    · exact capped.traded t old named
    · obtain ⟨nextSide, _, r, volume, _, _, inBook, _, rfl, _⟩ :=
        commit_trade stkCode sound positive t new
      have parties := newTrade_party stkCode next nextSide.other r r.price volume
      rw [Side.other_other] at parties
      rcases Side.eq_or_eq_other side nextSide with rfl | rfl
      · exact absurd (parties.2.symm.trans named) different
      · rw [newTrade_price]
        exact capped.resting r inBook (parties.1.symm.trans named)

/-- The commit of an order whose plan keeps to the allowed prices sets up the cap. -/
theorem Capped.start (sound : Sound latest book) (fresh : latest < order.orderId)
    (positive : 0 < order.volume) (sided : sideOf order = some side)
    (within : ∀ plan, planOf book side order = some plan → plan.Within allowed)
    (unnamed : ∀ t ∈ trades, t.bidId ≠ order.orderId ∧ t.askId ≠ order.orderId) :
    Capped order.orderId side allowed (Reference.commit stkCode book order).book
      (trades ++ (Reference.commit stkCode book order).trades) where
  resting := by
    intro s member sameOrder
    rcases commit_origin stkCode sound positive side s member with
      ⟨r, inBook, sameId, _⟩ | ⟨_, _, _, plan, planned, rests⟩
    · have recent := sound.recent side r inBook
      omega
    · exact (within plan planned).2 s.price rests
  traded := by
    intro t member named
    rcases List.mem_append.mp member with old | new
    · have absent := unnamed t old
      cases side with
      | buy => exact absurd named absent.1
      | sell => exact absurd named absent.2
    · obtain ⟨tradeSide, plan, r, volume, sided', planned, _, _, rfl, levels, accepted⟩ :=
        commit_trade stkCode sound positive t new
      obtain rfl : tradeSide = side := by
        rw [sided] at sided'
        exact (Option.some.inj sided').symm
      rw [newTrade_price]
      exact (within plan planned).1 levels r accepted

/-- At the end of a run the cap of an order still holds. -/
theorem Capped.run {earlier later : List (Order P)} (feed : Feed (earlier ++ order :: later))
    (sided : sideOf order = some side)
    (within : ∀ plan,
      planOf (Reference.run stkCode StockDeclarationBook.empty earlier).1 side order = some plan →
        plan.Within allowed) :
    Capped order.orderId side allowed
      (Reference.run stkCode StockDeclarationBook.empty (earlier ++ order :: later)).1
      (Reference.run stkCode StockDeclarationBook.empty (earlier ++ order :: later)).2 := by
  have named := run_trades_named stkCode feed.append_left fun o member =>
    (List.pairwise_append.mp feed.increasing).2.2 o member order List.mem_cons_self
  refine Reference.run_split_invariant stkCode feed
    (Capped.start stkCode (sound_split stkCode feed) (by omega)
      (feed.volumes order (by simp)).1 sided within named) ?_
  intro latest book trades next sound different positive capped
  exact capped.commit stkCode sound different positive

/-! ## The caps of types 0 and 1 -/

/-- A limit order stays within its own price. -/
theorem planOf_within_limit (book : StockDeclarationBook P) (limit : order.type = 0) :
    ∀ plan, planOf book side order = some plan →
      plan.Within fun price => ¬ side.Better price order.price := by
  intro plan planned
  simp only [planOf, limit, if_true, Option.some.injEq] at planned
  subst planned
  constructor
  · intro levels r accepted better
    simp [better] at accepted
  · rintro price rests
    cases rests
    exact side.better_irrefl order.price

/-- An order of type 1 stays at the best opposite price it sees. -/
theorem planOf_within_best (book : StockDeclarationBook P) (counterparty : order.type = 1) :
    ∀ plan, planOf book side order = some plan →
      plan.Within fun price => ∃ best, (book.decls side.other).head? = some best ∧
        ¬ side.Better price best.price := by
  intro plan planned
  simp only [planOf, counterparty] at planned
  obtain ⟨best, front, rfl⟩ := Option.map_eq_some_iff.mp (by simpa using planned)
  constructor
  · intro levels r accepted
    have same : r.price = best.price := by simpa using accepted
    exact ⟨best, front, same ▸ side.better_irrefl best.price⟩
  · rintro price rests
    cases rests
    exact ⟨best, front, side.better_irrefl best.price⟩

/-- A party of type 0 trades within its own price. -/
theorem Reference.run_within_limit {orders : List (Order P)} (feed : Feed orders)
    (member : order ∈ orders) (sided : sideOf order = some side) (limit : order.type = 0)
    {t : Trade P} (inTrades : t ∈ (Reference.run stkCode StockDeclarationBook.empty orders).2)
    (named : side.party t = order.orderId) : ¬ side.Better t.price order.price := by
  obtain ⟨earlier, later, rfl⟩ := List.append_of_mem member
  exact (Capped.run stkCode feed sided (planOf_within_limit _ limit)).traded t inTrades named

/-! ## Where a trade comes from -/

/-- A trade of a run is made by the commit of one order, against a record that
an earlier order of the opposite side has left in the book. -/
theorem Reference.run_trade_origin {orders : List (Order P)} (feed : Feed orders) {t : Trade P}
    (member : t ∈ (Reference.run stkCode StockDeclarationBook.empty orders).2) :
    ∃ earlier order later side volume, ∃ resting ∈ earlier,
      ∃ r ∈ (Reference.run stkCode StockDeclarationBook.empty earlier).1.decls side.other,
        orders = earlier ++ order :: later ∧
        t ∈ (commit stkCode
          (Reference.run stkCode StockDeclarationBook.empty earlier).1 order).trades ∧
        sideOf order = some side ∧ sideOf resting = some side.other ∧
        resting.orderId = r.orderId ∧ r.orderId < order.orderId ∧
        t = newTrade stkCode order side.other r r.price volume := by
  obtain ⟨earlier, order, later, rfl, inTrades⟩ :=
    Reference.exists_split_of_mem_run stkCode StockDeclarationBook.empty member
  have sound := sound_split stkCode feed
  obtain ⟨side, _, r, volume, sided, _, inBook, _, made, _⟩ :=
    commit_trade stkCode sound (feed.volumes order (by simp)).1 t inTrades
  obtain ⟨resting, inEarlier, sameId, restingSide, _⟩ :=
    Traceable.run stkCode feed.append_left side.other r inBook
  have recent := sound.recent side.other r inBook
  exact ⟨earlier, order, later, side, volume, resting, inEarlier, r, inBook, rfl, inTrades,
    sided, restingSide, sameId, by omega, made⟩

/-! ## The laws -/

omit [LinearOrder P] [Zero P] in
/-- An id names one order of a feed. -/
theorem Feed.eq_of_orderId {orders : List (Order P)} (feed : Feed orders) {o p : Order P}
    (first : o ∈ orders) (second : p ∈ orders) (same : o.orderId = p.orderId) : o = p := by
  have distinct : (orders.map Order.orderId).Nodup :=
    List.pairwise_map.mpr (feed.increasing.imp fun smaller => smaller.ne)
  exact List.inj_on_of_nodup_map distinct first second same

section Laws

variable (algorithms : HeapAlgorithms) (orders : List (Order P)) (t : Trade P)

/-- The parties of a trade are two different committed orders of direction 1
and -1, and a party of type 0 trades within its own price. -/
def TradeParties : Prop :=
  t.bidId ≠ t.askId ∧ ∃ bid ∈ orders, ∃ ask ∈ orders,
    bid.orderId = t.bidId ∧ ask.orderId = t.askId ∧ bid.direction = 1 ∧ ask.direction = -1 ∧
    (bid.type = 0 → t.price ≤ bid.price) ∧ (ask.type = 0 → ask.price ≤ t.price)

/-- A trade is made by the commit of the party with the larger id, at the price
of the record that the party with the smaller id has in the book. -/
def TradeResting : Prop :=
  ∃ earlier order later book earlierTrades outcome side,
    orders = earlier ++ order :: later ∧
    commitOrders algorithms stkCode StockDeclarationBook.empty earlier =
      .ok (book, earlierTrades) ∧
    commitOrder algorithms stkCode book order = .ok outcome ∧ t ∈ outcome.trades ∧
    order.orderId = max t.bidId t.askId ∧
    ∃ r ∈ book.decls side, r.orderId = min t.bidId t.askId ∧ r.price = t.price

/-- A party of type 1 never trades at a price worse than the best opposite
price in the book it was committed on. -/
def TradeCounterparty : Prop :=
  ∀ earlier order later book earlierTrades, orders = earlier ++ order :: later →
    order.type = 1 →
    commitOrders algorithms stkCode StockDeclarationBook.empty earlier =
      .ok (book, earlierTrades) →
    (order.orderId = t.bidId → ∃ best, book.querySellFirst = some best ∧ t.price ≤ best.price) ∧
    (order.orderId = t.askId → ∃ best, book.queryBuyFirst = some best ∧ best.price ≤ t.price)

variable {algorithms orders t}

theorem TradeParties.of_run (feed : Feed orders)
    (member : t ∈ (Reference.run stkCode StockDeclarationBook.empty orders).2) :
    TradeParties orders t := by
  obtain ⟨earlier, order, later, side, volume, resting, inEarlier, r, _, split, _, sided,
    restingSide, sameId, older, made⟩ := run_trade_origin stkCode feed member
  have orderMember : order ∈ orders := by simp [split]
  have restingMember : resting ∈ orders := by simp [split, inEarlier]
  cases side with
  | buy =>
      have bidId : t.bidId = order.orderId := by rw [made]; rfl
      have askId : t.askId = resting.orderId := by rw [made, sameId]; rfl
      refine ⟨by omega, order, orderMember, resting, restingMember, bidId.symm, askId.symm,
        direction_of_sideOf_buy sided, direction_of_sideOf_sell restingSide, ?_, ?_⟩
      · intro limit
        exact not_lt.mp (run_within_limit stkCode feed orderMember sided limit member bidId)
      · intro limit
        exact not_lt.mp
          (run_within_limit stkCode feed restingMember restingSide limit member askId)
  | sell =>
      have bidId : t.bidId = resting.orderId := by rw [made, sameId]; rfl
      have askId : t.askId = order.orderId := by rw [made]; rfl
      refine ⟨by omega, resting, restingMember, order, orderMember, bidId.symm, askId.symm,
        direction_of_sideOf_buy restingSide, direction_of_sideOf_sell sided, ?_, ?_⟩
      · intro limit
        exact not_lt.mp
          (run_within_limit stkCode feed restingMember restingSide limit member bidId)
      · intro limit
        exact not_lt.mp (run_within_limit stkCode feed orderMember sided limit member askId)

theorem TradeResting.of_run (feed : Feed orders)
    (member : t ∈ (Reference.run stkCode StockDeclarationBook.empty orders).2) :
    TradeResting stkCode algorithms orders t := by
  obtain ⟨earlier, order, later, side, volume, _, _, r, inBook, rfl, inTrades, _, _, _, older,
    made⟩ := run_trade_origin stkCode feed member
  obtain ⟨book, reached, matching, outcome, returned, _, trades, _⟩ :=
    commitOrders_split stkCode algorithms feed
  refine ⟨earlier, order, later, book, _, outcome, side.other, rfl, reached, returned,
    trades ▸ inTrades, ?_, r, (matching side.other).perm.mem_iff.mpr inBook, ?_, ?_⟩
  · cases side <;> simp only [made, newTrade, Side.other] <;> omega
  · cases side <;> simp only [made, newTrade, Side.other] <;> omega
  · rw [made, newTrade_price]

theorem TradeCounterparty.of_run (feed : Feed orders)
    (member : t ∈ (Reference.run stkCode StockDeclarationBook.empty orders).2) :
    TradeCounterparty stkCode algorithms orders t := by
  rintro earlier order later book earlierTrades rfl counterparty reached
  obtain ⟨book', reached', matching, _⟩ := commitOrders_split stkCode algorithms feed
  obtain rfl : book = book' := by
    rw [reached] at reached'
    cases reached'
    rfl
  obtain ⟨_, bid, bidMember, ask, askMember, bidId, askId, buys, sells, _⟩ :=
    TradeParties.of_run stkCode feed member
  constructor
  · intro named
    obtain rfl := feed.eq_of_orderId bidMember (by simp) (bidId.trans named.symm)
    have sided : sideOf bid = some .buy := by simp [sideOf, buys]
    obtain ⟨best, front, within⟩ := (Capped.run stkCode feed sided
      (planOf_within_best _ counterparty)).traded t member named.symm
    exact ⟨best, (matching.queryFirst .sell).trans front, not_lt.mp within⟩
  · intro named
    obtain rfl := feed.eq_of_orderId askMember (by simp) (askId.trans named.symm)
    have sided : sideOf ask = some .sell := by simp [sideOf, sells]
    obtain ⟨best, front, within⟩ := (Capped.run stkCode feed sided
      (planOf_within_best _ counterparty)).traded t member named.symm
    exact ⟨best, (matching.queryFirst .buy).trans front, not_lt.mp within⟩

end Laws

/-- Every trade of a run from the empty book obeys the laws on its parties, on
the price of the resting party and on parties of type 1. -/
theorem commitOrders_trade_prices (algorithms : HeapAlgorithms) (orders : List (Order P))
    (increasing : orders.Pairwise fun o p => o.orderId < p.orderId)
    (volumes : ∀ o ∈ orders, 0 < o.volume ∧ o.volume ≤ intMax) :
    ∃ final trades, commitOrders algorithms stkCode StockDeclarationBook.empty orders =
        .ok (final, trades) ∧
      ∀ t ∈ trades, TradeParties orders t ∧ TradeResting stkCode algorithms orders t ∧
        TradeCounterparty stkCode algorithms orders t := by
  have feed : Feed orders := ⟨increasing, volumes⟩
  obtain ⟨final, committed, _⟩ := commitOrders_refines_empty stkCode algorithms feed
  exact ⟨final, _, committed, fun t member => ⟨TradeParties.of_run stkCode feed member,
    TradeResting.of_run stkCode feed member, TradeCounterparty.of_run stkCode feed member⟩⟩

/-- A buy of type 1 takes a sell at 5 and rests at 5, where a later sell at 3
meets it. -/
theorem commitOrders_trade_prices_counterparty :
    ∃ final trades, commitOrders binaryHeap 1 StockDeclarationBook.empty
        ([⟨1, 1, -1, 0, 5, 10⟩, ⟨1, 2, 1, 1, 0, 15⟩, ⟨1, 3, -1, 0, 3, 5⟩] : List (Order Int)) =
        .ok (final, trades) ∧
      ∀ t ∈ trades,
        TradeParties [⟨1, 1, -1, 0, 5, 10⟩, ⟨1, 2, 1, 1, 0, 15⟩, ⟨1, 3, -1, 0, 3, 5⟩] t ∧
        TradeResting 1 binaryHeap
          [⟨1, 1, -1, 0, 5, 10⟩, ⟨1, 2, 1, 1, 0, 15⟩, ⟨1, 3, -1, 0, 3, 5⟩] t ∧
        TradeCounterparty 1 binaryHeap
          [⟨1, 1, -1, 0, 5, 10⟩, ⟨1, 2, 1, 1, 0, 15⟩, ⟨1, 3, -1, 0, 3, 5⟩] t :=
  commitOrders_trade_prices 1 binaryHeap
    ([⟨1, 1, -1, 0, 5, 10⟩, ⟨1, 2, 1, 1, 0, 15⟩, ⟨1, 3, -1, 0, 3, 5⟩] : List (Order Int))
    (by decide) (by decide)

end PpiwTrading.Exchange
