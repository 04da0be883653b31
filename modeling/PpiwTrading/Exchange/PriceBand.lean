import PpiwTrading.Exchange.PriceTimePriority
import PpiwTrading.Trader.Controller

/-!
# The daily price band

The traders check the price of limit orders only.  The exchange takes every
other price it works with from a record of the book, so the band of the limit
orders is the band of the whole run.
-/

namespace PpiwTrading.Exchange

open PpiwTrading.Heap
open PpiwTrading.Trader
open PpiwTrading.Exchange.Reference

variable {P : Type} [LinearOrder P] [Zero P]

/-- A remainder rests at the price of a limit order or of a record. -/
theorem planOf_restAt {book : StockDeclarationBook P} {side : Side} {order : Order P}
    {plan : Plan P} {price : P} (planned : planOf book side order = some plan)
    (rests : plan.restAt = some price) :
    order.type = 0 ∧ order.price = price ∨ ∃ any, ∃ r ∈ book.decls any, r.price = price := by
  simp only [planOf] at planned
  split at planned
  · rename_i limit
    cases planned
    cases rests
    exact Or.inl ⟨limit, rfl⟩
  · split at planned
    · obtain ⟨best, front, rfl⟩ := Option.map_eq_some_iff.mp planned
      cases rests
      exact Or.inr ⟨side.other, best, List.mem_of_mem_head? front, rfl⟩
    · split at planned
      · obtain ⟨best, front, rfl⟩ := Option.map_eq_some_iff.mp planned
        cases rests
        exact Or.inr ⟨side, best, List.mem_of_mem_head? front, rfl⟩
      · repeat' split at planned
        all_goals cases planned
        all_goals cases rests

/-- Every record and every trade has an allowed price. -/
structure Priced (allowed : P → Prop) (book : StockDeclarationBook P) (trades : List (Trade P)) :
    Prop where
  resting : ∀ side, ∀ r ∈ book.decls side, allowed r.price
  traded : ∀ t ∈ trades, allowed t.price

/-- A commit keeps to the allowed prices when limit orders do. -/
theorem Priced.commit (stkCode : Int) {latest : Int} {allowed : P → Prop}
    {book : StockDeclarationBook P} {trades : List (Trade P)} {order : Order P}
    (priced : Priced allowed book trades) (sound : Sound latest book)
    (positive : 0 < order.volume) (limit : order.type = 0 → allowed order.price) :
    Priced allowed (commit stkCode book order).book
      (trades ++ (commit stkCode book order).trades) where
  resting := by
    intro side s member
    rcases commit_origin stkCode sound positive side s member with
      ⟨r, inBook, _, samePrice, _⟩ | ⟨_, _, _, plan, planned, rests⟩
    · rw [← samePrice]
      exact priced.resting side r inBook
    · rcases planOf_restAt planned rests with ⟨type, own⟩ | ⟨any, r, inBook, samePrice⟩
      · rw [← own]
        exact limit type
      · rw [← samePrice]
        exact priced.resting any r inBook
  traded := by
    intro t member
    rcases List.mem_append.mp member with old | new
    · exact priced.traded t old
    · obtain ⟨side, _, r, volume, _, _, inBook, _, rfl, _⟩ :=
        commit_trade stkCode sound positive t new
      rw [newTrade_price]
      exact priced.resting side.other r inBook

theorem Priced.run (stkCode : Int) {allowed : P → Prop} {orders : List (Order P)}
    (feed : Feed orders) (limits : ∀ o ∈ orders, o.type = 0 → allowed o.price) :
    Priced allowed (Reference.run stkCode StockDeclarationBook.empty orders).1
      (Reference.run stkCode StockDeclarationBook.empty orders).2 := by
  refine Reference.run_empty_invariant stkCode ?_ feed ⟨?_, by simp⟩
  · intro latest book trades order member sound _ positive priced
    exact priced.commit stkCode sound positive (limits order member)
  · intro side r member
    cases side <;> cases member

/-- Orders that passed the check of a trader and are committed in id order
never leave a record or make a trade outside the limits of their stock: after
every initial part of the run the records and all trades are in the band. -/
theorem commitOrders_within_band (algorithms : HeapAlgorithms) (stkCode : Int) (lo hi : P)
    (orders : List (Order P)) (increasing : orders.Pairwise fun o p => o.orderId < p.orderId)
    (volumes : ∀ o ∈ orders, 0 < o.volume ∧ o.volume ≤ intMax)
    (checked : ∀ o ∈ orders, ∃ input info raw orderIdUpperLimits,
      input.lowerLimits stkCode = lo ∧ input.upperLimits stkCode = hi ∧
        checkOrder input info raw orderIdUpperLimits stkCode = .ok (some o)) :
    ∀ earlier later, orders = earlier ++ later →
      ∃ book trades, commitOrders algorithms stkCode StockDeclarationBook.empty earlier =
          .ok (book, trades) ∧
        (∀ side, ∀ r ∈ book.decls side, lo ≤ r.price ∧ r.price ≤ hi) ∧
        ∀ t ∈ trades, lo ≤ t.price ∧ t.price ≤ hi := by
  rintro earlier later rfl
  have feed : Feed earlier := Feed.append_left ⟨increasing, volumes⟩
  obtain ⟨book, committed, matching⟩ := commitOrders_refines_empty stkCode algorithms feed
  have priced : Priced (fun price => lo ≤ price ∧ price ≤ hi) _ _ :=
    Priced.run stkCode feed fun o member limit => by
      obtain ⟨input, info, raw, orderIdUpperLimits, rfl, rfl, passed⟩ :=
        checked o (List.mem_append_left later member)
      exact checkOrder_within passed limit
  refine ⟨book, _, committed, ?_, priced.traded⟩
  intro side r member
  exact priced.resting side r ((matching side).perm.subset member)

/-- A limit sell at 5 in the band from 3 to 7, and a buy of type 1 whose own
price of 99 is not looked at. -/
theorem commitOrders_within_band_counterparty :
    ∃ book trades, commitOrders binaryHeap 1 StockDeclarationBook.empty
        ([⟨1, 1, -1, 0, 5, 10⟩, ⟨1, 2, 1, 1, 99, 25⟩] : List (Order Int)) = .ok (book, trades) ∧
      (∀ side, ∀ r ∈ book.decls side, 3 ≤ r.price ∧ r.price ≤ 7) ∧
      ∀ t ∈ trades, 3 ≤ t.price ∧ t.price ≤ 7 := by
  refine commitOrders_within_band binaryHeap 1 3 7
    ([⟨1, 1, -1, 0, 5, 10⟩, ⟨1, 2, 1, 1, 99, 25⟩] : List (Order Int))
    (by decide) (by decide) ?_ _ [] rfl
  intro o member
  refine ⟨⟨[], fun _ => 3, fun _ => 7, fun _ => []⟩, SharedTradeInfo.new fun _ _ => none, o, 10,
    rfl, rfl, ?_⟩
  rcases List.mem_pair.mp member with rfl | rfl <;> rfl

end PpiwTrading.Exchange
