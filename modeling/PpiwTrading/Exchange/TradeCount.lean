import PpiwTrading.Exchange.PriceTimePriority

/-!
# How many trades there can be

A trade either uses up the record it takes from, or it ends the order that is
being settled.  So an order adds at most one to the number of trades and resting
records together, and a run from the empty book has no more trades than orders.
-/

namespace PpiwTrading.Exchange

open PpiwTrading.Heap
open PpiwTrading.Exchange.Reference

variable {P : Type}

/-- The number of resting records. -/
def StockDeclarationBook.size (book : StockDeclarationBook P) : Nat :=
  book.buyDecls.length + book.sellDecls.length

theorem StockDeclarationBook.size_eq (book : StockDeclarationBook P) (side : Side) :
    book.size = (book.decls side).length + (book.decls side.other).length := by
  cases side with
  | buy => rfl
  | sell => exact Nat.add_comm _ _

/-- Only the last fill of a sweep leaves its record in the list, and it leaves
nothing of the volume. -/
theorem Reference.Filled.length_le {sorted rest : List (Record P)} {left left' : Int}
    {fills : List (Record P × Int)} (filled : Filled sorted left fills rest left') :
    fills.length + rest.length ≤ sorted.length + if left' = 0 then 1 else 0 := by
  induction filled with
  | stop => simp
  | part =>
      simp only [List.length_cons, List.length_nil, if_true]
      omega
  | whole _ _ inductionHypothesis =>
      simp only [List.length_cons]
      omega

variable [LinearOrder P] [Zero P]

/-- A commit adds at most one to the trades and the resting records. -/
theorem Reference.commit_size_le (stkCode : Int) (book : StockDeclarationBook P)
    {order : Order P} (positive : 0 < order.volume) :
    (commit stkCode book order).trades.length + (commit stkCode book order).book.size ≤
      book.size + 1 := by
  rcases commit_cases stkCode book order positive.le with
    refused | ⟨side, plan, fills, left, _, _, settles⟩
  · rw [refused]
    simp
  · have counted := settles.filled.length_le
    rw [settles.trades, fillTrades, List.length_map,
      (commit stkCode book order).book.size_eq side, book.size_eq side]
    rcases settles.own with ⟨same, _⟩ | ⟨price, _, remains, _, inserted⟩
    · rw [same]
      split at counted <;> omega
    · rw [inserted, (insertSorted_perm side _ _).length_eq, List.length_cons]
      rw [if_neg remains] at counted
      omega

/-- A run of the reference engine has no more trades and resting records than
orders. -/
theorem Reference.run_size_le (stkCode : Int) {orders : List (Order P)} (feed : Feed orders)
    (book : StockDeclarationBook P) :
    (Reference.run stkCode book orders).2.length + (Reference.run stkCode book orders).1.size ≤
      book.size + orders.length := by
  induction orders generalizing book with
  | nil => simp [Reference.run]
  | cons order rest inductionHypothesis =>
      have first := commit_size_le stkCode book (feed.volumes order List.mem_cons_self).1
      have others := inductionHypothesis feed.tail (commit stkCode book order).book
      simp only [Reference.run, List.length_append, List.length_cons]
      omega

/-- Committing orders with increasing ids and positive `int` volumes from the empty
book: every order accounts for at most one trade or one resting record. -/
theorem commitOrders_size_le (algorithms : HeapAlgorithms) (stkCode : Int)
    (orders : List (Order P)) (increasing : orders.Pairwise fun o p => o.orderId < p.orderId)
    (volumes : ∀ o ∈ orders, 0 < o.volume ∧ o.volume ≤ intMax) :
    ∃ final trades, commitOrders algorithms stkCode StockDeclarationBook.empty orders =
        .ok (final, trades) ∧
      trades.length + final.buyDecls.length + final.sellDecls.length ≤ orders.length := by
  have feed : Feed orders := ⟨increasing, volumes⟩
  rcases commitOrders_refines_empty stkCode algorithms feed with ⟨final, committed, matching⟩
  refine ⟨final, _, committed, ?_⟩
  have counted := Reference.run_size_le stkCode feed StockDeclarationBook.empty
  have buys : final.buyDecls.length = _ := (matching .buy).perm.length_eq
  have sells : final.sellDecls.length = _ := (matching .sell).perm.length_eq
  have empty : (StockDeclarationBook.empty : StockDeclarationBook P).size = 0 := rfl
  rw [empty, StockDeclarationBook.size_eq _ .buy] at counted
  change _ + (_ + _) ≤ _ at counted
  simp only [Side.other] at counted
  omega

/-- A sell at 5, a better sell at 4 and a buy at 5 that takes both and rests: two
trades and one resting record. -/
theorem commitOrders_size_le_three :
    ∃ final trades, commitOrders binaryHeap 1 StockDeclarationBook.empty
          ([⟨1, 1, -1, 0, 5, 10⟩, ⟨1, 2, -1, 0, 4, 10⟩, ⟨1, 3, 1, 0, 5, 25⟩] :
            List (Order Int)) = .ok (final, trades) ∧
      trades.length + final.buyDecls.length + final.sellDecls.length ≤ 3 :=
  commitOrders_size_le binaryHeap 1
    ([⟨1, 1, -1, 0, 5, 10⟩, ⟨1, 2, -1, 0, 4, 10⟩, ⟨1, 3, 1, 0, 5, 25⟩] : List (Order Int))
    (by decide) (by decide)

end PpiwTrading.Exchange
