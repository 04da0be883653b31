import PpiwTrading.Exchange.PriceTimePriority

/-!
# The invariant of the declaration book

Every book reached from the empty one is a pair of heaps of positive volumes,
each taken from the order its record names, with no id resting twice and the
best buy price strictly below the best sell price.  The run itself returns:
no assertion of the book or of a handler fires, and no volume leaves its range.
-/

namespace PpiwTrading.Exchange

open PpiwTrading.Heap
open PpiwTrading.Exchange.Reference

variable {P : Type} [LinearOrder P]

/-- Every resting record is the remainder of one of the orders, on its side. -/
def Reference.Traceable (orders : List (Order P)) (book : StockDeclarationBook P) : Prop :=
  ∀ side, ∀ r ∈ book.decls side, ∃ o ∈ orders, o.orderId = r.orderId ∧
    sideOf o = some side ∧ r.volume ≤ o.volume

/-- One commit keeps every record traceable. -/
theorem Reference.Traceable.commit [Zero P] {latest : Int} {orders : List (Order P)}
    {book : StockDeclarationBook P} {order : Order P} (stkCode : Int)
    (traceable : Traceable orders book) (member : order ∈ orders) (sound : Sound latest book)
    (positive : 0 < order.volume) :
    Traceable orders (commit stkCode book order).book := by
  intro side s resting
  rcases commit_origin stkCode sound positive side s resting with
    ⟨r, inBook, sameId, _, smaller⟩ | ⟨sided, sameId, smaller, _⟩
  · obtain ⟨o, inOrders, origin, ofSide, volume⟩ := traceable side r inBook
    exact ⟨o, inOrders, origin.trans sameId, ofSide, smaller.trans volume⟩
  · exact ⟨order, member, sameId.symm, sided, smaller⟩

/-- A run from the empty book keeps every record traceable. -/
theorem Reference.Traceable.run [Zero P] (stkCode : Int) {orders : List (Order P)}
    (feed : Feed orders) :
    Traceable orders (Reference.run stkCode StockDeclarationBook.empty orders).1 := by
  refine Reference.run_empty_invariant (motive := fun book _ => Traceable orders book)
    stkCode ?_ feed ?_
  · intro latest book _ order member sound _ positive traceable
    exact traceable.commit stkCode member sound positive
  · intro side r member
    cases side <;> cases member

/-- The invariant of the book after `orders` have been committed. -/
structure BookInvariant (orders : List (Order P)) (book : StockDeclarationBook P) : Prop where
  buyHeap : IsHeap BuyRecord.lt book.buyDecls
  sellHeap : IsHeap SellRecord.lt book.sellDecls
  volumes : ∀ side, ∀ r ∈ book.decls side, 0 < r.volume ∧
    ∃ o ∈ orders, o.orderId = r.orderId ∧ r.volume ≤ o.volume
  nodup : ((book.buyDecls ++ book.sellDecls).map Record.orderId).Nodup
  uncrossed : ∀ br sr, book.queryBuyFirst = some br → book.querySellFirst = some sr →
    br.price < sr.price

/-- A book of heaps has the invariant when the sorted book it represents is
sound and traceable. -/
theorem BookInvariant.of_matches {latest : Int} {orders : List (Order P)}
    {book sorted : StockDeclarationBook P} (matching : Matches book sorted)
    (sound : Sound latest sorted) (traceable : Traceable orders sorted) :
    BookInvariant orders book where
  buyHeap := (matching .buy).isHeap
  sellHeap := (matching .sell).isHeap
  volumes := by
    intro side r member
    have inSorted := (matching side).perm.subset member
    obtain ⟨o, inOrders, sameId, _, smaller⟩ := traceable side r inSorted
    exact ⟨(sound.positive side r inSorted).1, o, inOrders, sameId, smaller⟩
  nodup := by
    have perm := ((matching .buy).perm.append (matching .sell).perm).map Record.orderId
    rw [show book.buyDecls ++ book.sellDecls = book.decls .buy ++ book.decls .sell from rfl,
      perm.nodup_iff, List.map_append, List.nodup_append]
    refine ⟨sound.nodup .buy, sound.nodup .sell, ?_⟩
    intro id buyId other sellId
    obtain ⟨r, inBuy, rfl⟩ := List.mem_map.mp buyId
    obtain ⟨s, inSell, rfl⟩ := List.mem_map.mp sellId
    exact sound.disjoint .buy r inBuy s inSell
  uncrossed := by
    intro br sr buyFirst sellFirst
    have buyMember := (matching .buy).perm.subset (List.mem_of_mem_head? buyFirst)
    have sellMember := (matching .sell).perm.subset (List.mem_of_mem_head? sellFirst)
    exact sound.uncrossed .buy br buyMember sr sellMember

variable [Zero P]

/-- Committing any orders with increasing ids and positive `int` volumes from
the empty book returns, and the book it returns has the invariant. -/
theorem commitOrders_bookInvariant (algorithms : HeapAlgorithms) (stkCode : Int)
    (orders : List (Order P)) (increasing : orders.Pairwise fun o p => o.orderId < p.orderId)
    (volumes : ∀ o ∈ orders, 0 < o.volume ∧ o.volume ≤ intMax) :
    ∃ book trades, commitOrders algorithms stkCode StockDeclarationBook.empty orders =
        .ok (book, trades) ∧ BookInvariant orders book := by
  have feed : Feed orders := ⟨increasing, volumes⟩
  obtain ⟨book, committed, matching⟩ := commitOrders_refines_empty stkCode algorithms feed
  obtain ⟨latest, later⟩ := feed.exists_latest
  obtain ⟨bound, above, bounded⟩ := exists_bound orders latest
  exact ⟨book, _, committed, BookInvariant.of_matches matching
    ((Sound.empty latest).run stkCode feed later above bounded)
    (Traceable.run stkCode feed)⟩

/-- A buy at 5 left untouched by a sell at 7, and a market order of another
type that joins the best buy. -/
theorem commitOrders_bookInvariant_three :
    ∃ book trades, commitOrders binaryHeap 1 StockDeclarationBook.empty
        ([⟨1, 1, 1, 0, 5, 10⟩, ⟨1, 2, -1, 0, 7, 10⟩, ⟨1, 4, 1, 2, 9, 3⟩] : List (Order Int)) =
        .ok (book, trades) ∧
      BookInvariant [⟨1, 1, 1, 0, 5, 10⟩, ⟨1, 2, -1, 0, 7, 10⟩, ⟨1, 4, 1, 2, 9, 3⟩] book :=
  commitOrders_bookInvariant binaryHeap 1
    ([⟨1, 1, 1, 0, 5, 10⟩, ⟨1, 2, -1, 0, 7, 10⟩, ⟨1, 4, 1, 2, 9, 3⟩] : List (Order Int))
    (by decide) (by decide)

end PpiwTrading.Exchange
