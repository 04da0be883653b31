import PpiwTrading.Exchange.PriceTimePriority

/-!
# Conservation of volume

The volume of an order is split between the trades that name it, the record it
leaves in the book and the part cancelled when it was committed.  The balance
is set up by the commit of the order itself and kept by every later commit,
whatever record of the order it fills.
-/

namespace PpiwTrading.Exchange

open PpiwTrading.Heap
open PpiwTrading.Exchange.Reference

variable {P : Type}

/-- The volume of the trades that name an order. -/
def tradedVolume (id : Int) (trades : List (Trade P)) : Int :=
  (trades.map fun t => if t.bidId = id ∨ t.askId = id then t.volume else 0).sum

/-- The volume an order has in the book, 0 if no record names it. -/
def StockDeclarationBook.volumeOf (book : StockDeclarationBook P) (id : Int) : Int :=
  restingVolume id book.buyDecls + restingVolume id book.sellDecls

/-! ## Sums over trades and records -/

theorem tradedVolume_append (id : Int) (first second : List (Trade P)) :
    tradedVolume id (first ++ second) = tradedVolume id first + tradedVolume id second := by
  simp [tradedVolume]

/-- Trades that do not name an order do not move its volume. -/
theorem tradedVolume_eq_zero {id : Int} {trades : List (Trade P)}
    (unnamed : ∀ t ∈ trades, t.bidId ≠ id ∧ t.askId ≠ id) : tradedVolume id trades = 0 := by
  induction trades with
  | nil => rfl
  | cons t rest inductionHypothesis =>
      have absent := unnamed t List.mem_cons_self
      have remaining := inductionHypothesis fun u member =>
        unnamed u (List.mem_cons_of_mem t member)
      simp only [tradedVolume, List.map_cons, List.sum_cons] at remaining ⊢
      simp [absent.1, absent.2, remaining]

theorem restingVolume_eq_zero {id : Int} {records : List (Record P)}
    (absent : ∀ r ∈ records, r.orderId ≠ id) : restingVolume id records = 0 := by
  apply List.sum_eq_zero
  intro volume member
  obtain ⟨r, inRecords, rfl⟩ := List.mem_map.mp member
  exact if_neg (absent r inRecords)

theorem restingVolume_perm {id : Int} {first second : List (Record P)}
    (perm : first.Perm second) : restingVolume id first = restingVolume id second :=
  (perm.map _).sum_eq

theorem StockDeclarationBook.volumeOf_eq (book : StockDeclarationBook P) (id : Int)
    (side : Side) :
    book.volumeOf id =
      restingVolume id (book.decls side) + restingVolume id (book.decls side.other) := by
  cases side with
  | buy => rfl
  | sell => exact Int.add_comm _ _

section Fills

variable (stkCode : Int) (order : Order P) (side : Side) (fills : List (Record P × Int))

/-- An order is in every trade of its own commit. -/
theorem tradedVolume_fillTrades_self :
    tradedVolume order.orderId (fillTrades stkCode order side fills) =
      (fills.map Prod.snd).sum := by
  induction fills with
  | nil => rfl
  | cons fill rest inductionHypothesis =>
      simp only [tradedVolume, fillTrades, List.map_cons, List.sum_cons, List.map_map]
        at inductionHypothesis ⊢
      rw [inductionHypothesis]
      cases side <;> simp [newTrade]

/-- Another order is in a trade exactly when its record was filled. -/
theorem tradedVolume_fillTrades_other {id : Int} (different : order.orderId ≠ id) :
    tradedVolume id (fillTrades stkCode order side fills) = filledVolume id fills := by
  induction fills with
  | nil => rfl
  | cons fill rest inductionHypothesis =>
      simp only [tradedVolume, fillTrades, filledVolume, List.map_cons, List.sum_cons,
        List.map_map] at inductionHypothesis ⊢
      rw [inductionHypothesis]
      cases side <;> simp [newTrade, different]

end Fills

theorem Matches.volumeOf [LinearOrder P] {book sorted : StockDeclarationBook P}
    (matching : Matches book sorted) (id : Int) : book.volumeOf id = sorted.volumeOf id :=
  congrArg₂ (· + ·) (restingVolume_perm (matching .buy).perm)
    (restingVolume_perm (matching .sell).perm)

/-! ## The balance of one order -/

/-- The balance of an order of `side`: where its volume is, and that only the
party and the records of its side name it. -/
structure Balanced (order : Order P) (side : Side) (cancelled : Int)
    (book : StockDeclarationBook P) (trades : List (Trade P)) : Prop where
  volume : order.volume =
    tradedVolume order.orderId trades + book.volumeOf order.orderId + cancelled
  absent : ∀ r ∈ book.decls side.other, r.orderId ≠ order.orderId
  party : ∀ t ∈ trades, side.other.party t ≠ order.orderId

variable [LinearOrder P] [Zero P] (stkCode : Int)

variable {order : Order P} {side : Side} {book : StockDeclarationBook P}
  {trades : List (Trade P)}

/-- A later commit moves volume only between the trades and the book. -/
theorem volume_commit (book : StockDeclarationBook P) {next : Order P}
    (different : next.orderId ≠ order.orderId)
    (nonnegative : 0 ≤ next.volume) :
    tradedVolume order.orderId (commit stkCode book next).trades +
        (commit stkCode book next).book.volumeOf order.orderId =
      book.volumeOf order.orderId := by
  rcases commit_cases stkCode book next nonnegative with
    refused | ⟨side, plan, fills, left, _, _, settles⟩
  · simp [refused, tradedVolume]
  · have own : restingVolume order.orderId ((commit stkCode book next).book.decls side) =
        restingVolume order.orderId (book.decls side) := by
      rcases settles.own with ⟨same, _⟩ | ⟨price, _, _, _, inserted⟩
      · rw [same]
      · rw [inserted, restingVolume_perm (insertSorted_perm side _ _)]
        simp [restingVolume, different]
    have filled := settles.filled.restingVolume_eq order.orderId
    have named := tradedVolume_fillTrades_other stkCode next side.other fills different
    rw [StockDeclarationBook.volumeOf_eq _ order.orderId side,
      StockDeclarationBook.volumeOf_eq book order.orderId side, settles.trades, named, own]
    omega

/-- A later commit keeps the balance. -/
theorem Balanced.commit {next : Order P} {cancelled latest : Int}
    (balanced : Balanced order side cancelled book trades) (sound : Sound latest book)
    (different : next.orderId ≠ order.orderId) (positive : 0 < next.volume) :
    Balanced order side cancelled (commit stkCode book next).book
      (trades ++ (commit stkCode book next).trades) where
  volume := by
    have moved := volume_commit stkCode book different positive.le
    have volume := balanced.volume
    rw [tradedVolume_append]
    omega
  absent := by
    intro s member
    rcases commit_origin stkCode sound positive side.other s member with
      ⟨r, inBook, sameId, _⟩ | ⟨_, sameId, _⟩
    · rw [← sameId]
      exact balanced.absent r inBook
    · rwa [sameId]
  party := by
    intro t member
    rcases List.mem_append.mp member with old | new
    · exact balanced.party t old
    · obtain ⟨nextSide, _, r, volume, _, _, inBook, _, rfl, _⟩ :=
        commit_trade stkCode sound positive t new
      have parties := newTrade_party stkCode next nextSide.other r r.price volume
      rw [Side.other_other] at parties
      rcases Side.eq_or_eq_other nextSide side with rfl | rfl
      · rw [parties.1]
        exact balanced.absent r inBook
      · rw [parties.2]
        exact different

/-- The commit of the order itself sets up the balance. -/
theorem Balanced.start {latest : Int} (sound : Sound latest book)
    (fresh : latest < order.orderId) (positive : 0 < order.volume)
    (sided : sideOf order = some side)
    (unnamed : ∀ t ∈ trades, t.bidId ≠ order.orderId ∧ t.askId ≠ order.orderId) :
    Balanced order side (Reference.commit stkCode book order).cancelled
      (Reference.commit stkCode book order).book
      (trades ++ (Reference.commit stkCode book order).trades) := by
  have older : ∀ any, ∀ r ∈ book.decls any, r.orderId ≠ order.orderId := by
    intro any r member
    have recent := sound.recent any r member
    omega
  have absent : ∀ s ∈ (Reference.commit stkCode book order).book.decls side.other,
      s.orderId ≠ order.orderId := by
    intro s member
    rcases commit_origin stkCode sound positive side.other s member with
      ⟨r, inBook, sameId, _⟩ | ⟨otherSide, _⟩
    · rw [← sameId]
      exact older side.other r inBook
    · rw [sided] at otherSide
      cases side <;> contradiction
  refine ⟨?_, absent, ?_⟩
  · have own := restingVolume_eq_zero (older side)
    have opposite := restingVolume_eq_zero absent
    rw [tradedVolume_append, tradedVolume_eq_zero unnamed,
      StockDeclarationBook.volumeOf_eq _ order.orderId side, opposite]
    rcases commit_cases stkCode book order positive.le with
      refused | ⟨planSide, plan, fills, left, sided', _, settles⟩
    · simp [refused, own, tradedVolume]
    · obtain rfl : planSide = side := by
        rw [sided] at sided'
        exact (Option.some.inj sided').symm
      have balance := settles.filled.balance
      rw [settles.trades, tradedVolume_fillTrades_self]
      rcases settles.own with ⟨same, cancelled, _⟩ | ⟨price, _, _, cancelled, inserted⟩
      · rw [same, own, cancelled]
        omega
      · rw [inserted, restingVolume_perm (insertSorted_perm planSide _ _), cancelled]
        simp only [restingVolume, List.map_cons, List.sum_cons] at own ⊢
        simp only [if_true]
        omega
  · intro t member
    rcases List.mem_append.mp member with old | new
    · cases side with
      | buy => exact (unnamed t old).2
      | sell => exact (unnamed t old).1
    · obtain ⟨tradeSide, _, r, volume, sided', _, inBook, _, rfl, _⟩ :=
        commit_trade stkCode sound positive t new
      obtain rfl : tradeSide = side := by
        rw [sided] at sided'
        exact (Option.some.inj sided').symm
      rw [(newTrade_party stkCode order tradeSide.other r r.price volume).1]
      exact older tradeSide.other r inBook

/-! ## Whole runs -/

/-- The trades of a run name only orders of the run. -/
theorem run_trades_named {orders : List (Order P)} (feed : Feed orders) {bound : Int}
    (bounded : ∀ o ∈ orders, o.orderId < bound) :
    ∀ t ∈ (Reference.run stkCode StockDeclarationBook.empty orders).2,
      t.bidId ≠ bound ∧ t.askId ≠ bound := by
  refine Reference.run_empty_invariant
    (motive := fun _ trades => ∀ t ∈ trades, t.bidId ≠ bound ∧ t.askId ≠ bound)
    stkCode ?_ feed (by simp)
  intro latest book trades next member sound fresh positive named t inTrades
  rcases List.mem_append.mp inTrades with old | new
  · exact named t old
  · obtain ⟨side, _, r, volume, _, _, inBook, _, rfl, _⟩ :=
      commit_trade stkCode sound positive t new
    have recent := sound.recent side.other r inBook
    have below := bounded next member
    cases side <;> simp only [Side.other, newTrade] <;> omega

/-- Every trade of a run has a positive volume. -/
theorem run_trades_positive {orders : List (Order P)} (feed : Feed orders) :
    ∀ t ∈ (Reference.run stkCode StockDeclarationBook.empty orders).2, 0 < t.volume := by
  refine Reference.run_empty_invariant
    (motive := fun _ trades => ∀ t ∈ trades, 0 < t.volume) stkCode ?_ feed (by simp)
  intro latest book trades next member sound fresh positive earlier t inTrades
  rcases List.mem_append.mp inTrades with old | new
  · exact earlier t old
  · obtain ⟨side, _, r, volume, _, _, _, positiveVolume, rfl, _⟩ :=
      commit_trade stkCode sound positive t new
    cases side <;> exact positiveVolume

/-- Every trade of the engine has a positive volume. -/
theorem commitOrders_trades_positive {stkCode : Int} {algorithms : HeapAlgorithms}
    {orders : List (Order P)} (feed : Feed orders) {book : StockDeclarationBook P}
    {trades : List (Trade P)}
    (committed : commitOrders algorithms stkCode StockDeclarationBook.empty orders =
      .ok (book, trades)) : ∀ t ∈ trades, 0 < t.volume := by
  obtain ⟨final, reference, _⟩ := commitOrders_refines_empty stkCode algorithms feed
  rw [reference] at committed
  cases committed
  exact run_trades_positive stkCode feed

/-- At the end of a run every order of a side is balanced. -/
theorem Balanced.run {earlier later : List (Order P)}
    (feed : Feed (earlier ++ order :: later)) (sided : sideOf order = some side) :
    Balanced order side
      (Reference.commit stkCode
        (Reference.run stkCode StockDeclarationBook.empty earlier).1 order).cancelled
      (Reference.run stkCode StockDeclarationBook.empty (earlier ++ order :: later)).1
      (Reference.run stkCode StockDeclarationBook.empty (earlier ++ order :: later)).2 := by
  have named := run_trades_named stkCode feed.append_left fun o member =>
    (List.pairwise_append.mp feed.increasing).2.2 o member order List.mem_cons_self
  refine Reference.run_split_invariant stkCode feed
    (Balanced.start stkCode (sound_split stkCode feed) (by omega)
      (feed.volumes order (by simp)).1 sided named) ?_
  intro latest book trades next sound different positive balanced
  exact balanced.commit stkCode sound different positive

/-! ## What a commit cancels -/

omit [Zero P] in
/-- A plan that lets the remainder rest cancels nothing. -/
theorem settles_cancelled {plan : Plan P} {settled : Settled P} {fills : List (Record P × Int)}
    {left : Int} (settles : Settles stkCode book side order plan settled fills left)
    (rests : plan.restAt ≠ none) : settled.cancelled = 0 := by
  rcases settles.own with ⟨_, cancelled, used⟩ | ⟨_, _, _, cancelled, _⟩
  · rw [cancelled, used rests]
  · exact cancelled

/-- A limit order cancels nothing. -/
theorem commit_cancelled_limit (sided : sideOf order = some side) (limit : order.type = 0)
    (nonnegative : 0 ≤ order.volume) : (commit stkCode book order).cancelled = 0 := by
  obtain ⟨plan, planned, rests⟩ : ∃ plan, planOf book side order = some plan ∧
      plan.restAt ≠ none := by
    simp [planOf, limit]
  obtain ⟨fills, left, settles⟩ := settle_settles stkCode book side order plan nonnegative
  have cancelled := settles_cancelled stkCode settles rests
  simpa [commit, sided, planned] using cancelled

/-- Orders of types 1 and 2 cancel nothing or everything. -/
theorem commit_cancelled_best (best : order.type = 1 ∨ order.type = 2)
    (nonnegative : 0 ≤ order.volume) :
    (commit stkCode book order).cancelled = 0 ∨
      (commit stkCode book order).cancelled = order.volume := by
  rcases commit_cases stkCode book order nonnegative with
    refused | ⟨side, plan, fills, left, _, planned, settles⟩
  · exact Or.inr (by rw [refused])
  · refine Or.inl (settles_cancelled stkCode settles ?_)
    rcases best with type | type
    · simp only [planOf, type] at planned
      obtain ⟨_, _, rfl⟩ := Option.map_eq_some_iff.mp (by simpa using planned)
      simp
    · simp only [planOf, type] at planned
      obtain ⟨_, _, rfl⟩ := Option.map_eq_some_iff.mp (by simpa using planned)
      simp

/-- The commit of an order without a known type or direction leaves the book and the
trades alone. -/
theorem commitOrder_refused (algorithms : HeapAlgorithms) (book : StockDeclarationBook P)
    (unknown : ¬ (0 ≤ order.type ∧ order.type ≤ 5 ∧
      (order.direction = 1 ∨ order.direction = -1))) :
    ∃ ret, commitOrder algorithms stkCode book order = .ok ⟨book, [], ret, order.volume⟩ := by
  obtain ⟨ret, dispatched⟩ := dispatchOrder_refused algorithms stkCode book unknown
  simp only [commitOrder, dispatched, ok_bind]
  split
  · exact ⟨0, rfl⟩
  · exact ⟨ret, rfl⟩

variable (algorithms : HeapAlgorithms)

/-- In a run from the empty book the volume of every matchable order is what
its trades, its record in the book and its cancellation add up to; an order is
a party only on its own side, every trade has a positive volume, and an order
that is not matchable changes nothing. -/
theorem commitOrders_conserves (orders : List (Order P))
    (increasing : orders.Pairwise fun o p => o.orderId < p.orderId)
    (volumes : ∀ o ∈ orders, 0 < o.volume ∧ o.volume ≤ intMax) :
    ∃ final trades, commitOrders algorithms stkCode StockDeclarationBook.empty orders =
        .ok (final, trades) ∧
      (∀ t ∈ trades, 0 < t.volume) ∧
      ∀ earlier order later, orders = earlier ++ order :: later →
        ∃ book earlierTrades outcome,
          commitOrders algorithms stkCode StockDeclarationBook.empty earlier =
            .ok (book, earlierTrades) ∧
          commitOrder algorithms stkCode book order = .ok outcome ∧
          (0 ≤ order.type ∧ order.type ≤ 5 ∧ (order.direction = 1 ∨ order.direction = -1) →
            order.volume = tradedVolume order.orderId trades + final.volumeOf order.orderId +
              outcome.cancelled ∧
            (order.type = 0 → outcome.cancelled = 0) ∧
            (order.type = 1 ∨ order.type = 2 →
              outcome.cancelled = 0 ∨ outcome.cancelled = order.volume) ∧
            (order.direction = 1 → ∀ t ∈ trades, t.askId ≠ order.orderId) ∧
            (order.direction = -1 → ∀ t ∈ trades, t.bidId ≠ order.orderId)) ∧
          (¬ (0 ≤ order.type ∧ order.type ≤ 5 ∧
              (order.direction = 1 ∨ order.direction = -1)) →
            outcome.book = book ∧ outcome.trades = []) := by
  have feed : Feed orders := ⟨increasing, volumes⟩
  obtain ⟨final, committed, matching⟩ := commitOrders_refines_empty stkCode algorithms feed
  refine ⟨final, _, committed, run_trades_positive stkCode feed, ?_⟩
  rintro earlier order later rfl
  obtain ⟨book, reached, _, outcome, returned, _, _, cancelled⟩ :=
    commitOrders_split stkCode algorithms feed
  refine ⟨book, _, outcome, reached, returned, ?_, ?_⟩
  · rintro ⟨_, _, directed⟩
    obtain ⟨side, sided⟩ : ∃ side, sideOf order = some side := by
      rcases directed with buy | sell
      · exact ⟨.buy, by simp [sideOf, buy]⟩
      · exact ⟨.sell, by simp [sideOf, sell]⟩
    have nonnegative := (feed.volumes order (by simp)).1.le
    have balanced := Balanced.run stkCode feed sided
    rw [cancelled, matching.volumeOf order.orderId]
    refine ⟨balanced.volume, fun limit => commit_cancelled_limit stkCode sided limit nonnegative,
      fun best => commit_cancelled_best stkCode best nonnegative, ?_, ?_⟩
    · intro buy
      obtain rfl : side = .buy := by simpa [sideOf, buy] using sided.symm
      exact balanced.party
    · intro sell
      obtain rfl : side = .sell := by simpa [sideOf, sell] using sided.symm
      exact balanced.party
  · intro unknown
    obtain ⟨ret, refused⟩ := commitOrder_refused stkCode algorithms book unknown
    rw [refused] at returned
    cases returned
    exact ⟨rfl, rfl⟩

/-- A buy of type 4 over 25 takes the 10 on offer and cancels the remaining 15. -/
theorem commitOrders_conserves_cancelling :
    ∃ final trades book earlierTrades outcome,
      commitOrders binaryHeap 1 StockDeclarationBook.empty
        ([⟨1, 1, -1, 0, 5, 10⟩, ⟨1, 2, 1, 4, 0, 25⟩] : List (Order Int)) = .ok (final, trades) ∧
      (∀ t ∈ trades, 0 < t.volume) ∧
      commitOrders binaryHeap 1 StockDeclarationBook.empty
        ([⟨1, 1, -1, 0, 5, 10⟩] : List (Order Int)) = .ok (book, earlierTrades) ∧
      commitOrder binaryHeap 1 book ⟨1, 2, 1, 4, 0, 25⟩ = .ok outcome ∧
      outcome.cancelled = 15 ∧ tradedVolume 2 trades = 10 ∧
      25 = tradedVolume 2 trades + final.volumeOf 2 + outcome.cancelled := by
  obtain ⟨final, trades, committed, positive, balance⟩ := commitOrders_conserves 1 binaryHeap
    ([⟨1, 1, -1, 0, 5, 10⟩, ⟨1, 2, 1, 4, 0, 25⟩] : List (Order Int)) (by decide) (by decide)
  obtain ⟨book, earlierTrades, outcome, reached, returned, matchable, _⟩ := balance [_] _ [] rfl
  have cancels : ((commitOrders binaryHeap 1 StockDeclarationBook.empty
      ([⟨1, 1, -1, 0, 5, 10⟩] : List (Order Int))).bind fun earlier =>
        (commitOrder binaryHeap 1 earlier.1 ⟨1, 2, 1, 4, 0, 25⟩).map Outcome.cancelled) =
          .ok 15 := by rfl
  rw [reached, Except.bind, returned, Except.map] at cancels
  have trades₂ : ((commitOrders binaryHeap 1 StockDeclarationBook.empty
      ([⟨1, 1, -1, 0, 5, 10⟩, ⟨1, 2, 1, 4, 0, 25⟩] : List (Order Int))).map fun later =>
        tradedVolume 2 later.2) = .ok 10 := by rfl
  rw [committed, Except.map] at trades₂
  exact ⟨final, trades, book, earlierTrades, outcome, committed, positive, reached, returned,
    Except.ok.inj cancels, Except.ok.inj trades₂, (matchable (by decide)).1⟩

end PpiwTrading.Exchange
