import PpiwTrading.Exchange.Refinement
import PpiwTrading.Heap.Sift

/-!
# Price-time priority over whole runs

Orders committed with increasing ids and positive `int` volumes keep the heaps
of the book matched with the sorted book of the reference engine.  A run from
the empty book therefore returns, emits the trades of the reference engine and
leaves the same records resting.
-/

namespace PpiwTrading.Exchange

open PpiwTrading.Heap
open PpiwTrading.Exchange.Reference

variable {P : Type} [LinearOrder P]

/-- A sequence of orders as the exchange commits it: increasing ids and
positive `int` volumes. -/
structure Feed (orders : List (Order P)) : Prop where
  increasing : orders.Pairwise fun o p => o.orderId < p.orderId
  volumes : ∀ o ∈ orders, 0 < o.volume ∧ o.volume ≤ intMax

omit [LinearOrder P] in
theorem Feed.tail {order : Order P} {rest : List (Order P)} (feed : Feed (order :: rest)) :
    Feed rest :=
  ⟨(List.pairwise_cons.mp feed.increasing).2,
    fun o member => feed.volumes o (List.mem_cons_of_mem order member)⟩

omit [LinearOrder P] in
theorem Feed.append_left {first second : List (Order P)} (feed : Feed (first ++ second)) :
    Feed first :=
  ⟨(List.pairwise_append.mp feed.increasing).1,
    fun o member => feed.volumes o (List.mem_append_left second member)⟩

omit [LinearOrder P] in
/-- Every feed starts above some id. -/
theorem Feed.exists_latest {orders : List (Order P)} (feed : Feed orders) :
    ∃ latest, ∀ o ∈ orders, latest < o.orderId := by
  cases orders with
  | nil => exact ⟨0, by simp⟩
  | cons first rest =>
      refine ⟨first.orderId - 1, ?_⟩
      intro o member
      rcases List.mem_cons.mp member with rfl | later
      · omega
      · have increasing := (List.pairwise_cons.mp feed.increasing).1 o later
        omega

omit [LinearOrder P] in
/-- Every list of orders stays below some id. -/
theorem exists_bound (orders : List (Order P)) (latest : Int) :
    ∃ bound, latest ≤ bound ∧ ∀ o ∈ orders, o.orderId ≤ bound := by
  induction orders with
  | nil => exact ⟨latest, le_refl latest, by simp⟩
  | cons order rest inductionHypothesis =>
      obtain ⟨bound, above, bounded⟩ := inductionHypothesis
      refine ⟨max order.orderId bound, le_max_of_le_right above, ?_⟩
      intro o member
      rcases List.mem_cons.mp member with rfl | later
      · exact le_max_left o.orderId bound
      · exact le_max_of_le_right (bounded o later)

variable [Zero P] (stkCode : Int)

theorem Reference.run_append (book : StockDeclarationBook P) (first second : List (Order P)) :
    Reference.run stkCode book (first ++ second) =
      ((Reference.run stkCode (Reference.run stkCode book first).1 second).1,
        (Reference.run stkCode book first).2 ++
          (Reference.run stkCode (Reference.run stkCode book first).1 second).2) := by
  induction first generalizing book with
  | nil => rfl
  | cons order rest inductionHypothesis =>
      simp [Reference.run, inductionHypothesis]

/-- Every trade of a run is a trade of one of its commits. -/
theorem Reference.exists_split_of_mem_run (book : StockDeclarationBook P)
    {orders : List (Order P)} {t : Trade P}
    (member : t ∈ (Reference.run stkCode book orders).2) :
    ∃ earlier order later, orders = earlier ++ order :: later ∧
      t ∈ (commit stkCode (Reference.run stkCode book earlier).1 order).trades := by
  induction orders generalizing book with
  | nil => contradiction
  | cons first rest inductionHypothesis =>
      rcases List.mem_append.mp member with now | afterwards
      · exact ⟨[], first, rest, rfl, now⟩
      · obtain ⟨earlier, order, later, split, inTrades⟩ := inductionHypothesis _ afterwards
        exact ⟨first :: earlier, order, later, by rw [split]; rfl, inTrades⟩

/-- A property of the book and of the trades so far that every commit of an
order of the feed keeps holds after the whole feed. -/
theorem Reference.run_invariant {motive : StockDeclarationBook P → List (Trade P) → Prop}
    {orders : List (Order P)}
    (step : ∀ latest book trades, ∀ order ∈ orders, Sound latest book →
      latest < order.orderId → 0 < order.volume → motive book trades →
      motive (commit stkCode book order).book (trades ++ (commit stkCode book order).trades))
    {latest : Int} {book : StockDeclarationBook P} {trades : List (Trade P)}
    (sound : Sound latest book) (feed : Feed orders)
    (later : ∀ o ∈ orders, latest < o.orderId) (start : motive book trades) :
    motive (Reference.run stkCode book orders).1
      (trades ++ (Reference.run stkCode book orders).2) := by
  induction orders generalizing latest book trades with
  | nil => simpa [Reference.run] using start
  | cons order rest inductionHypothesis =>
      have volume := feed.volumes order List.mem_cons_self
      have fresh := later order List.mem_cons_self
      have continued := inductionHypothesis
        (fun latest book trades o member =>
          step latest book trades o (List.mem_cons_of_mem order member))
        (sound.commit stkCode fresh volume.1 volume.2) feed.tail
        (List.pairwise_cons.mp feed.increasing).1
        (step latest book trades order List.mem_cons_self sound fresh volume.1 start)
      simpa [Reference.run] using continued

/-- The same for a run from the empty book. -/
theorem Reference.run_empty_invariant
    {motive : StockDeclarationBook P → List (Trade P) → Prop} {orders : List (Order P)}
    (step : ∀ latest book trades, ∀ order ∈ orders, Sound latest book →
      latest < order.orderId → 0 < order.volume → motive book trades →
      motive (commit stkCode book order).book (trades ++ (commit stkCode book order).trades))
    (feed : Feed orders) (start : motive StockDeclarationBook.empty []) :
    motive (Reference.run stkCode StockDeclarationBook.empty orders).1
      (Reference.run stkCode StockDeclarationBook.empty orders).2 := by
  obtain ⟨latest, later⟩ := feed.exists_latest
  simpa using Reference.run_invariant stkCode step (Sound.empty latest) feed later start

/-- A whole run of the reference engine keeps the book sound. -/
theorem Reference.Sound.run {latest : Int} {book : StockDeclarationBook P}
    (sound : Sound latest book) {orders : List (Order P)} (feed : Feed orders)
    (later : ∀ o ∈ orders, latest < o.orderId) {bound : Int} (le : latest ≤ bound)
    (bounded : ∀ o ∈ orders, o.orderId ≤ bound) :
    Sound bound (Reference.run stkCode book orders).1 := by
  induction orders generalizing latest book with
  | nil => exact sound.mono le
  | cons order rest inductionHypothesis =>
      have volume := feed.volumes order List.mem_cons_self
      exact inductionHypothesis
        (sound.commit stkCode (later order List.mem_cons_self) volume.1 volume.2) feed.tail
        (List.pairwise_cons.mp feed.increasing).1 (bounded order List.mem_cons_self)
        fun o member => bounded o (List.mem_cons_of_mem order member)

/-- The book an order of a feed is committed on is sound and has only older ids. -/
theorem Reference.sound_split {earlier later : List (Order P)} {order : Order P}
    (feed : Feed (earlier ++ order :: later)) :
    Sound (order.orderId - 1) (Reference.run stkCode StockDeclarationBook.empty earlier).1 := by
  obtain ⟨latest, start⟩ := feed.exists_latest
  have startOrder := start order (by simp)
  refine (Sound.empty latest).run stkCode feed.append_left
    (fun o member => start o (List.mem_append_left _ member)) (by omega) ?_
  intro o member
  have increasing := (List.pairwise_append.mp feed.increasing).2.2 o member order (by simp)
  omega

/-- A property that the commit of one order sets up and that every later commit
keeps holds at the end of the run. -/
theorem Reference.run_split_invariant
    {motive : StockDeclarationBook P → List (Trade P) → Prop} {earlier later : List (Order P)}
    {order : Order P} (feed : Feed (earlier ++ order :: later))
    (start : motive
      (commit stkCode (Reference.run stkCode StockDeclarationBook.empty earlier).1 order).book
      ((Reference.run stkCode StockDeclarationBook.empty earlier).2 ++
        (commit stkCode
          (Reference.run stkCode StockDeclarationBook.empty earlier).1 order).trades))
    (step : ∀ latest book trades next, Sound latest book → next.orderId ≠ order.orderId →
      0 < next.volume → motive book trades →
      motive (commit stkCode book next).book (trades ++ (commit stkCode book next).trades)) :
    motive (Reference.run stkCode StockDeclarationBook.empty (earlier ++ order :: later)).1
      (Reference.run stkCode StockDeclarationBook.empty (earlier ++ order :: later)).2 := by
  have volume := feed.volumes order (by simp)
  have ordered := List.pairwise_cons.mp (List.pairwise_append.mp feed.increasing).2.1
  have laterFeed : Feed later := ⟨ordered.2, fun o member => feed.volumes o (by simp [member])⟩
  have sound := (sound_split stkCode feed).commit stkCode (by omega) volume.1 volume.2
  have continued := Reference.run_invariant stkCode
    (fun latest book trades next member sound _ positive =>
      step latest book trades next sound (ordered.1 next member).ne' positive)
    sound laterFeed ordered.1 start
  rw [Reference.run_append]
  simpa [Reference.run] using continued

omit [Zero P] in
theorem Ready.of_sound {latest : Int} {book sorted : StockDeclarationBook P} {order : Order P}
    (matching : Matches book sorted) (sound : Sound latest sorted)
    (fresh : latest < order.orderId) (volume : 0 < order.volume ∧ order.volume ≤ intMax) :
    Ready book sorted order where
  matching := matching
  positive := sound.positive
  fresh := by
    intro side r member
    have older := sound.recent side r member
    omega
  volumePositive := volume.1
  volumeSmall := volume.2

variable (algorithms : HeapAlgorithms)

/-- A whole run of the model follows the reference engine. -/
theorem commitOrders_refines {latest : Int} {book sorted : StockDeclarationBook P}
    (matching : Matches book sorted) (sound : Sound latest sorted) {orders : List (Order P)}
    (feed : Feed orders) (later : ∀ o ∈ orders, latest < o.orderId) :
    ∃ final, commitOrders algorithms stkCode book orders =
        .ok (final, (Reference.run stkCode sorted orders).2) ∧
      Matches final (Reference.run stkCode sorted orders).1 := by
  induction orders generalizing latest book sorted with
  | nil => exact ⟨book, rfl, matching⟩
  | cons order rest inductionHypothesis =>
      have volume := feed.volumes order List.mem_cons_self
      have fresh := later order List.mem_cons_self
      obtain ⟨outcome, committed, matching', trades, _⟩ := commitOrder_agrees algorithms stkCode
        (Ready.of_sound matching sound fresh volume)
      obtain ⟨final, continued, matching''⟩ := inductionHypothesis matching'
        (sound.commit stkCode fresh volume.1 volume.2) feed.tail
        (List.pairwise_cons.mp feed.increasing).1
      refine ⟨final, ?_, matching''⟩
      simp [commitOrders, committed, continued, trades, Reference.run]

/-- A run of the model from the empty book follows the reference engine. -/
theorem commitOrders_refines_empty {orders : List (Order P)} (feed : Feed orders) :
    ∃ final, commitOrders algorithms stkCode StockDeclarationBook.empty orders =
        .ok (final, (Reference.run stkCode StockDeclarationBook.empty orders).2) ∧
      Matches final (Reference.run stkCode StockDeclarationBook.empty orders).1 := by
  obtain ⟨latest, start⟩ := feed.exists_latest
  exact commitOrders_refines stkCode algorithms Matches.empty (Sound.empty latest) feed start

/-- A run from the empty book, taken apart at the commit of one of its orders. -/
theorem commitOrders_split {earlier later : List (Order P)} {order : Order P}
    (feed : Feed (earlier ++ order :: later)) :
    ∃ book, commitOrders algorithms stkCode StockDeclarationBook.empty earlier =
        .ok (book, (Reference.run stkCode StockDeclarationBook.empty earlier).2) ∧
      Matches book (Reference.run stkCode StockDeclarationBook.empty earlier).1 ∧
      Agrees (commitOrder algorithms stkCode book order)
        (commit stkCode (Reference.run stkCode StockDeclarationBook.empty earlier).1 order) := by
  obtain ⟨book, committed, matching⟩ :=
    commitOrders_refines_empty stkCode algorithms feed.append_left
  exact ⟨book, committed, matching, commitOrder_agrees algorithms stkCode
    (Ready.of_sound matching (sound_split stkCode feed) (by omega)
      (feed.volumes order (by simp)))⟩

/-- The matching engine has price-time priority: a run from the empty book
emits, in order, the trades of the reference engine and leaves exactly its
records resting, and the lists of the reference engine are sorted by best price
and then by smallest order id. -/
theorem commitOrders_eq_reference (orders : List (Order P))
    (increasing : orders.Pairwise fun o p => o.orderId < p.orderId)
    (volumes : ∀ o ∈ orders, 0 < o.volume ∧ o.volume ≤ intMax) :
    ∃ final, commitOrders algorithms stkCode StockDeclarationBook.empty orders =
        .ok (final, (Reference.run stkCode StockDeclarationBook.empty orders).2) ∧
      ∀ side,
        (final.decls side).Perm
          ((Reference.run stkCode StockDeclarationBook.empty orders).1.decls side) ∧
        Sorted side ((Reference.run stkCode StockDeclarationBook.empty orders).1.decls side) := by
  have feed : Feed orders := ⟨increasing, volumes⟩
  obtain ⟨final, committed, matching⟩ := commitOrders_refines_empty stkCode algorithms feed
  refine ⟨final, committed, fun side => ⟨(matching side).perm, ?_⟩⟩
  have sorted := (matching side).sorted
  simpa only [Sorted, before_eq_lt] using sorted

/-- A sell at 5, a better sell at 4 and a buy at 5 that takes both and rests. -/
theorem commitOrders_eq_reference_three :
    ∃ final, commitOrders binaryHeap 1 StockDeclarationBook.empty
          ([⟨1, 1, -1, 0, 5, 10⟩, ⟨1, 2, -1, 0, 4, 10⟩, ⟨1, 3, 1, 0, 5, 25⟩] :
            List (Order Int)) =
        .ok (final, [⟨1, 3, 2, 4, 10⟩, ⟨1, 3, 1, 5, 10⟩]) ∧
      final.buyDecls.Perm [⟨3, 5, 5⟩] ∧ final.sellDecls.Perm [] := by
  obtain ⟨final, committed, sides⟩ := commitOrders_eq_reference 1 binaryHeap
    ([⟨1, 1, -1, 0, 5, 10⟩, ⟨1, 2, -1, 0, 4, 10⟩, ⟨1, 3, 1, 0, 5, 25⟩] : List (Order Int))
    (by decide) (by decide)
  exact ⟨final, committed, (sides .buy).1, (sides .sell).1⟩

end PpiwTrading.Exchange
