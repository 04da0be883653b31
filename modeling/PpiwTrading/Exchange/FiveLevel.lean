import PpiwTrading.Exchange.Lockstep

/-!
# The levels of type 3

Type 3 counts levels while it pops the heap: a record whose price differs from
the previous one opens a level, and the sixth level ends the loop.  The previous
price starts at 0, so a side whose best price is 0 gives its first level away.

On a sorted side the loop is type 4 on the records it may reach, and these are
the records with few enough distinct better prices on their side.
-/

namespace PpiwTrading.Exchange

open PpiwTrading.Heap
open PpiwTrading.Exchange.Reference

variable {P : Type}

/-! ## The part of a list that a test lets through -/

/-- The records that a test accepts one after another, and the records from the
first that it does not accept. -/
def cut (test : Levels P → Record P → Option (Levels P)) :
    Levels P → List (Record P) → List (Record P) × List (Record P)
  | _, [] => ([], [])
  | levels, r :: rest =>
      match test levels r with
      | none => ([], r :: rest)
      | some levels' => (r :: (cut test levels' rest).1, (cut test levels' rest).2)

theorem cut_append (test : Levels P → Record P → Option (Levels P)) (levels : Levels P)
    (sorted : List (Record P)) :
    (cut test levels sorted).1 ++ (cut test levels sorted).2 = sorted := by
  induction sorted generalizing levels with
  | nil => rfl
  | cons r rest inductionHypothesis =>
      rw [cut]
      cases test levels r with
      | none => rfl
      | some levels' => rw [List.cons_append, inductionHypothesis]

/-- A sweep with a test is a sweep without one of the records that the test lets
through. -/
theorem sweep_eq_sweep_cut (stkCode : Int) (order : Order P) (side : Side)
    (test : Levels P → Record P → Option (Levels P)) (levels unused : Levels P) (left : Int)
    (sorted : List (Record P)) :
    sweep stkCode order side test levels left sorted =
      { sweep stkCode order side (fun levels _ => some levels) unused left
          (cut test levels sorted).1 with
        rest := (sweep stkCode order side (fun levels _ => some levels) unused left
          (cut test levels sorted).1).rest ++ (cut test levels sorted).2 } := by
  induction sorted generalizing levels left with
  | nil => rfl
  | cons r rest inductionHypothesis =>
      by_cases done : left = 0
      · subst done
        rw [sweep_zero, sweep_zero, cut_append]
      · rw [sweep, if_neg done, cut]
        cases test levels r with
        | none => rfl
        | some levels' =>
            rw [sweep, if_neg done]
            by_cases smaller : left < r.volume
            · simp [smaller, cut_append]
            · simp [smaller, inductionHypothesis levels' (left - r.volume)]

/-- What follows a filtered prefix fails the filter. -/
theorem eq_filter_not_of_append {α : Type} {accepts : α → Bool} {list inside outside : List α}
    (split : inside ++ outside = list) (filtered : inside = list.filter accepts) :
    outside = list.filter fun a => !accepts a := by
  subst split
  have accepted : ∀ a ∈ inside, accepts a = true := by
    intro a member
    rw [filtered] at member
    exact (List.mem_filter.mp member).2
  rw [List.filter_append, List.filter_eq_self.mpr accepted, List.self_eq_append_right,
    List.filter_eq_nil_iff] at filtered
  rw [List.filter_append, List.filter_eq_nil_iff.mpr, List.nil_append, List.filter_eq_self.mpr]
  · simpa using filtered
  · simpa using accepted

/-- Filtering away the part of a list that fails the filter. -/
theorem perm_filter_of_append {α : Type} {accepts : α → Bool} {list rejected accepted : List α}
    (perm : list.Perm (rejected ++ accepted.filter accepts))
    (rejects : ∀ a ∈ rejected, ¬ accepts a = true) :
    (list.filter accepts).Perm (accepted.filter accepts) := by
  have filtered := perm.filter accepts
  rw [List.filter_append, List.filter_eq_nil_iff.mpr rejects, List.nil_append,
    List.filter_filter] at filtered
  simpa only [Bool.and_self] using filtered

variable [LinearOrder P]

/-! ## Levels as distinct prices -/

/-- The distinct prices of a list that are better than a price. -/
def betterPrices (side : Side) (records : List (Record P)) (price : P) : Finset P :=
  (records.map Record.price).toFinset.filter fun better => side.Better better price

/-- A record is priced among the `count` best distinct prices of a list. -/
def AmongBest (side : Side) (count : Nat) (records : List (Record P)) (r : Record P) : Prop :=
  (betterPrices side records r.price).card < count

instance (side : Side) (count : Nat) (records : List (Record P)) (r : Record P) :
    Decidable (AmongBest side count records r) :=
  inferInstanceAs (Decidable (_ < _))

theorem mem_betterPrices {side : Side} {records : List (Record P)} {price better : P} :
    better ∈ betterPrices side records price ↔
      (∃ r ∈ records, r.price = better) ∧ side.Better better price := by
  simp [betterPrices]

theorem betterPrices_perm {side : Side} {first second : List (Record P)}
    (perm : first.Perm second) (price : P) :
    betterPrices side first price = betterPrices side second price := by
  rw [betterPrices, betterPrices, List.toFinset_eq_of_perm _ _ (perm.map Record.price)]

theorem amongBest_perm {side : Side} {count : Nat} {first second : List (Record P)}
    (perm : first.Perm second) (r : Record P) :
    AmongBest side count first r ↔ AmongBest side count second r := by
  rw [AmongBest, AmongBest, betterPrices_perm perm]

/-- No price of a sorted list is better than that of its head. -/
theorem betterPrices_head {side : Side} {r : Record P} {rest : List (Record P)}
    (ordered : Sorted side (r :: rest)) : betterPrices side (r :: rest) r.price = ∅ := by
  rw [Finset.eq_empty_iff_forall_notMem]
  intro better member
  rcases mem_betterPrices.mp member with ⟨⟨s, inList, rfl⟩, isBetter⟩
  exact ordered.head_best s inList isBetter

/-- A second record at the price of the head opens no level. -/
theorem betterPrices_cons_same {side : Side} {r s : Record P} {rest : List (Record P)}
    (samePrice : s.price = r.price) (price : P) :
    betterPrices side (r :: s :: rest) price = betterPrices side (s :: rest) price := by
  simp [betterPrices, samePrice]

/-- A head that is better than the rest is one more better price for each of the
rest. -/
theorem card_betterPrices_cons {side : Side} {r : Record P} {rest : List (Record P)}
    (worse : ∀ s ∈ rest, side.Better r.price s.price) {s : Record P} (member : s ∈ rest) :
    (betterPrices side (r :: rest) s.price).card =
      (betterPrices side rest s.price).card + 1 := by
  have inserted : betterPrices side (r :: rest) s.price =
      insert r.price (betterPrices side rest s.price) := by
    rw [betterPrices, List.map_cons, List.toFinset_cons,
      Finset.filter_insert, if_pos (worse s member)]
    rfl
  have absent : r.price ∉ betterPrices side rest s.price := by
    intro inRest
    rcases mem_betterPrices.mp inRest with ⟨⟨t, tMember, equal⟩, _⟩
    have better := worse t tMember
    rw [equal] at better
    exact side.better_irrefl _ better
  rw [inserted, Finset.card_insert_of_notMem absent]

/-- Behind a head at another price, everything is worse than the head. -/
theorem better_of_sorted_ne {side : Side} {r s : Record P} {rest : List (Record P)}
    (ordered : Sorted side (r :: s :: rest)) (different : s.price ≠ r.price) :
    ∀ t ∈ s :: rest, side.Better r.price t.price := by
  have headWorse : side.Better r.price s.price := by
    rcases side.better_trichotomy r.price s.price with better | equal | better
    · exact better
    · exact absurd equal.symm different
    · exact absurd better (ordered.head_best s (by simp))
  have orderedRest : Sorted side (s :: rest) := (List.pairwise_cons.mp ordered).2
  intro t member
  rcases side.better_trichotomy t.price s.price with better | equal | better
  · exact absurd better (orderedRest.head_best t member)
  · rw [equal]
    exact headWorse
  · exact headWorse.trans better

/-- Once the previous price is that of a record of the list, the level counter
is the number of distinct better prices. -/
theorem cut_levelTest_cons {side : Side} {r : Record P} {rest : List (Record P)}
    (ordered : Sorted side (r :: rest)) {levelCount : Int} (bounded : levelCount ≤ 5) :
    (cut levelTest ⟨levelCount, r.price⟩ rest).1 =
      rest.filter fun s =>
        decide (levelCount + (betterPrices side (r :: rest) s.price).card ≤ 5) := by
  induction rest generalizing r levelCount with
  | nil => rfl
  | cons s rest inductionHypothesis =>
      have orderedRest : Sorted side (s :: rest) := (List.pairwise_cons.mp ordered).2
      rw [cut]
      by_cases samePrice : s.price = r.price
      · have continued := inductionHypothesis orderedRest bounded
        rw [samePrice] at continued
        have first : levelCount + (betterPrices side (s :: rest) r.price).card ≤ 5 := by
          rw [← samePrice, betterPrices_head orderedRest]
          simpa using bounded
        simp [levelTest, samePrice, betterPrices_cons_same, continued, first]
      · have worse := better_of_sorted_ne ordered samePrice
        by_cases full : levelCount + 1 > 5
        · -- the sixth level
          have refused : levelTest ⟨levelCount, r.price⟩ s = none := by
            simp [levelTest, samePrice, full]
          rw [refused, eq_comm, List.filter_eq_nil_iff]
          intro t member
          rw [card_betterPrices_cons worse member, decide_eq_true_eq]
          omega
        · have opened : levelTest ⟨levelCount, r.price⟩ s =
              some ⟨levelCount + 1, s.price⟩ := by
            simp [levelTest, samePrice, full]
          have first : levelCount + (betterPrices side (r :: s :: rest) s.price).card ≤ 5 := by
            rw [card_betterPrices_cons worse List.mem_cons_self, betterPrices_head orderedRest]
            simp
            omega
          rw [opened, List.filter_cons_of_pos (by simpa using first)]
          simp only [inductionHypothesis orderedRest (not_lt.mp full), List.cons.injEq, true_and]
          apply List.filter_congr
          intro t member
          rw [card_betterPrices_cons worse (List.mem_cons_of_mem s member)]
          push_cast
          simp only [decide_eq_decide]
          omega

variable [Zero P]

/-- How many levels type 3 may reach: five, and one more when the best price is
the initial previous price. -/
def levelLimit (records : List (Record P)) : Nat :=
  if records.head?.map Record.price = some 0 then 6 else 5

/-- The records of a side that type 3 may reach. -/
def withinLevels (side : Side) (records : List (Record P)) : List (Record P) :=
  records.filter fun r => decide (AmongBest side (levelLimit records) records r)

/-- The records of a side behind the levels of type 3. -/
def behindLevels (side : Side) (records : List (Record P)) : List (Record P) :=
  records.filter fun r => decide (¬ AmongBest side (levelLimit records) records r)

/-- On a sorted side the loop of type 3 reaches the records within its levels. -/
theorem cut_levelTest {side : Side} {sorted : List (Record P)} (ordered : Sorted side sorted) :
    (cut levelTest Levels.start sorted).1 = withinLevels side sorted := by
  cases sorted with
  | nil => rfl
  | cons r rest =>
      have first : AmongBest side (levelLimit (r :: rest)) (r :: rest) r := by
        rw [AmongBest, betterPrices_head ordered, levelLimit]
        split <;> simp
      rw [withinLevels, List.filter_cons_of_pos (by simpa using first), cut]
      by_cases free : r.price = 0
      · have kept : levelTest Levels.start r = some ⟨0, r.price⟩ := by
          simp [levelTest, Levels.start, free]
        simp only [kept, cut_levelTest_cons ordered (show (0 : Int) ≤ 5 by decide),
          List.cons.injEq, true_and]
        apply List.filter_congr
        intro s _
        simp only [AmongBest, levelLimit, List.head?_cons, Option.map_some, free, if_true,
          decide_eq_decide]
        omega
      · have opened : levelTest Levels.start r = some ⟨1, r.price⟩ := by
          simp [levelTest, Levels.start, free]
        simp only [opened, cut_levelTest_cons ordered (show (1 : Int) ≤ 5 by decide),
          List.cons.injEq, true_and]
        apply List.filter_congr
        intro s _
        simp only [AmongBest, levelLimit, List.head?_cons, Option.map_some, Option.some.injEq,
          free, if_false, decide_eq_decide]
        omega

theorem cut_levelTest_behind {side : Side} {sorted : List (Record P)}
    (ordered : Sorted side sorted) :
    (cut levelTest Levels.start sorted).2 = behindLevels side sorted := by
  have split := cut_append levelTest Levels.start sorted
  rw [cut_levelTest ordered] at split
  simpa [behindLevels] using eq_filter_not_of_append split rfl

/-- The heap of a side and the list it represents have the same records within
the levels. -/
theorem withinLevels_perm {side : Side} {heap sorted : List (Record P)}
    (front : heap.head? = sorted.head?) (perm : heap.Perm sorted) :
    (withinLevels side heap).Perm (withinLevels side sorted) := by
  rw [withinLevels, withinLevels, levelLimit, levelLimit, front]
  simp only [amongBest_perm perm]
  exact perm.filter _

/-! ## The handler -/

section Handler

variable (algorithms : HeapAlgorithms) (stkCode : Int)
  {book sorted : StockDeclarationBook P} {order : Order P} {side : Side}

omit [Zero P] in
theorem Stocked.head?_eq (stocked : Stocked book sorted order) (side : Side) :
    (book.decls side).head? = (sorted.decls side).head? := by
  rw [← StockDeclarationBook.queryFirst_eq_head?, stocked.matching.queryFirst]

/-- Type 3 is type 4 on the records within its levels. -/
theorem Stocked.handleFiveLevelOtherCancel_refines (stocked : Stocked book sorted order)
    (ordered : Sorted side.other (sorted.decls side.other)) (sided : sideOf order = some side)
    {swept : Swept P}
    (sweptEq : sweep stkCode order side.other (fun levels _ => some levels) Levels.start
      order.volume (withinLevels side.other (sorted.decls side.other)) = swept) :
    ∃ heap, handleFiveLevelOtherCancel algorithms stkCode book order =
        .ok ⟨book.setDecls side.other heap, swept.trades, fiveLevelStatus side swept.left,
          swept.left⟩ ∧
      Represents side.other.lt heap
        (swept.rest ++ behindLevels side.other (sorted.decls side.other)) := by
  rcases stocked.startLoop_refines algorithms stkCode side levelTest (.ok ()) (Or.inl rfl) with
    ⟨heap, looped, represents⟩
  rw [sweep_eq_sweep_cut stkCode order side.other levelTest Levels.start Levels.start,
    cut_levelTest ordered, cut_levelTest_behind ordered, sweptEq] at looped represents
  refine ⟨heap, ?_, represents⟩
  rw [handleFiveLevelOtherCancel_eq algorithms stkCode book sided, looped]
  rfl

omit [Zero P] in
/-- The side restricted to some of its records can be laid out as a heap, and the
loops see the same sorted list in every such layout. -/
theorem Stocked.restrict (stocked : Stocked book sorted order) {side : Side}
    (accepts : Record P → Bool) {restricted : List (Record P)}
    (isHeap : IsHeap side.lt restricted)
    (perm : restricted.Perm ((book.decls side).filter accepts)) :
    Stocked (book.setDecls side restricted)
      (sorted.setDecls side ((sorted.decls side).filter accepts)) order where
  matching := by
    refine stocked.matching.setDecls ⟨isHeap, perm.trans ?_, ?_⟩
    · exact (stocked.matching side).perm.filter accepts
    · exact (stocked.matching side).sorted.sublist List.filter_sublist
  positive := by
    refine Side.forall_of_pair side ?_ ?_
    · rw [StockDeclarationBook.decls_setDecls]
      exact fun r member => stocked.positive side r (List.mem_of_mem_filter member)
    · rw [StockDeclarationBook.decls_setDecls_other]
      exact stocked.positive side.other
  volumePositive := stocked.volumePositive
  volumeSmall := stocked.volumeSmall

omit [LinearOrder P] [Zero P] in
/-- A record that a sweep leaves was in the list, with at least its volume. -/
theorem sweep_rest_origin (order : Order P) (side : Side) (levels : Levels P) {left : Int}
    (nonnegative : 0 ≤ left) {sorted : List (Record P)} (positive : Positive sorted) :
    ∀ s ∈ (sweep stkCode order side (fun levels _ => some levels) levels left sorted).rest,
      ∃ r ∈ sorted, r.orderId = s.orderId ∧ r.price = s.price ∧ s.volume ≤ r.volume := by
  rcases sweep_filled stkCode order side (fun levels _ => some levels) levels left sorted
    nonnegative with ⟨fills, filled, _⟩
  exact fun s member => (filled.rest_bounds positive s member).2

omit [LinearOrder P] [Zero P] in
/-- Type 4 leaves volume over only when the side is empty. -/
theorem sweep_rest_eq_nil (order : Order P) (side : Side) (levels : Levels P) (left : Int)
    (sorted : List (Record P))
    (remains : (sweep stkCode order side (fun levels _ => some levels) levels left
      sorted).left ≠ 0) :
    (sweep stkCode order side (fun levels _ => some levels) levels left sorted).rest = [] := by
  rcases sweep_stop stkCode order side _ levels left sorted remains with
    exhausted | ⟨_, _, _, _, _, refused⟩
  · exact exhausted
  · contradiction

/-- Positive prices never meet the initial previous price. -/
theorem levelLimit_eq_five {records : List (Record P)} (positive : ∀ r ∈ records, 0 < r.price) :
    levelLimit records = 5 := by
  rw [levelLimit, if_neg]
  cases records with
  | nil => simp
  | cons r rest => simpa using (positive r List.mem_cons_self).ne'

theorem Stocked.withinLevels_eq_five (stocked : Stocked book sorted order) {side : Side}
    (positive : ∀ r ∈ book.decls side, 0 < r.price) :
    withinLevels side (sorted.decls side) =
      (sorted.decls side).filter fun r => AmongBest side 5 (book.decls side) r := by
  rw [withinLevels,
    levelLimit_eq_five fun r member => positive r (stocked.mem_iff.mpr member)]
  simp only [amongBest_perm (stocked.matching side).perm]

theorem Stocked.behindLevels_eq_five (stocked : Stocked book sorted order) {side : Side}
    (positive : ∀ r ∈ book.decls side, 0 < r.price) :
    behindLevels side (sorted.decls side) =
      (sorted.decls side).filter fun r => ¬ AmongBest side 5 (book.decls side) r := by
  rw [behindLevels,
    levelLimit_eq_five fun r member => positive r (stocked.mem_iff.mpr member)]
  simp only [amongBest_perm (stocked.matching side).perm]

end Handler

/-- The five levels of type 3.  Its trades are those of type 4 on the records of
the five best prices of the opposite side; the records behind them and the own
side stay, nothing of the order rests, and volume is left over only after every
record of the five levels is gone. -/
theorem handleFiveLevelOtherCancel_five_levels {algorithms : HeapAlgorithms} {stkCode : Int}
    {book : StockDeclarationBook P} {side : Side} (order : Order P)
    (reachable : Reachable algorithms stkCode book) (sided : sideOf order = some side)
    (volume : 0 < order.volume ∧ order.volume ≤ intMax)
    (positive : ∀ side, ∀ r ∈ book.decls side, 0 < r.price) :
    ∃ outcome, handleFiveLevelOtherCancel algorithms stkCode book order = .ok outcome ∧
      (∃ restricted, IsHeap side.other.lt restricted ∧
        restricted.Perm ((book.decls side.other).filter fun r =>
          AmongBest side.other 5 (book.decls side.other) r)) ∧
      (∀ restricted, IsHeap side.other.lt restricted →
        restricted.Perm ((book.decls side.other).filter fun r =>
          AmongBest side.other 5 (book.decls side.other) r) →
        ∃ immediate, handleImmediateOtherCancel algorithms stkCode
            (book.setDecls side.other restricted) order = .ok immediate ∧
          outcome.trades = immediate.trades) ∧
      ((outcome.book.decls side.other).filter fun r =>
          ¬ AmongBest side.other 5 (book.decls side.other) r).Perm
        ((book.decls side.other).filter fun r =>
          ¬ AmongBest side.other 5 (book.decls side.other) r) ∧
      outcome.book.decls side = book.decls side ∧
      (∀ s ∈ outcome.book.decls side.other, ∃ r ∈ book.decls side.other,
        r.orderId = s.orderId ∧ r.price = s.price ∧ s.volume ≤ r.volume) ∧
      (totalTraded outcome.trades < order.volume → ∀ s ∈ outcome.book.decls side.other,
        ¬ AmongBest side.other 5 (book.decls side.other) s) := by
  rcases reachable.exists_stocked volume with ⟨latest, sorted, sound, stocked⟩
  have represents := stocked.matching side.other
  have within := stocked.withinLevels_eq_five (positive side.other)
  have behind := stocked.behindLevels_eq_five (positive side.other)
  have traded := totalTraded_sweep stkCode order side.other (fun levels _ => some levels)
    Levels.start volume.1.le (withinLevels side.other (sorted.decls side.other))
  have withinPositive : Positive (withinLevels side.other (sorted.decls side.other)) :=
    (sound.positive side.other).filter _
  have origin :=
    sweep_rest_origin stkCode order side.other Levels.start volume.1.le withinPositive
  have exhausted := sweep_rest_eq_nil stkCode order side.other Levels.start order.volume
    (withinLevels side.other (sorted.decls side.other))
  generalize sweptEq : sweep stkCode order side.other (fun levels _ => some levels) Levels.start
    order.volume (withinLevels side.other (sorted.decls side.other)) = swept
    at traded origin exhausted
  rcases stocked.handleFiveLevelOtherCancel_refines algorithms stkCode (sound.sorted side.other)
    sided sweptEq with ⟨heap, handled, represents'⟩
  rw [within] at sweptEq origin
  rw [behind] at represents'
  have restWithin : ∀ s ∈ swept.rest, AmongBest side.other 5 (book.decls side.other) s := by
    intro s member
    rcases origin s member with ⟨r, inFilter, _, samePrice, _⟩
    have best := of_decide_eq_true (List.mem_filter.mp inFilter).2
    rwa [AmongBest, samePrice] at best
  refine ⟨_, handled, ⟨_, (Represents.refl side.other.lt_strictWeak
    (represents.sorted.sublist List.filter_sublist)).isHeap,
    (represents.perm.filter _).symm⟩, ?_, ?_, ?_, ?_, ?_⟩
  · intro restricted isHeap perm
    rcases (stocked.restrict _ isHeap perm).handleImmediateOtherCancel_refines algorithms stkCode
      sided rfl with ⟨heap', immediate, _⟩
    rw [StockDeclarationBook.decls_setDecls, sweptEq] at immediate
    exact ⟨_, immediate, rfl⟩
  · rw [StockDeclarationBook.decls_setDecls]
    apply (perm_filter_of_append represents'.perm _).trans (represents.perm.filter _).symm
    simpa using restWithin
  · simp
  · intro s member
    rw [StockDeclarationBook.decls_setDecls, represents'.perm.mem_iff, List.mem_append] at member
    rcases member with swept | behind
    · rcases origin s swept with ⟨r, inFilter, same⟩
      exact ⟨r, stocked.mem_iff.mpr (List.mem_of_mem_filter inFilter), same⟩
    · exact ⟨s, stocked.mem_iff.mpr (List.mem_of_mem_filter behind), rfl, rfl, le_refl _⟩
  · intro remains s member
    simp only [traded] at remains
    rw [StockDeclarationBook.decls_setDecls, represents'.perm.mem_iff,
      exhausted (by omega), List.nil_append] at member
    exact of_decide_eq_true (List.mem_filter.mp member).2

/-- A type 3 buy of 25 takes both levels of the two sells and drops 5. -/
theorem handleFiveLevelOtherCancel_five_levels_buy :
    ∃ outcome, handleFiveLevelOtherCancel binaryHeap 1 twoSells ⟨1, 3, 1, 3, 0, 25⟩ = .ok outcome ∧
      outcome.book.buyDecls = [] := by
  rcases handleFiveLevelOtherCancel_five_levels ⟨1, 3, 1, 3, 0, 25⟩ twoSells_reachable rfl
    (by decide) (by rintro (_ | _) <;> decide) with ⟨outcome, handled, _, _, _, own, _⟩
  exact ⟨outcome, handled, own⟩

end PpiwTrading.Exchange
