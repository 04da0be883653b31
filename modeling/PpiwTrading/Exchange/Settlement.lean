import PpiwTrading.Exchange.Reference

/-!
# What one commit of the reference engine does

`Filled` describes a sweep without its plan: which records were traded against
and for how much, and what stays of the list.  The laws that every later
result needs (volumes balance, priority and ids survive, a fill names a record
of the book) are proved on it by induction.  `Settles` is the resulting
description of a whole commit, and `Sound` the invariant of the sorted book
that each commit keeps.
-/

namespace PpiwTrading.Exchange.Reference

open PpiwTrading.Heap

variable {P : Type}

/-- `Filled sorted left fills rest left'`: trading a volume of `left` against
the head of `sorted` performs `fills`, leaves `rest` in the list and `left'`
of the volume. -/
inductive Filled : List (Record P) → Int → List (Record P × Int) →
    List (Record P) → Int → Prop
  | stop (sorted : List (Record P)) (left : Int) : Filled sorted left [] sorted left
  | part {r : Record P} {rest : List (Record P)} {left : Int} :
      0 < left → left < r.volume →
      Filled (r :: rest) left [(r, left)] ({ r with volume := r.volume - left } :: rest) 0
  | whole {r : Record P} {rest rest' : List (Record P)} {left left' : Int}
      {fills : List (Record P × Int)} :
      r.volume ≤ left → Filled rest (left - r.volume) fills rest' left' →
      Filled (r :: rest) left ((r, r.volume) :: fills) rest' left'

/-- All volumes of a list are positive `int` values. -/
def Positive (records : List (Record P)) : Prop :=
  ∀ r ∈ records, 0 < r.volume ∧ r.volume ≤ intMax

theorem Positive.tail {r : Record P} {rest : List (Record P)}
    (positive : Positive (r :: rest)) : Positive rest :=
  fun s member => positive s (List.mem_cons_of_mem r member)

theorem Positive.filter {records : List (Record P)} (positive : Positive records)
    (accepts : Record P → Bool) : Positive (records.filter accepts) :=
  fun r member => positive r (List.mem_of_mem_filter member)

/-- The volume resting under an order id. -/
def restingVolume (id : Int) (records : List (Record P)) : Int :=
  (records.map fun r => if r.orderId = id then r.volume else 0).sum

/-- The volume filled against an order id. -/
def filledVolume (id : Int) (fills : List (Record P × Int)) : Int :=
  (fills.map fun fill => if fill.1.orderId = id then fill.2 else 0).sum

namespace Filled

variable {sorted rest : List (Record P)} {left left' : Int} {fills : List (Record P × Int)}

theorem balance (filled : Filled sorted left fills rest left') :
    left = (fills.map Prod.snd).sum + left' := by
  induction filled with
  | stop => simp
  | part => simp
  | whole _ _ inductionHypothesis =>
      rw [List.map_cons, List.sum_cons]
      omega

theorem left_nonneg (filled : Filled sorted left fills rest left')
    (nonnegative : 0 ≤ left) : 0 ≤ left' := by
  induction filled with
  | stop => exact nonnegative
  | part => exact le_refl 0
  | whole enough _ inductionHypothesis => exact inductionHypothesis (by omega)

theorem left_le (filled : Filled sorted left fills rest left')
    (positive : Positive sorted) : left' ≤ left := by
  induction filled with
  | stop => exact le_refl _
  | part positiveLeft => exact positiveLeft.le
  | @whole r _ _ _ _ _ _ _ inductionHypothesis =>
      have smaller := inductionHypothesis positive.tail
      have positiveVolume := (positive r List.mem_cons_self).1
      omega

/-- Every fill takes a positive part of a record of the list. -/
theorem fill_bounds (filled : Filled sorted left fills rest left')
    (positive : Positive sorted) :
    ∀ fill ∈ fills, fill.1 ∈ sorted ∧ 0 < fill.2 ∧ fill.2 ≤ fill.1.volume := by
  induction filled with
  | stop => simp
  | part positiveLeft smaller =>
      simp only [List.mem_singleton, forall_eq]
      exact ⟨List.mem_cons_self, positiveLeft, smaller.le⟩
  | whole _ _ inductionHypothesis =>
      intro fill member
      rcases List.mem_cons.mp member with rfl | later
      · exact ⟨List.mem_cons_self, (positive _ List.mem_cons_self).1, le_refl _⟩
      · obtain ⟨inRest, bounds⟩ := inductionHypothesis positive.tail fill later
        exact ⟨List.mem_cons_of_mem _ inRest, bounds⟩

/-- Every record that stays was in the list with the same id and price, and
with at least its volume. -/
theorem rest_bounds (filled : Filled sorted left fills rest left')
    (positive : Positive sorted) :
    ∀ s ∈ rest, 0 < s.volume ∧ ∃ r ∈ sorted, r.orderId = s.orderId ∧
      r.price = s.price ∧ s.volume ≤ r.volume := by
  induction filled with
  | stop => exact fun s member => ⟨(positive s member).1, s, member, rfl, rfl, le_refl _⟩
  | @part r tail left positiveLeft smaller =>
      intro s member
      rcases List.mem_cons.mp member with rfl | later
      · exact ⟨by simp only; omega, r, List.mem_cons_self, rfl, rfl,
          by simp only; omega⟩
      · exact ⟨(positive.tail s later).1, s, List.mem_cons_of_mem _ later, rfl, rfl, le_refl _⟩
  | whole _ _ inductionHypothesis =>
      intro s member
      obtain ⟨positiveVolume, r, inRest, same⟩ := inductionHypothesis positive.tail s member
      exact ⟨positiveVolume, r, List.mem_cons_of_mem _ inRest, same⟩

theorem rest_positive (filled : Filled sorted left fills rest left')
    (positive : Positive sorted) : Positive rest := by
  intro s member
  obtain ⟨positiveVolume, r, inSorted, _, _, smaller⟩ :=
    filled.rest_bounds positive s member
  exact ⟨positiveVolume, smaller.trans (positive r inSorted).2⟩

/-- The ids that stay are a final segment of the ids of the list. -/
theorem ids_suffix (filled : Filled sorted left fills rest left') :
    rest.map Record.orderId <:+ sorted.map Record.orderId := by
  induction filled with
  | stop => exact List.suffix_refl _
  | part => exact List.suffix_refl _
  | whole _ _ inductionHypothesis => exact inductionHypothesis.trans (List.suffix_cons _ _)

theorem rest_sorted [LinearOrder P] {side : Side} (filled : Filled sorted left fills rest left')
    (ordered : Sorted side sorted) : Sorted side rest := by
  induction filled with
  | stop => exact ordered
  | part => exact List.pairwise_cons.mpr (List.pairwise_cons.mp ordered)
  | whole _ _ inductionHypothesis =>
      exact inductionHypothesis (List.pairwise_cons.mp ordered).2

/-- The list loses exactly the filled volume. -/
theorem volume_sum (filled : Filled sorted left fills rest left') :
    (sorted.map Record.volume).sum =
      (fills.map Prod.snd).sum + (rest.map Record.volume).sum := by
  induction filled with
  | stop => simp
  | part =>
      simp only [List.map_cons, List.map_nil, List.sum_cons, List.sum_nil]
      omega
  | whole _ _ inductionHypothesis =>
      simp only [List.map_cons, List.sum_cons]
      omega

/-- What is filled against an id is what it loses. -/
theorem restingVolume_eq (filled : Filled sorted left fills rest left') (id : Int) :
    restingVolume id sorted = filledVolume id fills + restingVolume id rest := by
  induction filled with
  | stop => simp [filledVolume]
  | part =>
      simp only [restingVolume, filledVolume, List.map_cons, List.map_nil, List.sum_cons,
        List.sum_nil]
      split <;> omega
  | whole _ _ inductionHypothesis =>
      simp only [restingVolume, filledVolume, List.map_cons, List.sum_cons]
        at inductionHypothesis ⊢
      omega

end Filled

section Sweep

variable (stkCode : Int) (order : Order P) (side : Side)
  (accepts : Levels P → Record P → Option (Levels P))

/-- The trades of a list of fills. -/
def fillTrades (fills : List (Record P × Int)) : List (Trade P) :=
  fills.map fun fill => newTrade stkCode order side fill.1 fill.1.price fill.2

/-- A sweep is a fill whose records the plan accepted. -/
theorem sweep_filled (levels : Levels P) (left : Int) (sorted : List (Record P))
    (nonnegative : 0 ≤ left) :
    ∃ fills, Filled sorted left fills
        (sweep stkCode order side accepts levels left sorted).rest
        (sweep stkCode order side accepts levels left sorted).left ∧
      (sweep stkCode order side accepts levels left sorted).trades =
        fillTrades stkCode order side fills ∧
      ∀ fill ∈ fills, ∃ levels', accepts levels' fill.1 ≠ none := by
  induction sorted generalizing levels left with
  | nil => exact ⟨[], Filled.stop [] left, rfl, by simp⟩
  | cons r rest inductionHypothesis =>
      rw [sweep]
      by_cases done : left = 0
      · rw [if_pos done]
        exact ⟨[], Filled.stop _ left, rfl, by simp⟩
      · rw [if_neg done]
        cases test : accepts levels r with
        | none => exact ⟨[], Filled.stop _ left, rfl, by simp⟩
        | some levels' =>
            have accepted : accepts levels r ≠ none := by rw [test]; simp
            by_cases smaller : left < r.volume
            · simp only [if_pos smaller]
              exact ⟨[(r, left)], Filled.part (by omega) smaller, rfl,
                by simpa using ⟨levels, accepted⟩⟩
            · simp only [if_neg smaller]
              obtain ⟨fills, filled, trades, allAccepted⟩ :=
                inductionHypothesis levels' (left - r.volume) (by omega)
              refine ⟨(r, r.volume) :: fills, Filled.whole (by omega) filled, ?_, ?_⟩
              · rw [trades]
                rfl
              · intro fill member
                rcases List.mem_cons.mp member with rfl | later
                · exact ⟨levels, accepted⟩
                · exact allAccepted fill later

/-- A sweep that leaves volume over has used up the list or stopped at a record
of the list that the plan does not accept. -/
theorem sweep_stop (levels : Levels P) (left : Int) (sorted : List (Record P))
    (remains : (sweep stkCode order side accepts levels left sorted).left ≠ 0) :
    (sweep stkCode order side accepts levels left sorted).rest = [] ∨
      ∃ r tail levels', (sweep stkCode order side accepts levels left sorted).rest = r :: tail ∧
        r ∈ sorted ∧ accepts levels' r = none := by
  induction sorted generalizing levels left with
  | nil => exact Or.inl rfl
  | cons r rest inductionHypothesis =>
      rw [sweep] at remains ⊢
      by_cases done : left = 0
      · rw [if_pos done] at remains
        exact absurd done remains
      · rw [if_neg done] at remains ⊢
        cases test : accepts levels r with
        | none => exact Or.inr ⟨r, rest, levels, rfl, List.mem_cons_self, test⟩
        | some levels' =>
            simp only [test] at remains
            by_cases smaller : left < r.volume
            · rw [if_pos smaller] at remains
              exact absurd rfl remains
            · simp only [if_neg smaller] at remains ⊢
              rcases inductionHypothesis levels' (left - r.volume) remains with
                exhausted | ⟨s, tail, stopLevels, restEq, member, refused⟩
              · exact Or.inl exhausted
              · exact Or.inr ⟨s, tail, stopLevels, restEq,
                  List.mem_cons_of_mem r member, refused⟩

/-- A sweep that accepts every record fills all the volume it can. -/
theorem sweep_left_eq_zero (levels : Levels P) (left : Int) (sorted : List (Record P))
    (always : ∀ levels r, accepts levels r ≠ none) (nonnegative : 0 ≤ left)
    (covered : left ≤ (sorted.map Record.volume).sum) :
    (sweep stkCode order side accepts levels left sorted).left = 0 := by
  obtain ⟨fills, filled, _⟩ :=
    sweep_filled stkCode order side accepts levels left sorted nonnegative
  by_contra remains
  rcases sweep_stop stkCode order side accepts levels left sorted remains with
    exhausted | ⟨r, _, stopLevels, _, _, refused⟩
  · have total := filled.volume_sum
    have balance := filled.balance
    have leftNonneg := filled.left_nonneg nonnegative
    rw [exhausted, List.map_nil, List.sum_nil] at total
    omega
  · exact always stopLevels r refused

end Sweep

/-! ## One commit -/

section Commit

variable [LinearOrder P] [Zero P]

/-- The effect of carrying out a plan: the opposite side is filled, and the
own side either stays or gains one record for the remainder. -/
structure Settles (stkCode : Int) (book : StockDeclarationBook P) (side : Side)
    (order : Order P) (plan : Plan P) (settled : Settled P)
    (fills : List (Record P × Int)) (left : Int) : Prop where
  filled : Filled (book.decls side.other) order.volume fills
    (settled.book.decls side.other) left
  trades : settled.trades = fillTrades stkCode order side.other fills
  accepted : ∀ fill ∈ fills, ∃ levels, plan.accepts levels fill.1 ≠ none
  stopped : left ≠ 0 → settled.book.decls side.other = [] ∨
    ∃ r tail levels, settled.book.decls side.other = r :: tail ∧
      r ∈ book.decls side.other ∧ plan.accepts levels r = none
  own : (settled.book.decls side = book.decls side ∧ settled.cancelled = left ∧
      (plan.restAt ≠ none → left = 0)) ∨
    ∃ price, plan.restAt = some price ∧ left ≠ 0 ∧ settled.cancelled = 0 ∧
      settled.book.decls side =
        insertSorted side ⟨order.orderId, price, left⟩ (book.decls side)

theorem settle_settles (stkCode : Int) (book : StockDeclarationBook P) (side : Side)
    (order : Order P) (plan : Plan P) (nonnegative : 0 ≤ order.volume) :
    ∃ fills left, Settles stkCode book side order plan
      (settle stkCode book side order plan) fills left := by
  obtain ⟨fills, filled, trades, accepted⟩ := sweep_filled stkCode order side.other
    plan.accepts Levels.start order.volume (book.decls side.other) nonnegative
  have stopped := sweep_stop stkCode order side.other plan.accepts Levels.start
    order.volume (book.decls side.other)
  unfold settle
  generalize sweep stkCode order side.other plan.accepts Levels.start order.volume
    (book.decls side.other) = swept at filled trades stopped ⊢
  refine ⟨fills, swept.left, ?_⟩
  cases resting : plan.restAt with
  | none =>
      exact
        { filled := by simpa using filled
          trades := trades
          accepted := accepted
          stopped := by simpa using stopped
          own := Or.inl ⟨by simp, rfl, by simp [resting]⟩ }
  | some price =>
      by_cases used : swept.left = 0
      · simp only [if_pos used]
        exact
          { filled := by simpa using filled
            trades := trades
            accepted := accepted
            stopped := by simpa using stopped
            own := Or.inl ⟨by simp, used.symm, fun _ => used⟩ }
      · simp only [if_neg used]
        exact
          { filled := by simpa using filled
            trades := trades
            accepted := accepted
            stopped := by simpa using stopped
            own := Or.inr ⟨price, resting, used, rfl, by simp⟩ }

/-- An order is either refused as a whole or settled by its plan. -/
theorem commit_cases (stkCode : Int) (book : StockDeclarationBook P) (order : Order P)
    (nonnegative : 0 ≤ order.volume) :
    commit stkCode book order = ⟨book, [], order.volume⟩ ∨
      ∃ side plan fills left, sideOf order = some side ∧
        planOf book side order = some plan ∧
        Settles stkCode book side order plan (commit stkCode book order) fills left := by
  unfold commit
  cases sideEq : sideOf order with
  | none => exact Or.inl rfl
  | some side =>
      cases planEq : planOf book side order with
      | none => exact Or.inl (by simp only [planEq])
      | some plan =>
          obtain ⟨fills, left, settles⟩ :=
            settle_settles stkCode book side order plan nonnegative
          exact Or.inr ⟨side, plan, fills, left, rfl, planEq, by simpa only [planEq] using settles⟩

end Commit

/-! ## The invariant of the sorted book -/

section Sound

variable [LinearOrder P]

/-- The reachable books of the reference engine: both sides are sorted, volumes
are positive, every id is at most `latest` and rests once, and every buy price
is below every sell price. -/
structure Sound (latest : Int) (book : StockDeclarationBook P) : Prop where
  sorted : ∀ side, Sorted side (book.decls side)
  positive : ∀ side, Positive (book.decls side)
  recent : ∀ side, ∀ r ∈ book.decls side, r.orderId ≤ latest
  nodup : ∀ side, ((book.decls side).map Record.orderId).Nodup
  disjoint : ∀ side, ∀ r ∈ book.decls side, ∀ s ∈ book.decls side.other,
    r.orderId ≠ s.orderId
  uncrossed : ∀ side, ∀ r ∈ book.decls side, ∀ s ∈ book.decls side.other,
    side.Better s.price r.price

theorem Sound.empty (latest : Int) : Sound latest (StockDeclarationBook.empty (P := P)) := by
  have none : ∀ side, (StockDeclarationBook.empty (P := P)).decls side = [] := by
    intro side
    cases side <;> rfl
  constructor <;> intro side <;> simp [none, Sorted, Positive]

theorem Sound.mono {latest later : Int} {book : StockDeclarationBook P}
    (sound : Sound latest book) (le : latest ≤ later) : Sound later book :=
  { sound with recent := fun side r member => (sound.recent side r member).trans le }

/-- A statement about both sides holds when it holds of one side and of its
opposite. -/
theorem Side.forall_of_pair {motive : Side → Prop} (side : Side) (own : motive side)
    (opposite : motive side.other) : ∀ any, motive any := by
  intro any
  cases side <;> cases any <;> assumption

/-- What a plan must satisfy to keep the book uncrossed: a record it does not
accept is priced beyond the price at which the remainder rests. -/
def Plan.Fits (plan : Plan P) (book : StockDeclarationBook P) (side : Side) : Prop :=
  ∀ price, plan.restAt = some price → ∀ levels, ∀ r ∈ book.decls side.other,
    plan.accepts levels r = none → side.Better r.price price

theorem planOf_fits [Zero P] {latest : Int} {book : StockDeclarationBook P} {side : Side}
    {order : Order P} {plan : Plan P} (sound : Sound latest book)
    (planned : planOf book side order = some plan) : plan.Fits book side := by
  intro price resting levels r member refused
  simp only [planOf] at planned
  split at planned
  · -- type 0 stops exactly at a record beyond its limit
    cases planned
    cases resting
    by_contra acceptable
    simp [acceptable] at refused
  · split at planned
    · -- type 1 stops at the first record that is not at the best price
      cases opposite : book.decls side.other with
      | nil => simp [opposite] at planned
      | cons best rest =>
          simp only [opposite, List.head?_cons, Option.map_some, Option.some.injEq] at planned
          subst planned
          cases resting
          have ordered : Sorted side.other (best :: rest) := opposite ▸ sound.sorted side.other
          have notBetter := ordered.head_best r (opposite ▸ member)
          have different : r.price ≠ best.price := by
            intro equal
            simp [equal] at refused
          rw [Side.better_other] at notBetter
          rcases side.better_trichotomy r.price best.price with better | equal | better
          · exact better
          · exact absurd equal different
          · exact absurd better notBetter
    · split at planned
      · -- type 2 rests at the best price of its own side
        cases own : book.decls side with
        | nil => simp [own] at planned
        | cons best rest =>
            simp only [own, List.head?_cons, Option.map_some, Option.some.injEq] at planned
            subst planned
            cases resting
            exact sound.uncrossed side best (own ▸ List.mem_cons_self) r member
      · split at planned
        · cases planned
          cases resting
        · split at planned
          · cases planned
            cases resting
          · split at planned
            · split at planned
              · contradiction
              · cases planned
                cases resting
            · contradiction

namespace Settles

variable {stkCode latest : Int} {book : StockDeclarationBook P} {side : Side}
  {order : Order P} {plan : Plan P} {settled : Settled P} {fills : List (Record P × Int)}
  {left : Int}

/-- The volume left over is part of the order. -/
theorem left_bounds (settles : Settles stkCode book side order plan settled fills left)
    (sound : Sound latest book) (nonnegative : 0 ≤ order.volume) :
    0 ≤ left ∧ left ≤ order.volume :=
  ⟨settles.filled.left_nonneg nonnegative, settles.filled.left_le (sound.positive side.other)⟩

/-- A record of the opposite side after the commit was there before it. -/
theorem opposite_origin (settles : Settles stkCode book side order plan settled fills left)
    (sound : Sound latest book) :
    ∀ s ∈ settled.book.decls side.other, ∃ r ∈ book.decls side.other,
      r.orderId = s.orderId ∧ r.price = s.price ∧ s.volume ≤ r.volume :=
  fun s member => (settles.filled.rest_bounds (sound.positive side.other) s member).2

/-- A record of the own side after the commit was there before it or is the
remainder. -/
theorem own_origin (settles : Settles stkCode book side order plan settled fills left) :
    ∀ r ∈ settled.book.decls side, r ∈ book.decls side ∨
      left ≠ 0 ∧ ∃ price, plan.restAt = some price ∧ r = ⟨order.orderId, price, left⟩ := by
  intro r member
  rcases settles.own with ⟨same, _⟩ | ⟨price, resting, remains, _, inserted⟩
  · exact Or.inl (same ▸ member)
  · rw [inserted, mem_insertSorted] at member
    rcases member with rfl | old
    · exact Or.inr ⟨remains, price, resting, rfl⟩
    · exact Or.inl old

/-- A remainder rests strictly behind everything left on the opposite side. -/
theorem remainder_uncrossed
    (settles : Settles stkCode book side order plan settled fills left)
    (sound : Sound latest book) (fits : plan.Fits book side) {price : P}
    (resting : plan.restAt = some price) (remains : left ≠ 0) :
    ∀ s ∈ settled.book.decls side.other, side.Better s.price price := by
  intro s member
  rcases settles.stopped remains with exhausted | ⟨first, tail, levels, rest, inBook, refused⟩
  · rw [exhausted] at member
    contradiction
  · have beyond := fits price resting levels first inBook refused
    have ordered : Sorted side.other (first :: tail) :=
      rest ▸ settles.filled.rest_sorted (sound.sorted side.other)
    have notBetter := ordered.head_best s (rest ▸ member)
    rw [Side.better_other] at notBetter
    rcases side.better_trichotomy s.price first.price with better | equal | better
    · exact better.trans beyond
    · rw [equal]
      exact beyond
    · exact absurd better notBetter

theorem own_nodup (settles : Settles stkCode book side order plan settled fills left)
    (sound : Sound latest book) (fresh : latest < order.orderId) :
    ((settled.book.decls side).map Record.orderId).Nodup := by
  rcases settles.own with ⟨same, _⟩ | ⟨price, _, _, _, inserted⟩
  · rw [same]
    exact sound.nodup side
  · rw [inserted, ((insertSorted_perm side _ _).map Record.orderId).nodup_iff, List.map_cons,
      List.nodup_cons]
    refine ⟨?_, sound.nodup side⟩
    intro member
    obtain ⟨r, inBook, equal⟩ := List.mem_map.mp member
    have older := sound.recent side r inBook
    simp only at equal
    omega

theorem own_sorted (settles : Settles stkCode book side order plan settled fills left)
    (sound : Sound latest book) (fresh : latest < order.orderId) :
    Sorted side (settled.book.decls side) := by
  rcases settles.own with ⟨same, _⟩ | ⟨price, _, _, _, inserted⟩
  · rw [same]
    exact sound.sorted side
  · rw [inserted]
    apply (sound.sorted side).insertSorted
    intro r inBook
    have older := sound.recent side r inBook
    simp only
    omega

/-- Settling an order with a fresh id and a positive volume keeps the book
sound. -/
theorem sound (settles : Settles stkCode book side order plan settled fills left)
    (sound : Sound latest book) (fits : plan.Fits book side)
    (fresh : latest < order.orderId) (positive : 0 < order.volume)
    (small : order.volume ≤ intMax) : Sound order.orderId settled.book := by
  have bounds := settles.left_bounds sound positive.le
  have opposite := settles.opposite_origin sound
  have disjoint : ∀ r ∈ settled.book.decls side, ∀ s ∈ settled.book.decls side.other,
      r.orderId ≠ s.orderId := by
    intro r rMember s sMember
    obtain ⟨t, inBook, sameId, _⟩ := opposite s sMember
    rw [← sameId]
    rcases settles.own_origin r rMember with old | ⟨_, _, _, rfl⟩
    · exact sound.disjoint side r old t inBook
    · have older := sound.recent side.other t inBook
      simp only
      omega
  have uncrossed : ∀ r ∈ settled.book.decls side, ∀ s ∈ settled.book.decls side.other,
      side.Better s.price r.price := by
    intro r rMember s sMember
    rcases settles.own_origin r rMember with old | ⟨remains, price, resting, rfl⟩
    · obtain ⟨t, inBook, _, samePrice, _⟩ := opposite s sMember
      rw [← samePrice]
      exact sound.uncrossed side r old t inBook
    · exact settles.remainder_uncrossed sound fits resting remains s sMember
  constructor
  · exact Side.forall_of_pair side (settles.own_sorted sound fresh)
      (settles.filled.rest_sorted (sound.sorted side.other))
  · refine Side.forall_of_pair side ?_
      (settles.filled.rest_positive (sound.positive side.other))
    intro r member
    rcases settles.own_origin r member with old | ⟨remains, _, _, rfl⟩
    · exact sound.positive side r old
    · simp only
      omega
  · refine Side.forall_of_pair side ?_ ?_
    · intro r member
      rcases settles.own_origin r member with old | ⟨_, _, _, rfl⟩
      · exact (sound.recent side r old).trans fresh.le
      · exact le_refl _
    · intro s member
      obtain ⟨t, inBook, sameId, _⟩ := opposite s member
      rw [← sameId]
      exact (sound.recent side.other t inBook).trans fresh.le
  · exact Side.forall_of_pair side (settles.own_nodup sound fresh)
      ((sound.nodup side.other).sublist settles.filled.ids_suffix.sublist)
  · refine Side.forall_of_pair side disjoint ?_
    rw [Side.other_other]
    exact fun s sMember r rMember => (disjoint r rMember s sMember).symm
  · refine Side.forall_of_pair side uncrossed ?_
    rw [Side.other_other]
    exact fun s sMember r rMember => Side.better_other.mpr (uncrossed r rMember s sMember)

end Settles

/-- One commit keeps the book sound. -/
theorem Sound.commit [Zero P] {latest : Int} {book : StockDeclarationBook P}
    {order : Order P} (stkCode : Int) (sound : Sound latest book)
    (fresh : latest < order.orderId) (positive : 0 < order.volume)
    (small : order.volume ≤ intMax) :
    Sound order.orderId (commit stkCode book order).book := by
  rcases commit_cases stkCode book order positive.le with
    refused | ⟨side, plan, fills, left, _, planned, settles⟩
  · rw [refused]
    exact sound.mono fresh.le
  · exact settles.sound sound (planOf_fits sound planned) fresh positive small

variable [Zero P] {latest : Int} {book : StockDeclarationBook P} {order : Order P}

/-- A record after a commit was in the book before it, with at least its volume,
or is what the order leaves at the price of its plan. -/
theorem commit_origin (stkCode : Int) (sound : Sound latest book) (positive : 0 < order.volume) :
    ∀ side, ∀ s ∈ (commit stkCode book order).book.decls side,
      (∃ r ∈ book.decls side, r.orderId = s.orderId ∧ r.price = s.price ∧
        s.volume ≤ r.volume) ∨
      (sideOf order = some side ∧ s.orderId = order.orderId ∧ s.volume ≤ order.volume ∧
        ∃ plan, planOf book side order = some plan ∧ plan.restAt = some s.price) := by
  rcases commit_cases stkCode book order positive.le with
    refused | ⟨side, plan, fills, left, sided, planned, settles⟩
  · rw [refused]
    exact fun side s member => Or.inl ⟨s, member, rfl, rfl, le_refl _⟩
  · refine Side.forall_of_pair side ?_ ?_
    · intro s member
      rcases settles.own_origin s member with old | ⟨_, price, resting, rfl⟩
      · exact Or.inl ⟨s, old, rfl, rfl, le_refl _⟩
      · exact Or.inr ⟨sided, rfl, (settles.left_bounds sound positive.le).2, plan, planned,
          resting⟩
    · exact fun s member => Or.inl (settles.opposite_origin sound s member)

/-- A trade of a commit is a fill of the order against a record of the opposite
side, at the price of the record. -/
theorem commit_trade (stkCode : Int) (sound : Sound latest book) (positive : 0 < order.volume) :
    ∀ t ∈ (commit stkCode book order).trades, ∃ side plan r volume,
      sideOf order = some side ∧ planOf book side order = some plan ∧
      r ∈ book.decls side.other ∧ 0 < volume ∧
      t = newTrade stkCode order side.other r r.price volume ∧
      ∃ levels, plan.accepts levels r ≠ none := by
  rcases commit_cases stkCode book order positive.le with
    refused | ⟨side, plan, fills, left, sided, planned, settles⟩
  · simp [refused]
  · intro t member
    rw [settles.trades] at member
    obtain ⟨fill, inFills, rfl⟩ := List.mem_map.mp member
    obtain ⟨inBook, positiveVolume, _⟩ :=
      settles.filled.fill_bounds (sound.positive side.other) fill inFills
    exact ⟨side, plan, fill.1, fill.2, sided, planned, inBook, positiveVolume, rfl,
      settles.accepted fill inFills⟩

end Sound

end PpiwTrading.Exchange.Reference
