import PpiwTrading.Exchange.Handlers

/-!
# The price-time priority reference engine

The reference engine states what the matching code is for.  Each side is a
list sorted by best price and then by smallest order id; an order is resolved
to a `Plan`, which says how long it keeps trading against the head of the
opposite list and at which price an unfilled remainder is left; and `settle`
carries the plan out.  There is one plan for each order type and none for an
order that is refused.

The book type of the model is reused for the sorted lists.  Nothing here
refers to a heap, to a loop bound or to a fault.
-/

namespace PpiwTrading.Exchange.Reference

open PpiwTrading.Heap

variable {P : Type}

/-- Price-time priority on a side: better price first, then smaller order id. -/
def before [LinearOrder P] (side : Side) (r s : Record P) : Bool :=
  decide (side.Better r.price s.price ∨ r.price = s.price ∧ r.orderId < s.orderId)

/-- Insert a record at its sorted position. -/
def insertSorted [LinearOrder P] (side : Side) (r : Record P) (sorted : List (Record P)) :
    List (Record P) :=
  sorted.orderedInsert (fun a b => before side a b = true) r

/-- The side an order belongs to. -/
def sideOf (order : Order P) : Option Side :=
  if order.direction = 1 then some .buy
  else if order.direction = -1 then some .sell
  else none

theorem direction_of_sideOf_buy {order : Order P} (sided : sideOf order = some .buy) :
    order.direction = 1 := by
  simp only [sideOf] at sided
  split at sided
  · assumption
  · split at sided <;> contradiction

theorem direction_of_sideOf_sell {order : Order P} (sided : sideOf order = some .sell) :
    order.direction = -1 := by
  simp only [sideOf] at sided
  split at sided
  · contradiction
  · split at sided
    · assumption
    · contradiction

/-- How an order trades: the check on the head of the opposite list, and the
price at which a remainder rests, if it rests at all. -/
structure Plan (P : Type) where
  accepts : Levels P → Record P → Option (Levels P)
  restAt : Option P

/-- The result of trading against a sorted list. -/
structure Swept (P : Type) where
  rest : List (Record P)
  left : Int
  trades : List (Trade P)

/-- Trade against the head of the list until the plan stops, the volume is
used up or the list ends. -/
def sweep (stkCode : Int) (order : Order P) (side : Side)
    (accepts : Levels P → Record P → Option (Levels P)) :
    Levels P → Int → List (Record P) → Swept P
  | _, left, [] => ⟨[], left, []⟩
  | levels, left, r :: rest =>
      if left = 0 then ⟨r :: rest, left, []⟩
      else
        match accepts levels r with
        | none => ⟨r :: rest, left, []⟩
        | some levels' =>
            if left < r.volume then
              ⟨{ r with volume := r.volume - left } :: rest, 0,
                [newTrade stkCode order side r r.price left]⟩
            else
              let swept := sweep stkCode order side accepts levels' (left - r.volume) rest
              { swept with
                trades := newTrade stkCode order side r r.price r.volume :: swept.trades }

/-- What the reference engine answers to one order. -/
structure Settled (P : Type) where
  book : StockDeclarationBook P
  trades : List (Trade P)
  cancelled : Int

/-- Carry out a plan of an order on `side`. -/
def settle [LinearOrder P] [Zero P] (stkCode : Int) (book : StockDeclarationBook P) (side : Side)
    (order : Order P) (plan : Plan P) : Settled P :=
  let swept := sweep stkCode order side.other plan.accepts Levels.start order.volume
    (book.decls side.other)
  let book' := book.setDecls side.other swept.rest
  match plan.restAt with
  | none => ⟨book', swept.trades, swept.left⟩
  | some price =>
      if swept.left = 0 then ⟨book', swept.trades, 0⟩
      else
        ⟨book'.setDecls side
            (insertSorted side ⟨order.orderId, price, swept.left⟩ (book'.decls side)),
          swept.trades, 0⟩

/-- The plan of each order type; `none` refuses the order. -/
def planOf [LinearOrder P] [Zero P] (book : StockDeclarationBook P) (side : Side)
    (order : Order P) : Option (Plan P) :=
  if order.type = 0 then
    some
      { accepts := fun levels r =>
          if side.Better r.price order.price then none else some levels
        restAt := some order.price }
  else if order.type = 1 then
    (book.decls side.other).head?.map fun best =>
      { accepts := fun levels r => if r.price ≠ best.price then none else some levels
        restAt := some best.price }
  else if order.type = 2 then
    (book.decls side).head?.map fun best =>
      { accepts := fun _ _ => none
        restAt := some best.price }
  else if order.type = 3 then
    some { accepts := levelTest, restAt := none }
  else if order.type = 4 then
    some { accepts := fun levels _ => some levels, restAt := none }
  else if order.type = 5 then
    if order.volume > wrapInt32 ((book.decls side.other).map Record.volume).sum then none
    else some { accepts := fun levels _ => some levels, restAt := none }
  else none

/-- Settle one order, or leave the book alone when it is refused. -/
def commit [LinearOrder P] [Zero P] (stkCode : Int) (book : StockDeclarationBook P)
    (order : Order P) : Settled P :=
  match sideOf order with
  | none => ⟨book, [], order.volume⟩
  | some side =>
      match planOf book side order with
      | none => ⟨book, [], order.volume⟩
      | some plan => settle stkCode book side order plan

/-- Settle a list of orders one after another. -/
def run [LinearOrder P] [Zero P] (stkCode : Int) : StockDeclarationBook P → List (Order P) →
    StockDeclarationBook P × List (Trade P)
  | book, [] => (book, [])
  | book, order :: rest =>
      let settled := commit stkCode book order
      let (final, trades) := run stkCode settled.book rest
      (final, settled.trades ++ trades)

/-! ## The sorted order -/

variable [LinearOrder P]

/-- Priority is the heap comparison read backwards. -/
theorem before_eq_lt (side : Side) (r s : Record P) : before side r s = side.lt s r := by
  rw [Bool.eq_iff_iff, Side.lt_iff]
  simp only [before, decide_eq_true_eq]
  constructor
  · rintro (better | ⟨equal, older⟩)
    · exact Or.inl better
    · exact Or.inr ⟨equal.symm, older⟩
  · rintro (better | ⟨equal, older⟩)
    · exact Or.inl better
    · exact Or.inr ⟨equal.symm, older⟩

theorem insertSorted_eq_orderedInsert (side : Side) (r : Record P)
    (sorted : List (Record P)) :
    insertSorted side r sorted =
      sorted.orderedInsert (fun a b => side.lt b a = true) r := by
  simp only [insertSorted, before_eq_lt]

theorem insertSorted_perm (side : Side) (r : Record P) (sorted : List (Record P)) :
    (insertSorted side r sorted).Perm (r :: sorted) :=
  List.perm_orderedInsert _ r sorted

@[simp]
theorem mem_insertSorted {side : Side} {r s : Record P} {sorted : List (Record P)} :
    s ∈ insertSorted side r sorted ↔ s = r ∨ s ∈ sorted :=
  List.mem_orderedInsert _

/-- A list sorted by priority. -/
def Sorted (side : Side) (sorted : List (Record P)) : Prop :=
  sorted.Pairwise fun r s => before side r s = true

theorem Sorted.insertSorted {side : Side} {r : Record P} {sorted : List (Record P)}
    (ordered : Sorted side sorted) (fresh : ∀ s ∈ sorted, r.orderId ≠ s.orderId) :
    Sorted side (insertSorted side r sorted) := by
  rw [insertSorted_eq_orderedInsert]
  simp only [Sorted, before_eq_lt] at ordered ⊢
  exact pairwise_orderedInsert side.lt_strictWeak ordered fun s member =>
    Side.lt_or_lt (fresh s member)

/-- No record of a sorted side is priced better than its head. -/
theorem Sorted.head_best {side : Side} {r : Record P} {rest : List (Record P)}
    (ordered : Sorted side (r :: rest)) : ∀ s ∈ r :: rest, ¬ side.Better s.price r.price := by
  intro s member better
  rcases List.mem_cons.mp member with rfl | later
  · exact side.better_irrefl _ better
  · have first := (List.pairwise_cons.mp ordered).1 s later
    simp only [before, decide_eq_true_eq] at first
    rcases first with better' | ⟨equal, _⟩
    · exact side.better_irrefl _ (better.trans better')
    · rw [equal] at better
      exact side.better_irrefl _ better

end PpiwTrading.Exchange.Reference
