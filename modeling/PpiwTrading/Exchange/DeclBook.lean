import PpiwTrading.Common.Types
import PpiwTrading.Heap.Core

/-!
# The declaration book

The book keeps the resting records of each side in a heap.  The two record
types have the same fields and differ only in their comparison: the buy side
puts the highest price first, the sell side the lowest, and at equal prices
the smaller order id comes first on both.

The members of the two sides are copies of one another, so each is one shared
definition at the side's own list and comparison.  `Side` names a side where a
handler runs the same loop on either.
-/

namespace PpiwTrading.Exchange

open PpiwTrading.Heap

/-- A resting part of an order. -/
structure Record (P : Type) where
  orderId : Int
  price : P
  volume : Int
  deriving DecidableEq, Repr

/-- The two sides of the book. -/
inductive Side
  | buy
  | sell
  deriving DecidableEq, Repr

/-- The opposite side. -/
def Side.other : Side → Side
  | .buy => .sell
  | .sell => .buy

@[simp]
theorem Side.other_other (side : Side) : side.other.other = side := by
  cases side <;> rfl

theorem Side.eq_or_eq_other (any side : Side) : any = side ∨ any = side.other := by
  cases any <;> cases side <;> simp [Side.other]

section Comparisons

variable {P : Type} [LinearOrder P]

/-- `BuyRecord::operator<`. -/
def BuyRecord.lt (r s : Record P) : Bool :=
  if r.price = s.price then decide (r.orderId > s.orderId) else decide (r.price < s.price)

/-- `SellRecord::operator<`. -/
def SellRecord.lt (r s : Record P) : Bool :=
  if r.price = s.price then decide (r.orderId > s.orderId) else decide (r.price > s.price)

/-- The record comparison of a side. -/
def Side.lt : Side → Record P → Record P → Bool
  | .buy => BuyRecord.lt
  | .sell => SellRecord.lt

/-- A price is strictly better for the side that rests at it. -/
def Side.Better : Side → P → P → Prop
  | .buy, p, q => q < p
  | .sell, p, q => p < q

instance : (side : Side) → (p q : P) → Decidable (side.Better p q)
  | .buy, p, q => inferInstanceAs (Decidable (q < p))
  | .sell, p, q => inferInstanceAs (Decidable (p < q))

theorem Side.Better.trans {side : Side} {p q r : P} (first : side.Better p q)
    (second : side.Better q r) : side.Better p r := by
  cases side
  · exact lt_trans second first
  · exact lt_trans first second

theorem Side.better_irrefl (side : Side) (p : P) : ¬ side.Better p p := by
  cases side <;> exact lt_irrefl p

theorem Side.better_trichotomy (side : Side) (p q : P) :
    side.Better p q ∨ p = q ∨ side.Better q p := by
  cases side
  · exact (lt_trichotomy q p).imp_right (Or.imp_left Eq.symm)
  · exact lt_trichotomy p q

theorem Side.better_other {side : Side} {p q : P} :
    side.other.Better p q ↔ side.Better q p := by
  cases side <;> rfl

/-- Both comparisons order by price first and by order id at equal prices. -/
theorem Side.lt_iff {side : Side} {r s : Record P} :
    side.lt r s = true ↔
      side.Better s.price r.price ∨ r.price = s.price ∧ s.orderId < r.orderId := by
  cases side <;> by_cases equal : r.price = s.price <;>
    simp [Side.lt, BuyRecord.lt, SellRecord.lt, Side.Better, equal]

theorem Side.lt_strictWeak (side : Side) : StrictWeak (side.lt (P := P)) where
  asymm := by
    intro r s below
    rw [Bool.eq_false_iff]
    intro above
    rw [Side.lt_iff] at below above
    rcases below with better | ⟨equal, older⟩ <;>
      rcases above with better' | ⟨equal', older'⟩
    · exact side.better_irrefl _ (better.trans better')
    · rw [equal'] at better
      exact side.better_irrefl _ better
    · rw [equal] at better'
      exact side.better_irrefl _ better'
    · omega
  negTrans := by
    intro r s t first second
    rw [Bool.eq_false_iff] at first second ⊢
    rw [Ne, Side.lt_iff, not_or, not_and] at first second ⊢
    rcases side.better_trichotomy r.price s.price with better | equal | better
    · rcases side.better_trichotomy s.price t.price with better' | equal' | better'
      · have strict := better.trans better'
        exact ⟨fun reversed => side.better_irrefl _ (strict.trans reversed),
          fun same => absurd strict (by rw [same]; exact side.better_irrefl _)⟩
      · rw [← equal']
        exact ⟨first.1, fun same => absurd better (by rw [same]; exact side.better_irrefl _)⟩
      · exact absurd better' second.1
    · rw [equal]
      refine ⟨second.1, fun same => ?_⟩
      have older := first.2 equal
      have older' := second.2 same
      omega
    · exact absurd better first.1

/-- The comparisons do not read the volume. -/
theorem Side.sameKey (side : Side) (r : Record P) (volume : Int) :
    SameKey side.lt r { r with volume := volume } := by
  intro s
  cases side <;> exact ⟨rfl, rfl⟩

/-- Records with different ids are comparable. -/
theorem Side.lt_or_lt {side : Side} {r s : Record P} (distinct : r.orderId ≠ s.orderId) :
    side.lt r s = true ∨ side.lt s r = true := by
  rw [Side.lt_iff, Side.lt_iff]
  rcases side.better_trichotomy r.price s.price with better | equal | better
  · exact Or.inr (Or.inl better)
  · rcases lt_or_gt_of_ne distinct with older | older
    · exact Or.inr (Or.inr ⟨equal.symm, older⟩)
    · exact Or.inl (Or.inr ⟨equal, older⟩)
  · exact Or.inl (Or.inl better)

end Comparisons

/-- `class StockDeclarationBook`. -/
structure StockDeclarationBook (P : Type) where
  buyDecls : List (Record P)
  sellDecls : List (Record P)
  deriving DecidableEq, Repr

namespace StockDeclarationBook

variable {P : Type}

/-- The book of a freshly constructed `StockExchange`. -/
def empty : StockDeclarationBook P :=
  ⟨[], []⟩

/-- The heap of a side. -/
def decls (book : StockDeclarationBook P) : Side → List (Record P)
  | .buy => book.buyDecls
  | .sell => book.sellDecls

/-- The book with another heap on one side. -/
def setDecls (book : StockDeclarationBook P) : Side → List (Record P) → StockDeclarationBook P
  | .buy, decls => { book with buyDecls := decls }
  | .sell, decls => { book with sellDecls := decls }

@[simp]
theorem decls_setDecls (book : StockDeclarationBook P) (side : Side)
    (decls : List (Record P)) : (book.setDecls side decls).decls side = decls := by
  cases side <;> rfl

@[simp]
theorem decls_setDecls_other (book : StockDeclarationBook P) (side : Side)
    (decls : List (Record P)) :
    (book.setDecls side decls).decls side.other = book.decls side.other := by
  cases side <;> rfl

@[simp]
theorem decls_setDecls_of_other (book : StockDeclarationBook P) (side : Side)
    (decls : List (Record P)) :
    (book.setDecls side.other decls).decls side = book.decls side := by
  cases side <;> rfl

@[simp]
theorem setDecls_setDecls (book : StockDeclarationBook P) (side : Side)
    (first second : List (Record P)) :
    (book.setDecls side first).setDecls side second = book.setDecls side second := by
  cases side <;> rfl

@[simp]
theorem setDecls_decls (book : StockDeclarationBook P) (side : Side) :
    book.setDecls side (book.decls side) = book := by
  cases side <;> rfl

def queryBuyFirst (book : StockDeclarationBook P) : Option (Record P) :=
  book.buyDecls.head?

def querySellFirst (book : StockDeclarationBook P) : Option (Record P) :=
  book.sellDecls.head?

/-- The query of a side. -/
def queryFirst (book : StockDeclarationBook P) : Side → Option (Record P)
  | .buy => book.queryBuyFirst
  | .sell => book.querySellFirst

theorem queryFirst_eq_head? (book : StockDeclarationBook P) (side : Side) :
    book.queryFirst side = (book.decls side).head? := by
  cases side <;> rfl

/-- A write through the pointer `queryFirst` returned. -/
def writeFirst (book : StockDeclarationBook P) (side : Side) (r : Record P) :
    StockDeclarationBook P :=
  book.setDecls side ((book.decls side).set 0 r)

/-- `for (auto& r: decls) ret += r.volume`, in wrapping 32-bit arithmetic. -/
def totalVolume (decls : List (Record P)) : Int :=
  decls.foldl (fun ret r => wrapInt32 (ret + r.volume)) 0

def totalBuyVolume (book : StockDeclarationBook P) : Int :=
  totalVolume book.buyDecls

def totalSellVolume (book : StockDeclarationBook P) : Int :=
  totalVolume book.sellDecls

/-- The accumulated total is the wrapped exact sum. -/
theorem totalVolume_eq_wrapInt32_sum (decls : List (Record P)) :
    totalVolume decls = wrapInt32 (decls.map Record.volume).sum := by
  have general : ∀ (decls : List (Record P)) (start : Int),
      decls.foldl (fun ret r => wrapInt32 (ret + r.volume)) (wrapInt32 start) =
        wrapInt32 (start + (decls.map Record.volume).sum) := by
    intro decls
    induction decls with
    | nil => intro start; simp
    | cons r rest inductionHypothesis =>
        intro start
        have step : wrapInt32 (wrapInt32 start + r.volume) = wrapInt32 (start + r.volume) := by
          simp [wrapInt32]
        rw [List.foldl_cons, step, inductionHypothesis, List.map_cons, List.sum_cons,
          Int.add_assoc]
  simpa [wrapInt32, totalVolume] using general decls 0

section Updates

variable [LinearOrder P] (algorithms : HeapAlgorithms)

/-- The body of the two insertions. -/
def insertDecl (book : StockDeclarationBook P) (side : Side) (r : Record P) :
    Except Fault (StockDeclarationBook P) :=
  if r.volume = 0 then .error .zeroVolumeDecl
  else .ok (book.setDecls side (algorithms.insert side.lt (book.decls side) r))

def insertBuyDecl (book : StockDeclarationBook P) (br : Record P) :
    Except Fault (StockDeclarationBook P) :=
  book.insertDecl algorithms .buy br

def insertSellDecl (book : StockDeclarationBook P) (sr : Record P) :
    Except Fault (StockDeclarationBook P) :=
  book.insertDecl algorithms .sell sr

/-- The body of the two removals. -/
def removeFirst (book : StockDeclarationBook P) (side : Side) :
    Except Fault (StockDeclarationBook P) :=
  if (book.decls side).isEmpty then .error .removeFromEmpty
  else .ok (book.setDecls side (algorithms.removeFirst side.lt (book.decls side)))

def removeBuyFirst (book : StockDeclarationBook P) : Except Fault (StockDeclarationBook P) :=
  book.removeFirst algorithms .buy

def removeSellFirst (book : StockDeclarationBook P) : Except Fault (StockDeclarationBook P) :=
  book.removeFirst algorithms .sell

end Updates

end StockDeclarationBook

end PpiwTrading.Exchange
