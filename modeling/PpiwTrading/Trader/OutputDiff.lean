import PpiwTrading.Trader.TradeLog

/-!
# Comparing trade files

The program `output_diff` compares two trade files as far as both go and reports the
first position at which they differ.

Prices are compared as `double` values.  The comparison is a parameter: it says that
a price is equal to itself exactly when the price is a number.
-/

namespace PpiwTrading.Trader

variable (samePrice : UInt64 → UInt64 → Bool)

/-- `operator!=` of two trades. -/
def tradeNe (t1 t2 : Trade UInt64) : Bool :=
  if t1.stkCode ≠ t2.stkCode then true
  else if t1.askId ≠ t2.askId then true
  else if t1.bidId ≠ t2.bidId then true
  else if ¬ samePrice t1.price t2.price then true
  else if t1.volume ≠ t2.volume then true
  else false

/-- The loop of `output_diff` from index `i` on: the index it reports. -/
def diffFrom (i : Nat) : List (Trade UInt64) → List (Trade UInt64) → Option Nat
  | answer :: answers, output :: outputs =>
      if tradeNe samePrice answer output then some i else diffFrom (i + 1) answers outputs
  | _, _ => none

/-- What `output_diff` reports for two trade files. -/
def outputDiff (answer output : List UInt8) : Option Nat :=
  diffFrom samePrice 0 (readTradeFromFile answer) (readTradeFromFile output)

variable {samePrice}

theorem tradeNe_self {trade : Trade UInt64} (number : samePrice trade.price trade.price = true) :
    tradeNe samePrice trade trade = false := by
  simp [tradeNe, number]

/-- The loop looks for the first pair of trades that differ. -/
theorem diffFrom_eq (i : Nat) (answers outputs : List (Trade UInt64)) :
    diffFrom samePrice i answers outputs =
      ((answers.zip outputs).findIdx? fun pair => tradeNe samePrice pair.1 pair.2).map
        fun k => i + k := by
  induction answers generalizing i outputs with
  | nil => rfl
  | cons answer answers inductionHypothesis =>
      cases outputs with
      | nil => rfl
      | cons output outputs =>
          rw [diffFrom, List.zip_cons_cons, List.findIdx?_cons]
          split
          · rfl
          · rw [inductionHypothesis, Option.map_map]
            congr 1
            funext k
            exact Nat.add_right_comm i 1 k

theorem diffFrom_eq_none {i : Nat} {answers outputs : List (Trade UInt64)} :
    diffFrom samePrice i answers outputs = none ↔
      ∀ pair ∈ answers.zip outputs, tradeNe samePrice pair.1 pair.2 = false := by
  rw [diffFrom_eq, Option.map_eq_none_iff, List.findIdx?_eq_none_iff]

theorem eq_of_mem_zip_prefix {α : Type} {first second : List α} (isPrefix : first <+: second)
    {pair : α × α} (member : pair ∈ first.zip second) : pair.1 = pair.2 ∧ pair.1 ∈ first := by
  rcases isPrefix with ⟨more, rfl⟩
  induction first with
  | nil => cases member
  | cons a rest inductionHypothesis =>
      rcases List.mem_cons.mp member with rfl | later
      · exact ⟨rfl, List.mem_cons_self⟩
      · rcases inductionHypothesis later with ⟨same, inRest⟩
        exact ⟨same, List.mem_cons_of_mem a inRest⟩

/-- No difference is found between lists of which one is an initial part of the other. -/
theorem diffFrom_of_comparable {first second : List (Trade UInt64)}
    (numbers : ∀ trade ∈ first, samePrice trade.price trade.price = true)
    (numbers' : ∀ trade ∈ second, samePrice trade.price trade.price = true)
    (comparable : first <+: second ∨ second <+: first) (i : Nat) :
    diffFrom samePrice i first second = none := by
  rw [diffFrom_eq_none]
  intro pair member
  rcases comparable with shorter | longer
  · rcases eq_of_mem_zip_prefix shorter member with ⟨same, inFirst⟩
    rw [← same]
    exact tradeNe_self (numbers _ inFirst)
  · rw [← List.zip_swap, List.mem_map] at member
    rcases member with ⟨swapped, inZip, rfl⟩
    rcases eq_of_mem_zip_prefix longer inZip with ⟨same, inSecond⟩
    change tradeNe samePrice swapped.2 swapped.1 = false
    rw [← same]
    exact tradeNe_self (numbers' _ inSecond)

end PpiwTrading.Trader
