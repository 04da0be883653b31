import PpiwTrading.Common.Types

/-!
# The configuration of a system

How many traders, exchanges and stocks there are and how long the sliding
window is.  Stock codes start at 1, and a stock belongs to the exchange whose
partition index is its code modulo the number of exchanges.
-/

namespace PpiwTrading

structure Config where
  traderNum : Nat
  exchangeNum : Nat
  stockNum : Nat
  slidingWindowSize : Nat

namespace Config

variable (config : Config)

/-- `stk_code % Config::exchange_num`. -/
def exchangeOf (stkCode : Int) : Nat :=
  (stkCode.tmod config.exchangeNum).toNat

/-- The stock codes in use. -/
def Listed (stkCode : Int) : Prop :=
  1 ≤ stkCode ∧ stkCode ≤ config.stockNum

instance (stkCode : Int) : Decidable (config.Listed stkCode) :=
  inferInstanceAs (Decidable (1 ≤ stkCode ∧ stkCode ≤ config.stockNum))

/-- The stocks of the exchange with a partition index. -/
def Owns (partitionIdx : Nat) (stkCode : Int) : Prop :=
  config.Listed stkCode ∧ config.exchangeOf stkCode = partitionIdx

instance (partitionIdx : Nat) (stkCode : Int) : Decidable (config.Owns partitionIdx stkCode) :=
  inferInstanceAs (Decidable (config.Listed stkCode ∧ config.exchangeOf stkCode = partitionIdx))

/-- The capacity of the queue of an order sender. -/
def orderQueueCapacity : Nat :=
  config.slidingWindowSize * config.stockNum / config.exchangeNum

/-- The capacity of the queue of a trade sender. -/
def msgQueueCapacity : Nat :=
  config.slidingWindowSize * config.stockNum / 2

theorem exchangeOf_lt (positive : 0 < config.exchangeNum) (stkCode : Int) :
    config.exchangeOf stkCode < config.exchangeNum := by
  have bound := Int.tmod_lt_of_pos stkCode (Int.natCast_pos.mpr positive)
  unfold exchangeOf
  omega

end Config

end PpiwTrading
