import Mathlib

/-!
# Orders, trades and 32-bit volumes

The records that travel between the traders and the exchanges.  All `int`
fields are integers; the price type is a parameter, and the code that compares
prices asks for a linear order, so no value of it behaves like a NaN.

Volumes are the only integers on which the matching engine computes.  A
subtraction whose result would leave the range of non-negative `int` values is
a fault of the model rather than a silent wrap, and the accumulation of a
whole side wraps at 32 bits.
-/

namespace PpiwTrading

/-- An order as the traders send it. -/
structure Order (P : Type) where
  stkCode : Int
  orderId : Int
  direction : Int
  type : Int
  price : P
  volume : Int
  deriving DecidableEq, Repr

/-- A trade as an exchange reports it. -/
structure Trade (P : Type) where
  stkCode : Int
  bidId : Int
  askId : Int
  price : P
  volume : Int
  deriving DecidableEq, Repr

/-- The acknowledgement of every order of a stock up to `orderId`. -/
structure OrderAck where
  stkCode : Int
  orderId : Int
  deriving DecidableEq, Repr

/-- The trade a hooked order waits for, and the bound on its volume. -/
structure HookTarget where
  targetStkCode : Int
  targetTradeIdx : Int
  arg : Int
  deriving DecidableEq, Repr

/-- The ways a modelled function can fail to return. -/
inductive Fault
  /-- `assert(br.volume != 0)` of the two insertions. -/
  | zeroVolumeDecl
  /-- `assert(!decls.empty())` of the two removals. -/
  | removeFromEmpty
  /-- `assert(sr)` of `handleWholeOrCancel`. -/
  | noCounterparty
  /-- `assert(order.stk_code == stk_code)` of `receiveOrder`. -/
  | wrongStock
  /-- `ASSERT(!avaliable_[idx])` of `SlidingWindow::put`, which throws. -/
  | slotTaken
  /-- An index of `SlidingWindow::put` outside of its vectors. -/
  | outsideWindow
  /-- `order_buffer.at` on a stock of another exchange, which throws. -/
  | unknownStock
  /-- The monotonicity `assert` of `update_sliding_window_start`. -/
  | windowMovedBack
  /-- The `assert` of `update_if_hooked`: only update once. -/
  | hookUpdatedTwice
  /-- The `assert(false)` of `get_hooked_volume`. -/
  | unhookedTrade
  /-- A subtraction on a volume left the non-negative `int` range. -/
  | volumeRange
  /-- A loop of the model was given too small a bound. -/
  | loopBound
  deriving DecidableEq, Repr

@[simp]
theorem ok_bind {α β : Type} (a : α) (next : α → Except Fault β) :
    ((Except.ok a : Except Fault α) >>= next) = next a :=
  rfl

@[simp]
theorem error_bind {α β : Type} (fault : Fault) (next : α → Except Fault β) :
    ((Except.error fault : Except Fault α) >>= next) = .error fault :=
  rfl

@[simp]
theorem pure_eq_ok {α : Type} (a : α) : (pure a : Except Fault α) = .ok a :=
  rfl

/-- A computation returns exactly when both of its parts do. -/
theorem bind_eq_ok_iff {α β : Type} {first : Except Fault α} {next : α → Except Fault β}
    {b : β} : first >>= next = .ok b ↔ ∃ a, first = .ok a ∧ next a = .ok b := by
  cases first with
  | error fault => simp
  | ok a => simp

/-- The greatest value of a 32-bit `int`. -/
def intMax : Int := 2 ^ 31 - 1

/-- Two's-complement wrap of an integer to 32 bits. -/
def wrapInt32 (n : Int) : Int :=
  n.bmod (2 ^ 32)

/-- A subtraction on `left_volume` or on the volume of a record. -/
def subVolume (a b : Int) : Except Fault Int :=
  if 0 ≤ a - b ∧ a - b ≤ intMax then .ok (a - b) else .error .volumeRange

theorem subVolume_eq_ok {a b : Int} (lower : b ≤ a) (upper : a - b ≤ intMax) :
    subVolume a b = .ok (a - b) :=
  if_pos ⟨by omega, upper⟩

/-- Wrapping never increases a non-negative integer. -/
theorem wrapInt32_le {n : Int} (nonnegative : 0 ≤ n) : wrapInt32 n ≤ n := by
  unfold wrapInt32
  rw [Int.bmod_def]
  split <;> omega

end PpiwTrading
