import PpiwTrading.Common.Types

/-!
# The messages of an exchange and what a list of them says

An exchange sends acknowledgements and trades to every trader over one channel
for each trader.  What a trader knows about a stock is a function of the list
of messages it has received: the start of the window follows the last
acknowledgement, and the volume of the k-th trade is that of the k-th trade
message of the stock.
-/

namespace PpiwTrading

variable {P : Type}

/-- `TRADE_MSG` and `ORDER_ACK_MSG`, each with the one element the exchange
puts into it. -/
inductive Msg (P : Type)
  | trade (t : Trade P)
  | ack (a : OrderAck)

/-- The stock a message is about. -/
def Msg.stkCode : Msg P → Int
  | .trade t => t.stkCode
  | .ack a => a.stkCode

/-- The acknowledged ids of a stock, in order. -/
def acksOf (stkCode : Int) (log : List (Msg P)) : List Int :=
  log.filterMap fun
    | .trade _ => none
    | .ack a => if a.stkCode = stkCode then some a.orderId else none

/-- The trades of a stock, in order. -/
def tradesOf (stkCode : Int) (log : List (Msg P)) : List (Trade P) :=
  log.filterMap fun
    | .trade t => if t.stkCode = stkCode then some t else none
    | .ack _ => none

/-- The last acknowledged id of a stock, 0 if there is none. -/
def lastAck (stkCode : Int) (log : List (Msg P)) : Int :=
  (acksOf stkCode log).getLastD 0

/-- The volume of the k-th trade of a list, counting from 1, and -1 when there
is no such trade. -/
def tradeVolume (trades : List (Trade P)) (k : Int) : Int :=
  if 1 ≤ k then ((trades[(k - 1).toNat]?).map Trade.volume).getD (-1) else -1

/-! ## Appending to a log -/

section Append

variable (stkCode : Int) (log more : List (Msg P))

theorem acksOf_append : acksOf stkCode (log ++ more) = acksOf stkCode log ++ acksOf stkCode more :=
  List.filterMap_append

theorem tradesOf_append :
    tradesOf stkCode (log ++ more) = tradesOf stkCode log ++ tradesOf stkCode more :=
  List.filterMap_append

@[simp]
theorem acksOf_trade (trade : Trade P) : acksOf stkCode [Msg.trade trade] = [] :=
  rfl

@[simp]
theorem tradesOf_ack (ack : OrderAck) : tradesOf stkCode [(Msg.ack ack : Msg P)] = [] :=
  rfl

variable {stkCode}

@[simp]
theorem acksOf_ack_self {ack : OrderAck} (same : ack.stkCode = stkCode) :
    acksOf stkCode [(Msg.ack ack : Msg P)] = [ack.orderId] := by
  simp [acksOf, same]

@[simp]
theorem tradesOf_trade_self {trade : Trade P} (same : trade.stkCode = stkCode) :
    tradesOf stkCode [Msg.trade trade] = [trade] := by
  simp [tradesOf, same]

/-- A message about another stock adds no acknowledgement and no trade. -/
theorem acksOf_of_ne {msg : Msg P} (different : msg.stkCode ≠ stkCode) :
    acksOf stkCode [msg] = [] := by
  cases msg with
  | trade trade => rfl
  | ack ack => simp [acksOf, show ¬ ack.stkCode = stkCode from different]

theorem tradesOf_of_ne {msg : Msg P} (different : msg.stkCode ≠ stkCode) :
    tradesOf stkCode [msg] = [] := by
  cases msg with
  | trade trade => simp [tradesOf, show ¬ trade.stkCode = stkCode from different]
  | ack ack => rfl

/-- A log without messages about a stock has no acknowledgements and no trades
of it. -/
theorem acksOf_eq_nil {log : List (Msg P)} (foreign : ∀ msg ∈ log, msg.stkCode ≠ stkCode) :
    acksOf stkCode log = [] := by
  induction log with
  | nil => rfl
  | cons msg rest inductionHypothesis =>
      rw [← List.singleton_append, acksOf_append,
        acksOf_of_ne (foreign msg List.mem_cons_self),
        inductionHypothesis fun other member => foreign other (List.mem_cons_of_mem msg member)]
      rfl

theorem tradesOf_eq_nil {log : List (Msg P)} (foreign : ∀ msg ∈ log, msg.stkCode ≠ stkCode) :
    tradesOf stkCode log = [] := by
  induction log with
  | nil => rfl
  | cons msg rest inductionHypothesis =>
      rw [← List.singleton_append, tradesOf_append,
        tradesOf_of_ne (foreign msg List.mem_cons_self),
        inductionHypothesis fun other member => foreign other (List.mem_cons_of_mem msg member)]
      rfl

end Append

/-- The last acknowledged id is one of the acknowledged ids, or there is none. -/
theorem lastAck_eq_zero_or_mem (stkCode : Int) (log : List (Msg P)) :
    lastAck stkCode log = 0 ∨ lastAck stkCode log ∈ acksOf stkCode log :=
  List.mem_cons.mp List.getLastD_mem_cons

/-! ## The k-th trade -/

/-- A trade that is not there yet has the volume -1. -/
theorem tradeVolume_of_length_lt {trades : List (Trade P)} {k : Int}
    (missing : (trades.length : Int) < k) : tradeVolume trades k = -1 := by
  have beyond : trades.length ≤ (k - 1).toNat := by omega
  rw [tradeVolume, if_pos (by omega), List.getElem?_eq_none beyond]
  rfl

/-- A volume other than -1 is that of a trade. -/
theorem exists_trade_of_tradeVolume {trades : List (Trade P)} {k : Int}
    (known : tradeVolume trades k ≠ -1) :
    1 ≤ k ∧ ∃ trade, trades[(k - 1).toNat]? = some trade ∧
      trade.volume = tradeVolume trades k := by
  unfold tradeVolume at known ⊢
  split at known
  · rename_i positive
    refine ⟨positive, ?_⟩
    cases found : trades[(k - 1).toNat]? with
    | none =>
        rw [found] at known
        exact absurd rfl known
    | some trade => exact ⟨trade, rfl, by simp [positive]⟩
  · exact absurd rfl known

/-- A volume other than -1 stays when trades are appended. -/
theorem tradeVolume_append {trades more : List (Trade P)} {k : Int}
    (known : tradeVolume trades k ≠ -1) :
    tradeVolume (trades ++ more) k = tradeVolume trades k := by
  rcases exists_trade_of_tradeVolume known with ⟨positive, trade, found, volume⟩
  have bound := (List.getElem?_eq_some_iff.mp found).1
  rw [← volume, tradeVolume, if_pos positive, List.getElem?_append_left bound, found]
  rfl

/-- Appending a trade changes only the volume at its own number. -/
theorem tradeVolume_snoc (trades : List (Trade P)) (trade : Trade P) (k : Int) :
    tradeVolume (trades ++ [trade]) k =
      if k = trades.length + 1 then trade.volume else tradeVolume trades k := by
  by_cases last : k = trades.length + 1
  · rw [if_pos last, last]
    simp [tradeVolume]
  · rw [if_neg last]
    by_cases known : tradeVolume trades k = -1
    · by_cases beyond : (trades.length : Int) + 1 < k
      · rw [known]
        exact tradeVolume_of_length_lt (by simp; omega)
      · unfold tradeVolume at known ⊢
        split
        · rename_i positive
          rw [if_pos positive] at known
          rw [List.getElem?_append_left (by omega), known]
        · rfl
    · exact tradeVolume_append known

end PpiwTrading
