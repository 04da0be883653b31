import PpiwTrading.Common.ConfigFile
import PpiwTrading.Common.Types

/-!
# The network configuration

The addresses of the traders and the exchanges and the port pairs between them,
one of these on a line.  The loop of `load_network_config` declares its key
before the loop and two ports in every round, and does not ask whether a line
gave them; what a port holds that was never read is a parameter.
-/

namespace PpiwTrading

open Sequence Text

/-- The least value of an `int`. -/
def intMin : Int := -2 ^ 31

/-- What `load_network_config` fills, and the errors that it logs. -/
structure NetworkConfig where
  tradersAddr : Fin 2 → List Char
  exchangesAddr : Fin 2 → List Char
  traderPort2exchangePort : Fin 2 → Fin 2 → List (Int × Int)
  errors : List (List Char)

namespace NetworkConfig

/-- The previous configuration is cleared. -/
def cleared : NetworkConfig :=
  ⟨fun _ => [], fun _ => [], fun _ _ => [], []⟩

/-- `iss >> Config::traders_addr[i]`. -/
def readTraderAddr (config : NetworkConfig) (i : Fin 2) (iss : IStream) : NetworkConfig :=
  { config with
    tradersAddr := Function.update config.tradersAddr i (iss.getString (config.tradersAddr i)).1 }

/-- `iss >> Config::exchanges_addr[j]`. -/
def readExchangeAddr (config : NetworkConfig) (j : Fin 2) (iss : IStream) : NetworkConfig :=
  { config with
    exchangesAddr :=
      Function.update config.exchangesAddr j (iss.getString (config.exchangesAddr j)).1 }

/-- `iss >> trader_port >> exchange_port`, into two variables that hold `uninit`. -/
def portPair (iss : IStream) (uninit : Int × Int) : Int × Int :=
  let (traderPort, iss) := iss.getInt intMin intMax uninit.1
  let (exchangePort, _) := iss.getInt intMin intMax uninit.2
  (traderPort, exchangePort)

/-- `trader_port2exchange_port[i][j].push_back({trader_port, exchange_port})`. -/
def pushPorts (config : NetworkConfig) (i j : Fin 2) (ports : Int × Int) : NetworkConfig :=
  { config with
    traderPort2exchangePort :=
      Function.update config.traderPort2exchangePort i
        (Function.update (config.traderPort2exchangePort i) j
          (config.traderPort2exchangePort i j ++ [ports])) }

/-- What the loop does with a line under the key `row`. -/
def readRow (config : NetworkConfig) (row : List Char) (iss : IStream) (uninit : Int × Int) :
    NetworkConfig :=
  if row = "trader0".toList then config.readTraderAddr 0 iss
  else if row = "trader1".toList then config.readTraderAddr 1 iss
  else if row = "exchange0".toList then config.readExchangeAddr 0 iss
  else if row = "exchange1".toList then config.readExchangeAddr 1 iss
  else if row = "trader0:exchange0".toList then config.pushPorts 0 0 (portPair iss uninit)
  else if row = "trader0:exchange1".toList then config.pushPorts 0 1 (portPair iss uninit)
  else if row = "trader1:exchange0".toList then config.pushPorts 1 0 (portPair iss uninit)
  else if row = "trader1:exchange1".toList then config.pushPorts 1 1 (portPair iss uninit)
  else { config with errors := config.errors ++ ["Unsupport item:".toList ++ row] }

end NetworkConfig

/-- The variables of `load_network_config`; `round` counts the lines that were not
skipped. -/
structure NetworkState where
  round : Nat
  row : List Char
  config : NetworkConfig

/-- What `load_network_config` does with a line that it does not skip; `uninit` is
what the two ports of each round hold before they are read. -/
def networkLine (uninit : Nat → Int × Int) (state : NetworkState) (line : List Char) :
    NetworkState :=
  let (row, iss) := (IStream.ofText line).getString state.row
  ⟨state.round + 1, row, state.config.readRow row iss (uninit state.round)⟩

/-- The loop of `load_network_config`. -/
def networkLoop (uninit : Nat → Int × Int) (ls : List (List Char)) : NetworkState :=
  ls.foldl (fun state line => if skipped line then state else networkLine uninit state line)
    ⟨0, [], NetworkConfig.cleared⟩

def loadNetworkConfig (uninit : Nat → Int × Int) (text : List Char) : NetworkConfig :=
  (networkLoop uninit (lines text)).config

/-! ### What a file says -/

def traderKey : Fin 2 → List Char
  | 0 => "trader0".toList
  | 1 => "trader1".toList

def exchangeKey : Fin 2 → List Char
  | 0 => "exchange0".toList
  | 1 => "exchange1".toList

/-- The key of the port pairs between a trader and an exchange. -/
def portKey : Fin 2 → Fin 2 → List Char
  | 0, 0 => "trader0:exchange0".toList
  | 0, 1 => "trader0:exchange1".toList
  | 1, 0 => "trader1:exchange0".toList
  | 1, 1 => "trader1:exchange1".toList

/-- The port pair that a line gives: its tokens are the key and two integers, and
`trailing` says what may stand behind them. -/
def portsFor (trailing : List (List Char) → Bool) (i j : Fin 2) (line : List Char) :
    Option (Int × Int) :=
  match tokens line with
  | key :: first :: second :: others =>
      if key = portKey i j ∧ trailing others = true then
        (intOfToken intMin intMax first).bind fun traderPort =>
          (intOfToken intMin intMax second).map fun exchangePort => (traderPort, exchangePort)
      else none
  | _ => none

/-- The port pairs are pairs of the file in file order, the addresses are the last
ones of the file, and no line takes its key from an earlier one. -/
structure NetworkIndependent (trailing : List (List Char) → Bool) (uninit : Nat → Int × Int)
    (text : List Char) : Prop where
  ports : ∀ i j, ((loadNetworkConfig uninit text).traderPort2exchangePort i j).Sublist
    ((significantLines text).filterMap (portsFor trailing i j))
  traders : ∀ i, (loadNetworkConfig uninit text).tradersAddr i =
    ((significantLines text).filterMap (valueFor (traderKey i))).getLast?.getD []
  exchanges : ∀ j, (loadNetworkConfig uninit text).exchangesAddr j =
    ((significantLines text).filterMap (valueFor (exchangeKey j))).getLast?.getD []
  alone : ∀ before line after, significantLines text = before ++ line :: after →
    (networkLoop uninit (before ++ [line])).row = (networkLoop uninit [line]).row

/-- Every line with the key of a port pair has the whole pair, and the lines
without a key stand before all lines with one. -/
structure NetworkFilled (trailing : List (List Char) → Bool) (text : List Char) : Prop where
  whole : ∀ line ∈ significantLines text, ∀ i j, keyOf line = some (portKey i j) →
    (portsFor trailing i j line).isSome
  keyed : ∀ before line after, significantLines text = before ++ line :: after →
    keyOf line = none → ∀ earlier ∈ before, keyOf earlier = none

theorem traderKey_injective : ∀ i k, traderKey i = traderKey k → i = k := by
  decide

theorem exchangeKey_injective : ∀ i k, exchangeKey i = exchangeKey k → i = k := by
  decide

theorem portKey_injective : ∀ i j k l, portKey i j = portKey k l → i = k ∧ j = l := by
  decide

theorem traderKey_ne_exchangeKey : ∀ i j, traderKey i ≠ exchangeKey j := by
  decide

theorem portKey_ne_traderKey : ∀ i j k, portKey i j ≠ traderKey k := by
  decide

theorem portKey_ne_exchangeKey : ∀ i j k, portKey i j ≠ exchangeKey k := by
  decide

theorem portKey_ne_nil : ∀ i j, portKey i j ≠ [] := by
  decide

namespace NetworkConfig

variable (config : NetworkConfig) (row : List Char) (iss : IStream) (uninit : Int × Int)

/-- What a line can do. -/
theorem readRow_cases :
    (∃ i, row = traderKey i ∧ config.readRow row iss uninit = config.readTraderAddr i iss) ∨
    (∃ j, row = exchangeKey j ∧
      config.readRow row iss uninit = config.readExchangeAddr j iss) ∨
    (∃ i j, row = portKey i j ∧
      config.readRow row iss uninit = config.pushPorts i j (portPair iss uninit)) ∨
    ((∀ i, row ≠ traderKey i) ∧ (∀ j, row ≠ exchangeKey j) ∧ (∀ i j, row ≠ portKey i j) ∧
      config.readRow row iss uninit =
        { config with errors := config.errors ++ ["Unsupport item:".toList ++ row] }) := by
  unfold readRow
  by_cases trader0 : row = "trader0".toList
  · rw [if_pos trader0]
    exact Or.inl ⟨0, trader0, rfl⟩
  rw [if_neg trader0]
  by_cases trader1 : row = "trader1".toList
  · rw [if_pos trader1]
    exact Or.inl ⟨1, trader1, rfl⟩
  rw [if_neg trader1]
  by_cases exchange0 : row = "exchange0".toList
  · rw [if_pos exchange0]
    exact Or.inr (Or.inl ⟨0, exchange0, rfl⟩)
  rw [if_neg exchange0]
  by_cases exchange1 : row = "exchange1".toList
  · rw [if_pos exchange1]
    exact Or.inr (Or.inl ⟨1, exchange1, rfl⟩)
  rw [if_neg exchange1]
  by_cases pair00 : row = "trader0:exchange0".toList
  · rw [if_pos pair00]
    exact Or.inr (Or.inr (Or.inl ⟨0, 0, pair00, rfl⟩))
  rw [if_neg pair00]
  by_cases pair01 : row = "trader0:exchange1".toList
  · rw [if_pos pair01]
    exact Or.inr (Or.inr (Or.inl ⟨0, 1, pair01, rfl⟩))
  rw [if_neg pair01]
  by_cases pair10 : row = "trader1:exchange0".toList
  · rw [if_pos pair10]
    exact Or.inr (Or.inr (Or.inl ⟨1, 0, pair10, rfl⟩))
  rw [if_neg pair10]
  by_cases pair11 : row = "trader1:exchange1".toList
  · rw [if_pos pair11]
    exact Or.inr (Or.inr (Or.inl ⟨1, 1, pair11, rfl⟩))
  rw [if_neg pair11]
  refine Or.inr (Or.inr (Or.inr ⟨?_, ?_, ?_, rfl⟩))
  · rw [Fin.forall_fin_two]
    exact ⟨trader0, trader1⟩
  · rw [Fin.forall_fin_two]
    exact ⟨exchange0, exchange1⟩
  · simp only [Fin.forall_fin_two]
    exact ⟨⟨pair00, pair01⟩, pair10, pair11⟩

/-- Only a line under the key of a trader reads its address. -/
theorem readRow_tradersAddr (i : Fin 2) :
    (config.readRow row iss uninit).tradersAddr i =
      if row = traderKey i then (iss.getString (config.tradersAddr i)).1
      else config.tradersAddr i := by
  rcases config.readRow_cases row iss uninit with
    ⟨k, rfl, did⟩ | ⟨k, rfl, did⟩ | ⟨k, l, rfl, did⟩ | ⟨other, _, _, did⟩
  · rw [did]
    by_cases same : i = k
    · subst same
      simp [readTraderAddr]
    · have differ : traderKey k ≠ traderKey i := fun eq => same (traderKey_injective k i eq).symm
      simp [readTraderAddr, same, differ]
  · rw [did, if_neg (traderKey_ne_exchangeKey i k).symm]
    rfl
  · rw [did, if_neg (portKey_ne_traderKey k l i)]
    rfl
  · rw [did, if_neg (other i)]

/-- Only a line under the key of an exchange reads its address. -/
theorem readRow_exchangesAddr (j : Fin 2) :
    (config.readRow row iss uninit).exchangesAddr j =
      if row = exchangeKey j then (iss.getString (config.exchangesAddr j)).1
      else config.exchangesAddr j := by
  rcases config.readRow_cases row iss uninit with
    ⟨k, rfl, did⟩ | ⟨k, rfl, did⟩ | ⟨k, l, rfl, did⟩ | ⟨_, other, _, did⟩
  · rw [did, if_neg (traderKey_ne_exchangeKey k j)]
    rfl
  · rw [did]
    by_cases same : j = k
    · subst same
      simp [readExchangeAddr]
    · have differ : exchangeKey k ≠ exchangeKey j :=
        fun eq => same (exchangeKey_injective k j eq).symm
      simp [readExchangeAddr, same, differ]
  · rw [did, if_neg (portKey_ne_exchangeKey k l j)]
    rfl
  · rw [did, if_neg (other j)]

/-- Only a line under the key of a trader and an exchange adds to their pairs. -/
theorem readRow_ports (i j : Fin 2) :
    (config.readRow row iss uninit).traderPort2exchangePort i j =
      config.traderPort2exchangePort i j ++
        if row = portKey i j then [portPair iss uninit] else [] := by
  rcases config.readRow_cases row iss uninit with
    ⟨k, rfl, did⟩ | ⟨k, rfl, did⟩ | ⟨k, l, rfl, did⟩ | ⟨_, _, other, did⟩
  · rw [did, if_neg (portKey_ne_traderKey i j k).symm, List.append_nil]
    rfl
  · rw [did, if_neg (portKey_ne_exchangeKey i j k).symm, List.append_nil]
    rfl
  · rw [did]
    by_cases same : k = i ∧ l = j
    · rcases same with ⟨rfl, rfl⟩
      simp [pushPorts]
    · have differ : portKey k l ≠ portKey i j := fun eq => same (portKey_injective k l i j eq)
      rw [if_neg differ, List.append_nil]
      by_cases sameTrader : i = k
      · subst sameTrader
        have otherExchange : j ≠ l := fun eq => same ⟨rfl, eq.symm⟩
        simp [pushPorts, otherExchange]
      · simp [pushPorts, sameTrader]
  · rw [did, if_neg (other i j), List.append_nil]

end NetworkConfig

/-! ### Lines one by one -/

theorem networkLine_row (uninit : Nat → Int × Int) (state : NetworkState) (line : List Char) :
    (networkLine uninit state line).row = (keyOf line).getD state.row :=
  IStream.getString_fst (IStream.reads_ofText line) state.row

/-- A line adds one pair to the pairs of its key, or of the key carried to it. -/
theorem networkLine_ports (uninit : Nat → Int × Int) (state : NetworkState) (line : List Char)
    (i j : Fin 2) :
    (networkLine uninit state line).config.traderPort2exchangePort i j =
      state.config.traderPort2exchangePort i j ++
        if (keyOf line).getD state.row = portKey i j then
          [NetworkConfig.portPair ((IStream.ofText line).getString state.row).2
            (uninit state.round)]
        else [] := by
  rw [← networkLine_row uninit]
  exact NetworkConfig.readRow_ports state.config _ _ (uninit state.round) i j

/-- An address that a line under a key reads is the value that the line gives to
the key; a line that took its key from an earlier one reads nothing. -/
theorem getString_valueFor (row key addr line : List Char) :
    (if (keyOf line).getD row = key then
        (((IStream.ofText line).getString row).2.getString addr).1
      else addr) = (valueFor key line).getD addr := by
  rw [IStream.getString_getString_fst (IStream.reads_ofText line)]
  change (if (keyOf line).getD row = key then (valueOf line).getD addr else addr) = _
  unfold valueFor
  cases keyed : keyOf line with
  | some own =>
      simp only [Option.getD_some, Option.some.injEq]
      split_ifs <;> rfl
  | none =>
      rw [valueOf_eq_none_of_keyOf keyed]
      simp

theorem networkLine_tradersAddr (uninit : Nat → Int × Int) (state : NetworkState)
    (line : List Char) (i : Fin 2) :
    (networkLine uninit state line).config.tradersAddr i =
      (valueFor (traderKey i) line).getD (state.config.tradersAddr i) := by
  rw [← getString_valueFor state.row, ← networkLine_row uninit]
  exact NetworkConfig.readRow_tradersAddr state.config _ _ (uninit state.round) i

theorem networkLine_exchangesAddr (uninit : Nat → Int × Int) (state : NetworkState)
    (line : List Char) (j : Fin 2) :
    (networkLine uninit state line).config.exchangesAddr j =
      (valueFor (exchangeKey j) line).getD (state.config.exchangesAddr j) := by
  rw [← getString_valueFor state.row, ← networkLine_row uninit]
  exact NetworkConfig.readRow_exchangesAddr state.config _ _ (uninit state.round) j

/-- A line that gives a pair to a key has that key, and its pair is what the
extractions leave in the two ports. -/
theorem portsFor_eq_some {trailing : List (List Char) → Bool} {i j : Fin 2} {line : List Char}
    {ports : Int × Int} (gives : portsFor trailing i j line = some ports) :
    keyOf line = some (portKey i j) ∧
      ∀ row uninit,
        NetworkConfig.portPair ((IStream.ofText line).getString row).2 uninit = ports := by
  have reads := IStream.reads_ofText line
  unfold portsFor at gives
  unfold keyOf
  cases found : tokens line with
  | nil => simp [found] at gives
  | cons key more =>
      match more with
      | [] => simp [found] at gives
      | [_] => simp [found] at gives
      | first :: second :: others =>
          rw [found] at gives reads
          simp only [Option.ite_none_right_eq_some, Option.bind_eq_some_iff,
            Option.map_eq_some_iff] at gives
          rcases gives with ⟨⟨rfl, _⟩, traderPort, firstInt, exchangePort, secondInt, rfl⟩
          use rfl
          intro row uninit
          have afterKey := (IStream.getString_of_cons reads row).2
          rcases IStream.getInt_of_cons afterKey firstInt uninit.1 with ⟨firstEq, afterFirst⟩
          have secondEq := (IStream.getInt_of_cons afterFirst secondInt uninit.2).1
          simp only [NetworkConfig.portPair, firstEq, secondEq]

variable {uninit : Nat → Int × Int}

theorem networkLoop_concat (uninit : Nat → Int × Int) (ls : List (List Char)) {line : List Char}
    (kept : skipped line = false) :
    networkLoop uninit (ls ++ [line]) = networkLine uninit (networkLoop uninit ls) line := by
  simp [networkLoop, kept]

/-- The key and the addresses are carried from line to line. -/
theorem networkLoop_carried (uninit : Nat → Int × Int) {ls : List (List Char)}
    (kept : ∀ line ∈ ls, skipped line = false) :
    (networkLoop uninit ls).row = carried keyOf [] ls ∧
      (∀ i, (networkLoop uninit ls).config.tradersAddr i =
        carried (valueFor (traderKey i)) [] ls) ∧
      ∀ j, (networkLoop uninit ls).config.exchangesAddr j =
        carried (valueFor (exchangeKey j)) [] ls := by
  induction ls using List.reverseRecOn with
  | nil => exact ⟨rfl, fun _ => rfl, fun _ => rfl⟩
  | append_singleton ls line inductionHypothesis =>
      rw [List.forall_mem_append, List.forall_mem_singleton] at kept
      rcases inductionHypothesis kept.1 with ⟨row, traders, exchanges⟩
      rw [networkLoop_concat uninit ls kept.2]
      refine ⟨?_, ?_, ?_⟩
      · rw [networkLine_row, carried_concat, row]
      · intro i
        rw [networkLine_tradersAddr, carried_concat, traders]
      · intro j
        rw [networkLine_exchangesAddr, carried_concat, exchanges]

theorem loadNetworkConfig_eq (uninit : Nat → Int × Int) (text : List Char) :
    loadNetworkConfig uninit text = (networkLoop uninit (significantLines text)).config := by
  rw [networkLoop, foldl_significantLines]
  rfl

/-- Every line with the key of a port pair adds one to its pairs. -/
theorem length_filter_keyOf_le (uninit : Nat → Int × Int) (i j : Fin 2) {ls : List (List Char)}
    (kept : ∀ line ∈ ls, skipped line = false) :
    (ls.filter fun line => decide (keyOf line = some (portKey i j))).length ≤
      ((networkLoop uninit ls).config.traderPort2exchangePort i j).length := by
  induction ls using List.reverseRecOn with
  | nil => exact Nat.zero_le _
  | append_singleton ls line inductionHypothesis =>
      rw [List.forall_mem_append, List.forall_mem_singleton] at kept
      rw [networkLoop_concat uninit ls kept.2, networkLine_ports, List.filter_append,
        List.length_append, List.length_append]
      apply Nat.add_le_add (inductionHypothesis kept.1)
      by_cases keyed : keyOf line = some (portKey i j)
      · simp [keyed]
      · simp [keyed]

section

variable {trailing : List (List Char) → Bool} {text : List Char}

theorem networkRow_alone_iff {before after : List (List Char)} {line : List Char}
    (split : significantLines text = before ++ line :: after) :
    (networkLoop uninit (before ++ [line])).row = (networkLoop uninit [line]).row ↔
      (keyOf line = none → ∀ earlier ∈ before, keyOf earlier = none) := by
  apply alone_iff split (fun ls => (networkLoop uninit ls).row) keyOf_ne_nil
  intro ls kept
  exact (networkLoop_carried uninit kept).1

/-- The pairs are exactly those that the lines give. -/
theorem NetworkFilled.ports_eq (filled : NetworkFilled trailing text) (i j : Fin 2)
    {p q : List (List Char)} (split : significantLines text = p ++ q) :
    (networkLoop uninit p).config.traderPort2exchangePort i j =
      p.filterMap (portsFor trailing i j) := by
  induction p using List.reverseRecOn generalizing q with
  | nil => rfl
  | append_singleton p line inductionHypothesis =>
      rw [List.append_assoc, List.singleton_append] at split
      rcases skipped_of_split split with ⟨keptBefore, kept⟩
      rw [networkLoop_concat uninit p kept, networkLine_ports, inductionHypothesis split,
        List.filterMap_append, (networkLoop_carried uninit keptBefore).1]
      congr 1
      cases gives : portsFor trailing i j line with
      | some ports =>
          rcases portsFor_eq_some gives with ⟨keyed, pair⟩
          rw [keyed, Option.getD_some, if_pos rfl, pair]
          simp [gives]
      | none =>
          rw [if_neg]
          · simp [gives]
          · intro isPort
            cases keyed : keyOf line with
            | some key =>
                rw [keyed, Option.getD_some] at isPort
                have whole := filled.whole line (by simp [split]) i j (by rw [keyed, isPort])
                simp [gives] at whole
            | none =>
                have noKey := (carried_eq_start_iff keyOf_ne_nil).mpr
                  (filled.keyed p line q split keyed)
                rw [keyed, Option.getD_none, noKey] at isPort
                exact portKey_ne_nil i j isPort.symm

theorem NetworkFilled.independent (filled : NetworkFilled trailing text) :
    NetworkIndependent trailing uninit text := by
  have kept : ∀ line ∈ significantLines text, skipped line = false := fun _ => skipped_of_mem
  have addresses := networkLoop_carried uninit kept
  rw [← loadNetworkConfig_eq] at addresses
  constructor
  · intro i j
    rw [loadNetworkConfig_eq, filled.ports_eq i j (List.append_nil _).symm]
  · intro i
    rw [addresses.2.1, carried_eq_getLast?]
  · intro j
    rw [addresses.2.2, carried_eq_getLast?]
  · intro before line after split
    rw [networkRow_alone_iff split]
    exact filled.keyed before line after split

theorem NetworkIndependent.filled (independent : NetworkIndependent trailing uninit text) :
    NetworkFilled trailing text := by
  constructor
  · intro line mem i j keyed
    -- The lines that give a pair are among those with the key, and not fewer.
    let giving := (significantLines text).filter fun line => (portsFor trailing i j line).isSome
    let keyedLines := (significantLines text).filter
      fun line => decide (keyOf line = some (portKey i j))
    have among : giving.Sublist keyedLines := by
      apply List.monotone_filter_right
      intro giver gives
      rcases Option.isSome_iff_exists.mp gives with ⟨ports, gives⟩
      simpa using (portsFor_eq_some gives).1
    have enough : keyedLines.length ≤ giving.length := by
      apply le_trans (length_filter_keyOf_le uninit i j fun _ => skipped_of_mem)
      rw [← loadNetworkConfig_eq, ← List.countP_eq_length_filter,
        ← List.length_filterMap_eq_countP]
      exact (independent.ports i j).length_le
    have given : line ∈ giving := by
      rw [among.eq_of_length_le enough, List.mem_filter]
      exact ⟨mem, by simp [keyed]⟩
    exact (List.mem_filter.mp given).2
  · intro before line after split
    rw [← networkRow_alone_iff split]
    exact independent.alone before line after split

end

/-- The lines of configuration files are independent exactly when the files have
no line that lacks a key or a value which an earlier line could leave to it. -/
theorem configLines_independent_iff (trailing : List (List Char) → Bool)
    (uninit : Nat → Int × Int) (text : List Char) :
    (ItemsIndependent text ↔ ItemsFilled text) ∧
      (NetworkIndependent trailing uninit text ↔ NetworkFilled trailing text) :=
  ⟨⟨ItemsIndependent.filled, ItemsFilled.independent⟩,
    ⟨NetworkIndependent.filled, NetworkFilled.independent⟩⟩

/-- A key without a value takes the value of the line above, and a line with a
space only adds a second pair to the key of the line above. -/
theorem configLines_not_independent :
    ¬ItemsIndependent "sliding_window_size 10000\nstock_num\n".toList ∧
      ¬NetworkIndependent (fun _ => true) (fun _ => (0, 0))
        "trader0:exchange0 11230 11231\n \n".toList := by
  constructor
  · intro independent
    have taken : (file2items "sliding_window_size 10000\nstock_num\n".toList ∅).lookup
        "stock_num".toList = some "10000".toList := by decide
    have own := independent.mapped _ _ taken
    revert own
    decide
  · intro independent
    have own := (independent.ports 0 0).length_le
    revert own
    decide

end PpiwTrading
