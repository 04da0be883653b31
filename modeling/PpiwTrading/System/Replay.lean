import PpiwTrading.System.Consume
import PpiwTrading.System.Outcome
import PpiwTrading.Transition.Confluence

/-!
# The replay

What the whole system computes, without traders, windows, messages and threads: a
single history that holds the committed orders of every stock.  A step extends the
history of one stock by its next order, in the form that the price limit and the
trades of the history itself give it; it is not enabled while the trade that the
order waits for has not been made.  The trades of a history are those of the
reference engine.

Every step of the system is such a step or leaves the history as it is, so an
interleaving is a replay.  The steps of different stocks are independent, so there is
one history to end at, and a system at rest has it.
-/

namespace PpiwTrading.System

open PpiwTrading.Heap
open PpiwTrading.Sequence
open PpiwTrading.Trader
open PpiwTrading.Exchange
open PpiwTrading.Exchange.Reference
open PpiwTrading.Transition

variable {P : Type}

/-- The committed orders of every stock. -/
abbrev History (P : Type) := Int → List (Order P)

namespace History

/-- Nothing is committed. -/
def empty : History P :=
  fun _ => []

/-- The trader that holds an order of a stock, and the data of the order. -/
def holder (config : Config) (inputs : Nat → TraderInput P) (stkCode orderId : Int) :
    Option (Nat × Order P) :=
  (List.range config.traderNum).findSome? fun traderIdx =>
    (((inputs traderIdx).sortedOrders stkCode).find? fun data => data.orderId = orderId).map
      fun data => (traderIdx, data)

theorem holder_eq_some {config : Config} {inputs : Nat → TraderInput P} {s i : Int}
    {held : Nat × Order P} (isHeld : holder config inputs s i = some held) :
    held.1 < config.traderNum ∧ held.2 ∈ (inputs held.1).sortedOrders s ∧ held.2.orderId = i := by
  rcases List.exists_of_findSome?_eq_some isHeld with ⟨tr, inRange, isFound⟩
  rcases Option.map_eq_some_iff.mp isFound with ⟨data, isData, rfl⟩
  refine ⟨List.mem_range.mp inRange, List.mem_of_find?_eq_some isData, ?_⟩
  simpa using List.find?_some isData

variable [LinearOrder P] [Zero P]

/-- The trades of a stock. -/
def trades (history : History P) (stkCode : Int) : List (Trade P) :=
  (Reference.run stkCode StockDeclarationBook.empty (history stkCode)).2

/-- The resting orders of a stock. -/
def book (history : History P) (stkCode : Int) : StockDeclarationBook P :=
  (Reference.run stkCode StockDeclarationBook.empty (history stkCode)).1

/-- The form in which an order is committed; `none` while its target is not ready. -/
def form (input : TraderInput P) (history : History P) (stkCode : Int) (data : Order P) :
    Option (Order P) :=
  match input.hook stkCode data.orderId with
  | none => some (checkPriceLimit input stkCode (TraderState.generateOrder stkCode data))
  | some ht =>
      let v := tradeVolume (history.trades ht.targetStkCode) ht.targetTradeIdx
      if v = -1 then none
      else
        some (checkPriceLimit input stkCode
          (checkHookedVolume ht v (TraderState.generateOrder stkCode data)))

/-- Commit the next order of a stock. -/
def next (config : Config) (inputs : Nat → TraderInput P) (stkCode : Int) (history : History P) :
    Option (History P) :=
  if config.Listed stkCode then
    (holder config inputs stkCode ((history stkCode).length + 1)).bind fun held =>
      (form (inputs held.1) history stkCode held.2).map fun order =>
        Function.update history stkCode (history stkCode ++ [order])
  else none

/-! ## The steps of different stocks are independent -/

variable {config : Config} {inputs : Nat → TraderInput P} {history history' : History P}
  {s : Int}

/-- What a step commits. -/
theorem next_eq_some (step : next config inputs s history = some history') :
    config.Listed s ∧ ∃ held order,
      holder config inputs s ((history s).length + 1) = some held ∧
        form (inputs held.1) history s held.2 = some order ∧
        history' = Function.update history s (history s ++ [order]) := by
  unfold next at step
  split at step
  · rename_i listed
    rcases Option.bind_eq_some_iff.mp step with ⟨held, isHeld, committed⟩
    rcases Option.map_eq_some_iff.mp committed with ⟨order, isForm, rfl⟩
    exact ⟨listed, held, order, isHeld, isForm, rfl⟩
  · cases step

theorem next_of_form (listed : config.Listed s) {held : Nat × Order P} {order : Order P}
    (isHeld : holder config inputs s ((history s).length + 1) = some held)
    (isForm : form (inputs held.1) history s held.2 = some order) :
    next config inputs s history =
      some (Function.update history s (history s ++ [order])) := by
  rw [next, if_pos listed, isHeld, Option.bind_some, isForm, Option.map_some]

/-- A longer history has more trades. -/
theorem trades_isPrefix (longer : ∀ s, history s <+: history' s) (s' : Int) :
    history.trades s' <+: history'.trades s' := by
  rcases longer s' with ⟨more, split⟩
  rw [trades, trades, ← split, Reference.run_append]
  exact List.prefix_append _ _

omit [LinearOrder P] [Zero P] in
theorem isPrefix_update (history : History P) (s : Int) (more : List (Order P)) (s' : Int) :
    history s' <+: Function.update history s (history s ++ more) s' := by
  by_cases same : s' = s
  · rw [same, Function.update_self]
    exact List.prefix_append _ _
  · rw [Function.update_of_ne same]

/-- An order keeps its form while the history grows. -/
theorem form_of_isPrefix {input : TraderInput P} {data order : Order P}
    (longer : ∀ s, history s <+: history' s) (isForm : form input history s data = some order) :
    form input history' s data = some order := by
  unfold form at isForm ⊢
  split at isForm
  · exact isForm
  · rename_i ht _
    simp only at isForm ⊢
    split at isForm
    · cases isForm
    · rename_i known
      rcases trades_isPrefix longer ht.targetStkCode with ⟨more, split⟩
      rw [← split, tradeVolume_append known, if_neg known]
      exact isForm

theorem independent (config : Config) (inputs : Nat → TraderInput P) :
    Independent (next config inputs) := by
  intro s s' history left right different stepLeft stepRight
  rcases next_eq_some stepLeft with ⟨listed, held, order, isHeld, isForm, rfl⟩
  rcases next_eq_some stepRight with ⟨listed', held', order', isHeld', isForm', rfl⟩
  use Function.update (Function.update history s (history s ++ [order])) s'
    (history s' ++ [order'])
  constructor
  · have unchanged : Function.update history s (history s ++ [order]) s' = history s' :=
      Function.update_of_ne (Ne.symm different) _ _
    rw [next_of_form listed' (by rw [unchanged]; exact isHeld')
      (form_of_isPrefix (isPrefix_update history s [order]) isForm'), unchanged]
  · have unchanged : Function.update history s' (history s' ++ [order']) s = history s :=
      Function.update_of_ne different _ _
    rw [next_of_form listed (by rw [unchanged]; exact isHeld)
      (form_of_isPrefix (isPrefix_update history s' [order']) isForm), unchanged,
      Function.update_comm different]

end History

/-! ## A step of the system is a step of the replay or none -/

/-- The history of a state. -/
def Network.history (config : Config) (network : Network P) : History P := fun stkCode =>
  if config.Listed stkCode then
    ((network.exchanges (config.exchangeOf stkCode)).threads stkCode).committed
  else []

theorem Network.history_of_owns {config : Config} (network : Network P) {e : Nat} {s : Int}
    (owns : config.Owns e s) :
    network.history config s = ((network.exchanges e).threads s).committed := by
  rw [Network.history, if_pos owns.1, owns.2]

variable [LinearOrder P] [Zero P] {algorithms : HeapAlgorithms} {config : Config}
  {inputs : Nat → TraderInput P} {network network' : Network P} {orderNum : Int → Nat}

/-- A step of a stock thread commits nothing, or one of its polled orders. -/
theorem work_committed {ex ex' : ExchangeState P} {s : Int}
    (step : ex.work algorithms config s = some ex') :
    (ex'.threads s).committed = (ex.threads s).committed ∨
      ∃ order, (ex'.threads s).polled = (ex.threads s).polled ∧
        (ex.threads s).phase.remaining = order :: (ex'.threads s).phase.remaining := by
  unfold ExchangeState.work at step
  simp only at step
  split at step
  · unfold ExchangeState.pollSlot at step
    split at step
    · cases step
      simp [ExchangeState.setThread]
    · split at step
      · cases step
      · cases step
        simp [ExchangeState.setThread]
  · unfold ExchangeState.ackOrders at step
    split at step
    · cases step
    · split at step
      · cases step
        simp [ExchangeState.setThread]
      · cases step
  · unfold ExchangeState.produceTrade at step
    split at step
    · cases step
      simp [ExchangeState.setThread]
    · cases step
  · rename_i order rest receiving
    cases step
    unfold ExchangeState.receiveNext
    split
    · exact Or.inl rfl
    · right
      use order
      simp [ExchangeState.setThread, receiving, Phase.remaining]
  · cases step
    simp [ExchangeState.setThread]

section Replayed

variable (consistent : Consistent algorithms config inputs network)
  (partitioned : Partitioned config inputs orderNum) (volumes : PositiveVolumes config inputs)

include consistent volumes in
/-- The trades of a stock, put or about to be put, are those of its history. -/
theorem Consistent.trades_history {e : Nat} (exchange : e < config.exchangeNum) {s : Int}
    (owns : config.Owns e s) :
    ((network.exchanges e).threads s).produced ++ ((network.exchanges e).threads s).phase.pending =
        (network.history config).trades s ∧
      Matches ((network.exchanges e).threads s).exchange.declBook
        ((network.history config).book s) := by
  have effect := ((consistent.serving e exchange).serves s owns).committed_eq.2
  rcases commitOrders_refines_empty s algorithms (consistent.committed_feed volumes exchange owns)
    with ⟨final, refined, matching⟩
  rw [effect, Except.ok.injEq, Prod.mk.injEq] at refined
  rcases refined with ⟨sameBook, sameTrades⟩
  rw [History.trades, History.book, network.history_of_owns owns, sameBook]
  exact ⟨sameTrades, matching⟩

omit [LinearOrder P] [Zero P] in
include partitioned in
/-- The holder of an order of the input. -/
theorem Partitioned.holder_eq {tr : Nat} (trader : tr < config.traderNum) {s : Int}
    (listed : config.Listed s) {data : Order P} (inData : data ∈ (inputs tr).sortedOrders s) :
    History.holder config inputs s data.orderId = some (tr, data) := by
  cases found : History.holder config inputs s data.orderId with
  | none =>
      exfalso
      have absent := List.findSome?_eq_none_iff.mp found tr (List.mem_range.mpr trader)
      rw [Option.map_eq_none_iff, List.find?_eq_none] at absent
      exact absent data inData (by simp)
  | some held =>
      rcases held with ⟨tr', data'⟩
      rcases History.holder_eq_some found with ⟨trader', inData', sameId⟩
      have sameTrader := partitioned.disjoint s listed tr' trader' tr trader data' inData' data
        inData sameId
      subst sameTrader
      have distinct : (((inputs tr').sortedOrders s).map Order.orderId).Nodup :=
        List.pairwise_map.mpr ((partitioned.sorted s listed tr' trader').imp fun less => less.ne)
      have sameData : data' = data := List.inj_on_of_nodup_map distinct inData' inData sameId
      rw [sameData]

include consistent volumes in
/-- An order that a trader has let through has the form that the history gives it. -/
theorem Consistent.form_of_checked {tr : Nat} (trader : tr < config.traderNum)
    (someExchange : 0 < config.exchangeNum) {s : Int} {data o : Order P}
    (isChecked : Checked (inputs tr) (network.traders tr).info s data o) :
    History.form (inputs tr) (network.history config) s data = some o := by
  unfold History.form
  rcases isChecked with ⟨unhooked, rfl⟩ | ⟨ht, v, hooked, stored, ready, rfl⟩
  · rw [unhooked]
  · have target := config.exchangeOf_lt someExchange ht.targetStkCode
    rcases consistent.stored_volume trader target rfl stored ready with
      ⟨owns, positive, trade, found, volume⟩
    -- the trade that the trader has seen is one of the history
    have inHistory : ((network.history config).trades ht.targetStkCode)[
        (ht.targetTradeIdx - 1).toNat]? = some trade := by
      rw [← (consistent.trades_history volumes target owns).1]
      exact getElem?_of_isPrefix (List.prefix_append _ _) found
    have known : tradeVolume ((network.history config).trades ht.targetStkCode)
        ht.targetTradeIdx = v := by
      rw [tradeVolume, if_pos positive, inHistory, Option.map_some, Option.getD_some, volume]
    rw [hooked]
    simp only [known, if_neg ready]

include consistent volumes partitioned in
/-- A polled order that was not committed before is the next one of the replay. -/
theorem Consistent.next_of_polled {e : Nat} (exchange : e < config.exchangeNum) {s : Int}
    (owns : config.Owns e s) {o : Order P} (polled : o ∈ ((network.exchanges e).threads s).polled)
    (isNext : o.orderId = ((network.history config s).length : Int) + 1) :
    History.next config inputs s (network.history config) =
      some (Function.update (network.history config) s (network.history config s ++ [o])) := by
  have serves := (consistent.serving e exchange).serves s owns
  rcases consistent.arrived_accepted exchange (serves.genuine o polled) with
    ⟨_, tr, trader, _, accepted⟩
  rcases (consistent.dispatched tr trader).exists_data accepted with ⟨data, inData, isChecked⟩
  have sameId : o.orderId = data.orderId := by rw [isChecked.fields]
  have isHeld := partitioned.holder_eq trader owns.1 inData
  rw [← sameId, isNext] at isHeld
  exact History.next_of_form owns.1 isHeld
    (consistent.form_of_checked volumes trader (Nat.zero_lt_of_lt exchange) isChecked)

include consistent volumes partitioned in
/-- A step of the system commits the next order of a stock, or nothing. -/
theorem Consistent.history_step {action : Action}
    (performed : Network.next algorithms config inputs action network = some network') :
    network'.history config = network.history config ∨
      ∃ s, History.next config inputs s (network.history config) =
        some (network'.history config) := by
  have unchanged : ∀ s, action ≠ .work (config.exchangeOf s) s →
      network'.history config s = network.history config s := by
    intro s other
    rw [Network.history, Network.history, (sameThread_of_other other performed).1]
  cases action with
  | work e s =>
      have runs : network.ExchangeRuns config e ∧ config.Owns e s := by
        by_contra disabled
        simp only [Network.next, if_neg disabled] at performed
        cases performed
      rcases runs with ⟨⟨exchange, _⟩, owns⟩
      have others : ∀ s' ≠ s, network'.history config s' = network.history config s' := by
        intro s' different
        apply unchanged
        intro same
        cases same
        exact different rfl
      have consistent' := consistent.step partitioned (Network.next_step performed)
      have numbered := ((consistent.serving e exchange).serves s owns).numbered
      have split := ((consistent.serving e exchange).serves s owns).committed_eq.1
      have split' := ((consistent'.serving e exchange).serves s owns).committed_eq.1
      rcases work_committed (next_work performed) with same | ⟨order, polled, remaining⟩
      · left
        funext s'
        by_cases isStock : s' = s
        · rw [isStock, network'.history_of_owns owns, network.history_of_owns owns, same]
        · exact others s' isStock
      · right
        use s
        rw [polled, split, remaining, List.append_cons] at split'
        have committed := List.append_cancel_right split'
        have member : order ∈ ((network.exchanges e).threads s).polled := by
          rw [split, remaining]
          simp
        have isNext : order.orderId = ((network.history config s).length : Int) + 1 := by
          rw [split, remaining] at numbered
          rw [network.history_of_owns owns]
          exact number_of_numbered numbered
        rw [consistent.next_of_polled partitioned volumes exchange owns member isNext]
        congr 1
        funext s'
        by_cases isStock : s' = s
        · rw [isStock, Function.update_self, network'.history_of_owns owns,
            network.history_of_owns owns, committed]
        · rw [Function.update_of_ne isStock, others s' isStock]
  | control | pollOrder | sendOrder | receiveOrder | takeMsg | sendMsg | receiveMsg =>
      left
      funext s
      exact unchanged s (by simp)

end Replayed

theorem Network.Reachable.replayed (reachable : Network.Reachable algorithms config inputs network)
    (partitioned : Partitioned config inputs orderNum) (volumes : PositiveVolumes config inputs) :
    Transition.Reachable (History.next config inputs) History.empty (network.history config) := by
  have image : Transition.Reachable (History.next config inputs)
      ((Network.new config inputs).history config) (network.history config) :=
    Transition.Reachable.image (Consistent algorithms config inputs) (Network.history config)
      (fun consistent performed => consistent.step partitioned (Network.next_step performed))
      (fun consistent performed => consistent.history_step partitioned volumes performed)
      (Consistent.new algorithms config inputs) reachable
  have start : (Network.new config inputs).history config = (History.empty : History P) := by
    funext s
    exact ite_self _
  rw [start] at image
  exact image

/-- Under any interleaving the system replays: the committed orders of all stocks are
a history that committing one order after another leads to.  The trades that were put
and those that are about to be put are the trades of that history, its resting orders
are those in the books, and a trader has seen an initial part of its trades. -/
theorem reachable_replays (partitioned : Partitioned config inputs orderNum)
    (volumes : PositiveVolumes config inputs)
    (reachable : Network.Reachable algorithms config inputs network) :
    Transition.Reachable (History.next config inputs) History.empty (network.history config) ∧
      ∀ e < config.exchangeNum, ∀ s, config.Owns e s →
        ((network.exchanges e).threads s).committed = network.history config s ∧
        ((network.exchanges e).threads s).produced ++
            ((network.exchanges e).threads s).phase.pending =
          (network.history config).trades s ∧
        Matches ((network.exchanges e).threads s).exchange.declBook
          ((network.history config).book s) ∧
        ∀ tr < config.traderNum,
          tradesOf s ((network.traders tr).seen e) <+: (network.history config).trades s := by
  have consistent := reachable.consistent partitioned
  constructor
  · exact reachable.replayed partitioned volumes
  · intro e exchange s owns
    rcases consistent.trades_history volumes exchange owns with ⟨sameTrades, matching⟩
    refine ⟨(network.history_of_owns owns).symm, sameTrades, matching, ?_⟩
    intro tr trader
    rw [← sameTrades]
    exact (consistent.tradesOf_seen trader exchange owns).trans (List.prefix_append _ _)

theorem reachable_replays_small :
    (smallFinal.history smallConfig 1).map Order.orderId = [1, 2] ∧
      Transition.Reachable (History.next smallConfig smallInputs) History.empty
        (smallFinal.history smallConfig) :=
  ⟨by decide +kernel,
    (reachable_replays smallInputs_partitioned smallInputs_volumes smallFinal_reachable).1⟩

/-! ## At rest the replay is over -/

/-- The history of a state of rest cannot be extended. -/
theorem Quiescent.history_terminal (quiescent : Quiescent config inputs network)
    (consistent : Consistent algorithms config inputs network)
    (partitioned : Partitioned config inputs orderNum) (volumes : PositiveVolumes config inputs)
    (someWindow : 1 ≤ config.slidingWindowSize) (someExchange : 0 < config.exchangeNum) :
    Terminal (History.next config inputs) (network.history config) := by
  intro s
  cases step : History.next config inputs s (network.history config) with
  | none => rfl
  | some history' =>
      exfalso
      rcases History.next_eq_some step with ⟨listed, ⟨tr, data⟩, order, isHeld, isForm, rfl⟩
      rcases History.holder_eq_some isHeld with ⟨trader, inData, isNext⟩
      have exchange := config.exchangeOf_lt someExchange s
      rw [network.history_of_owns ⟨listed, rfl⟩] at isNext
      rcases quiescent.hooked consistent partitioned someWindow trader exchange ⟨listed, rfl⟩
        inData isNext with ⟨ht, hooked, notReady⟩
      have target := config.exchangeOf_lt someExchange ht.targetStkCode
      have notMade : tradeVolume ((network.history config).trades ht.targetStkCode)
          ht.targetTradeIdx = -1 := by
        by_cases targetListed : config.Listed ht.targetStkCode
        · -- every trade of the target has been seen
          have owns : config.Owns _ ht.targetStkCode := ⟨targetListed, rfl⟩
          rw [← (consistent.trades_history volumes target owns).1,
            (quiescent.threads _ target _ owns).2, List.append_nil,
            ← ((consistent.serving _ target).serves _ owns).produced,
            ← quiescent.seen consistent trader target]
          rw [(consistent.informed tr trader).hooked] at notReady
          rcases Option.map_eq_some_iff.mp notReady with ⟨_, _, volume⟩
          exact volume
        · have nothing : network.history config ht.targetStkCode = [] := if_neg targetListed
          rw [History.trades, nothing]
          simp [Reference.run, tradeVolume]
      unfold History.form at isForm
      rw [hooked] at isForm
      simp only [notMade, if_pos] at isForm
      cases isForm

/-- What a system at rest has committed, traded, left in its books and shown to its
traders is what committing one order after another leads to, in any order of the
stocks, when it is carried on until no stock has an order that can be committed. -/
theorem quiescent_replays (partitioned : Partitioned config inputs orderNum)
    (volumes : PositiveVolumes config inputs) (someWindow : 1 ≤ config.slidingWindowSize)
    (reachable : Network.Reachable algorithms config inputs network)
    (quiescent : Quiescent config inputs network) {stocks : List Int} {outcome : History P}
    (replayed : Transition.run (History.next config inputs) stocks History.empty = some outcome)
    (terminal : Terminal (History.next config inputs) outcome) :
    ∀ e < config.exchangeNum, ∀ s, config.Owns e s →
      ((network.exchanges e).threads s).committed = outcome s ∧
      ((network.exchanges e).threads s).produced = outcome.trades s ∧
      Matches ((network.exchanges e).threads s).exchange.declBook (outcome.book s) ∧
      ∀ tr < config.traderNum,
        tradesOf s ((network.traders tr).seen e) = outcome.trades s := by
  intro e exchange s owns
  have consistent := reachable.consistent partitioned
  have same : network.history config = outcome :=
    (History.independent config inputs).terminal_unique
      (Transition.Reachable.of_run replayed) terminal
      (reachable.replayed partitioned volumes)
      (quiescent.history_terminal consistent partitioned volumes someWindow
        (Nat.zero_lt_of_lt exchange))
  rcases consistent.trades_history volumes exchange owns with ⟨sameTrades, matching⟩
  rw [(quiescent.threads e exchange s owns).2, List.append_nil, same] at sameTrades
  rw [same] at matching
  refine ⟨?_, sameTrades, matching, ?_⟩
  · rw [← same, network.history_of_owns owns]
  · intro tr trader
    rw [quiescent.seen consistent trader exchange,
      ((consistent.serving e exchange).serves s owns).produced, sameTrades]

/-- `smallRun` carried on until the small system is at rest. -/
def smallRestRun : List Action :=
  smallRun ++ List.replicate 2 (.work 0 2) ++
    [.takeMsg 0, .sendMsg 0, .sendMsg 0, .receiveMsg 0 0, .receiveMsg 1 0, .receiveMsg 1 1,
      .receiveMsg 1 1]

/-- The state `smallRestRun` leads to. -/
def smallRest : Network Int :=
  Network.after binaryHeap smallConfig smallInputs smallRestRun

theorem smallRest_quiescent : Quiescent smallConfig smallInputs smallRest := by
  have idle : ∀ e < 2, ∀ s ∈ idsUpTo 2,
      (((smallRest.exchanges e).threads s).phase.remaining = [] ∧
        ((smallRest.exchanges e).threads s).phase.pending = []) ∧
      ((smallRest.exchanges e).orderBuffer s).slots
        ((smallRest.exchanges e).orderBuffer s).head = none := by decide +kernel
  have rejected : ∀ tr < 2, ∀ s ∈ idsUpTo 2,
      ∀ order ∈ TraderState.nextOrder (smallInputs tr) (smallRest.traders tr) s,
        checkOrder (smallInputs tr) (smallRest.traders tr).info order
          ((smallRest.traders tr).info.slidingWindowStart s + 2) s = .ok none := by
    decide +kernel
  constructor
  · decide +kernel
  · decide +kernel
  · decide +kernel
  · decide +kernel
  · exact fun e exchange s owns => (idle e exchange s (mem_idsUpTo.mpr owns.1)).1
  · exact fun e exchange s owns => (idle e exchange s (mem_idsUpTo.mpr owns.1)).2
  · exact fun tr trader s listed => rejected tr trader s (mem_idsUpTo.mpr listed)

/-- The history of the small system when all of its orders are committed. -/
def smallOutcome : History Int :=
  (Transition.run (History.next smallConfig smallInputs) [1, 1, 2] History.empty).getD History.empty

theorem smallOutcome_terminal : Terminal (History.next smallConfig smallInputs) smallOutcome := by
  have listed : ∀ s ∈ idsUpTo 2,
      History.holder smallConfig smallInputs s ((smallOutcome s).length + 1) = none := by
    decide +kernel
  intro s
  unfold History.next
  split
  · rename_i isListed
    rw [listed s (mem_idsUpTo.mpr isListed)]
    rfl
  · rfl

theorem quiescent_replays_small :
    smallOutcome.trades 1 = [⟨1, 2, 1, 5, 10⟩] ∧
      ((smallRest.exchanges 1).threads 1).produced = smallOutcome.trades 1 := by
  have replayed : Transition.run (History.next smallConfig smallInputs) [1, 1, 2] History.empty =
      some smallOutcome := by
    have succeeds : (Transition.run (History.next smallConfig smallInputs) [1, 1, 2]
      History.empty).isSome = true := by decide +kernel
    rcases Option.isSome_iff_exists.mp succeeds with ⟨outcome, run⟩
    rw [smallOutcome, run, Option.getD_some]
  constructor
  · decide +kernel
  · exact (quiescent_replays smallInputs_partitioned smallInputs_volumes (by decide)
      (Network.after_reachable (by decide +kernel)) smallRest_quiescent replayed
      smallOutcome_terminal 1 (by decide) 1 (by decide)).2.1

end PpiwTrading.System
