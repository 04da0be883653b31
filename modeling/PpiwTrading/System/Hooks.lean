import PpiwTrading.System.FlowControl

/-!
# Hook agreement

The number of a trade is not on the wire: a trader counts the trades of a stock
as they arrive, among the acknowledgements and the trades of other stocks.  The
messages a trader has seen are an initial part of those the exchange has put, so
its count is the exchange's, and all traders read the same volume for the same
number.
-/

namespace PpiwTrading.System

open PpiwTrading.Heap
open PpiwTrading.Sequence
open PpiwTrading.Trader
open PpiwTrading.Exchange

variable {P : Type} [LinearOrder P] [Zero P] {algorithms : HeapAlgorithms} {config : Config}
  {inputs : Nat → TraderInput P} {network network' : Network P} {orderNum : Int → Nat}

/-! ## What a trader has stored -/

/-- The trades of a stock that a trader has seen are an initial part of those
that were produced. -/
theorem Consistent.tradesOf_seen (consistent : Consistent algorithms config inputs network)
    {tr e : Nat} (trader : tr < config.traderNum) (exchange : e < config.exchangeNum) {s : Int}
    (owns : config.Owns e s) :
    tradesOf s ((network.traders tr).seen e) <+: ((network.exchanges e).threads s).produced := by
  rw [← ((consistent.serving e exchange).serves s owns).produced,
    consistent.messages tr trader e exchange, tradesOf_append]
  exact List.prefix_append _ _

/-- A stored volume that is ready is that of the trade with its number. -/
theorem Consistent.stored_volume (consistent : Consistent algorithms config inputs network)
    {tr e : Nat} (trader : tr < config.traderNum) (exchange : e < config.exchangeNum)
    {s k v : Int} (atExchange : config.exchangeOf s = e)
    (stored : (network.traders tr).info.hookedTrade s k = some v) (ready : v ≠ -1) :
    config.Owns e s ∧ 1 ≤ k ∧ ∃ trade,
      ((network.exchanges e).threads s).produced[(k - 1).toNat]? = some trade ∧
        trade.volume = v := by
  rw [(consistent.informed tr trader).hooked, atExchange] at stored
  rcases Option.map_eq_some_iff.mp stored with ⟨_, _, rfl⟩
  rcases exists_trade_of_tradeVolume ready with ⟨positive, trade, found, volume⟩
  have owns : config.Owns e s := by
    refine ⟨?_, atExchange⟩
    by_contra unlisted
    -- no message is about a stock that is not listed
    have none : tradesOf s ((network.traders tr).seen e) = [] := by
      apply tradesOf_eq_nil
      rintro msg seen rfl
      have sent : msg ∈ (network.exchanges e).sent := by
        rw [consistent.messages tr trader e exchange]
        exact List.mem_append_left _ seen
      exact unlisted ((consistent.serving e exchange).origin msg sent).1
    rw [none] at found
    cases found
  refine ⟨owns, positive, trade, ?_, volume⟩
  exact getElem?_of_isPrefix (consistent.tradesOf_seen trader exchange owns) found

/-- A step adds to what a trader knows. -/
theorem Consistent.step_grows (consistent : Consistent algorithms config inputs network)
    (step : network.Step algorithms config inputs network') (tr : Nat) :
    Grows (network.traders tr).info (network'.traders tr).info := by
  have unchanged : ∀ {tr' : Nat} {trader' : TraderState P},
      trader'.info = (network.traders tr').info →
      Grows (network.traders tr).info (Function.update network.traders tr' trader' tr).info := by
    intro tr' trader' same
    by_cases isTrader : tr = tr'
    · rw [isTrader, Function.update_self, same]
      exact Grows.refl _
    · rw [Function.update_of_ne isTrader]
      exact Grows.refl _
  cases step with
  | control runs step =>
      have stays := (consistent.dispatched _ runs.1).control (consistent.informed _ runs.1) step
      exact unchanged stays.2.info
  | pollOrder runs step => exact unchanged ((consistent.dispatched _ runs.1).pollOrder step).2.info
  | sendOrder runs _ step => exact unchanged ((consistent.dispatched _ runs.1).sendOrder step).2.1
  | receiveOrder => exact Grows.refl _
  | work => exact Grows.refl _
  | takeMsg => exact Grows.refl _
  | sendMsg => exact Grows.refl _
  | @receiveMsg tr' e msg rest runs exchange channel =>
      have informed := consistent.informed tr' runs.1
      rcases consistent.delivered runs.1 exchange channel with ⟨owns, current⟩
      rcases informed.receive owns.2 current with ⟨info, tradeIdxs, received, informed'⟩
      have grows := informed.grows informed' owns.2 current
      change Grows _ (Function.update network.traders tr' _ tr).info
      by_cases same : tr = tr'
      · rw [same, Function.update_self, received]
        exact grows
      · rw [Function.update_of_ne same]
        exact Grows.refl _

/-- A run adds to what a trader knows. -/
theorem Consistent.run_grows (consistent : Consistent algorithms config inputs network)
    (partitioned : Partitioned config inputs orderNum)
    (later : Transition.Reachable (Network.next algorithms config inputs) network network')
    (tr : Nat) :
    Grows (network.traders tr).info (network'.traders tr).info := by
  suffices Consistent algorithms config inputs network' ∧
      Grows (network.traders tr).info (network'.traders tr).info from this.2
  induction later with
  | refl => exact ⟨consistent, Grows.refl _⟩
  | tail _ performed inductionHypothesis =>
      rcases inductionHypothesis with ⟨consistent', grows⟩
      have step := Network.next_step performed
      exact ⟨consistent'.step partitioned step, grows.trans (consistent'.step_grows step tr)⟩

/-! ## Agreement -/

/-- In every state, under any interleaving: a stored volume is -1 or the volume of
the trade with its number, so two traders never store different volumes; a volume
other than -1 stays for the rest of the run and no assertion of a trader fails;
and a hooked order that was let through, collected or handed to a sender, has its
target recorded, the type -1 if the volume exceeds the bound, and else the type
that the price limit gives it. -/
theorem reachable_hooks_agree (partitioned : Partitioned config inputs orderNum)
    (reachable : Network.Reachable algorithms config inputs network) :
    (∀ e < config.exchangeNum, ∀ s k, config.exchangeOf s = e →
      (∀ tr < config.traderNum, ∀ v, (network.traders tr).info.hookedTrade s k = some v →
        v = -1 ∨ 1 ≤ k ∧ ∃ trade,
          ((network.exchanges e).threads s).produced[(k - 1).toNat]? = some trade ∧
            trade.volume = v) ∧
      ∀ first < config.traderNum, ∀ second < config.traderNum, ∀ v w,
        (network.traders first).info.hookedTrade s k = some v →
        (network.traders second).info.hookedTrade s k = some w →
        v ≠ -1 → w ≠ -1 → v = w) ∧
    (∀ network', Transition.Reachable (Network.next algorithms config inputs) network network' →
      ∀ tr < config.traderNum, (network'.traders tr).fault = none ∧
        ∀ s k v, (network.traders tr).info.hookedTrade s k = some v → v ≠ -1 →
          (network'.traders tr).info.hookedTrade s k = some v) ∧
    ∀ tr < config.traderNum, ∀ e,
      ∀ o ∈ (network.traders tr).orderToSend ++ (network.traders tr).outbox e,
      ∀ ht, (inputs tr).hook o.stkCode o.orderId = some ht →
        ∃ data ∈ (inputs tr).sortedOrders o.stkCode, ∃ v,
          (network.traders tr).info.hookedTrade ht.targetStkCode ht.targetTradeIdx = some v ∧
            v ≠ -1 ∧
            o =
              { data with
                stkCode := o.stkCode
                type :=
                  if v > ht.arg then -1
                  else (checkPriceLimit (inputs tr) o.stkCode
                    (TraderState.generateOrder o.stkCode data)).type } := by
  have consistent := reachable.consistent partitioned
  refine ⟨?_, ?_, ?_⟩
  · intro e exchange s k atExchange
    constructor
    · intro tr trader v stored
      by_cases ready : v = -1
      · exact Or.inl ready
      · exact Or.inr (consistent.stored_volume trader exchange atExchange stored ready).2
    · intro first isFirst second isSecond v w storedFirst storedSecond readyFirst readySecond
      rcases consistent.stored_volume isFirst exchange atExchange storedFirst readyFirst with
        ⟨_, _, trade, found, rfl⟩
      rcases consistent.stored_volume isSecond exchange atExchange storedSecond readySecond with
        ⟨_, _, trade', found', rfl⟩
      rw [found] at found'
      cases found'
      rfl
  · intro network' later tr trader
    have reachable' : Network.Reachable algorithms config inputs network' :=
      Transition.Reachable.trans reachable later
    have consistent' := reachable'.consistent partitioned
    exact ⟨consistent'.running tr trader, (consistent.run_grows partitioned later tr).hooked⟩
  · intro tr trader e o member ht hooked
    have dispatched := consistent.dispatched tr trader
    have accepted : o ∈ (network.traders tr).accepted config o.stkCode := by
      rcases List.mem_append.mp member with collected | handed
      · exact TraderState.mem_accepted_of_collected collected
      · exact (dispatched.mem_accepted handed).2
    rcases dispatched.exists_data accepted with ⟨data, inData, isChecked⟩
    have fields := isChecked.fields
    have sameId : o.orderId = data.orderId := by rw [fields]
    rcases isChecked.of_hook (sameId ▸ hooked) with ⟨v, stored, ready, rewritten⟩
    refine ⟨data, inData, v, stored, ready, ?_⟩
    rw [← rewritten]
    exact fields

theorem reachable_hooks_agree_small :
    (smallFinal.traders 0).info.hookedTrade 1 1 = some 10 ∧
      (smallFinal.traders 1).info.hookedTrade 1 1 = some (-1) ∧
      ((smallFinal.traders 0).outbox 0).map Order.type = [-1] ∧
      ∀ v, (smallFinal.traders 0).info.hookedTrade 1 1 = some v →
        v = -1 ∨ (1 : Int) ≤ 1 ∧ ∃ trade,
          ((smallFinal.exchanges 1).threads 1).produced[((1 : Int) - 1).toNat]? = some trade ∧
            trade.volume = v :=
  ⟨by decide +kernel, by decide +kernel, by decide +kernel,
    ((reachable_hooks_agree smallInputs_partitioned smallFinal_reachable).1 1 (by decide) 1 1
      (by decide)).1 0 (by decide)⟩

end PpiwTrading.System
