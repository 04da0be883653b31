import PpiwTrading.System.Hooks

/-!
# Schedule independence

Two states of the system are compared that may come from unrelated
interleavings.  They are `Coherent` when no order of a stock was let through in
two forms.  Coherent states have polled, committed and traded the same as far as
both have come; and states that have traded the same as far as both have come
are coherent, because the form of an order depends only on its data and on the
volume of the trade it waits for.

So a run cannot leave coherence: a step of an exchange lets no order through, and
a step of a trader produces no trade.
-/

namespace PpiwTrading.System

open PpiwTrading.Heap
open PpiwTrading.Sequence
open PpiwTrading.Trader
open PpiwTrading.Exchange

variable {P : Type} [LinearOrder P] [Zero P]

/-- No order of a stock was let through in two forms. -/
def Coherent (config : Config) (first second : Network P) : Prop :=
  ∀ s, config.Listed s → ∀ tr < config.traderNum, ∀ tr' < config.traderNum,
    ∀ o ∈ (first.traders tr).accepted config s, ∀ p ∈ (second.traders tr').accepted config s,
      o.orderId = p.orderId → o = p

variable {algorithms : HeapAlgorithms} {config : Config} {inputs : Nat → TraderInput P}
  {first second network network' : Network P} {orderNum : Int → Nat}

/-! ## Coherent states have come the same way -/

section Comparable

variable (isFirst : Consistent algorithms config inputs first)
  (isSecond : Consistent algorithms config inputs second) (coherent : Coherent config first second)
  {e : Nat} (exchange : e < config.exchangeNum) {s : Int} (owns : config.Owns e s)

include isFirst isSecond coherent exchange owns

/-- Coherent states have polled the same orders as far as both have come. -/
theorem Coherent.polled :
    ((first.exchanges e).threads s).polled <+: ((second.exchanges e).threads s).polled ∨
      ((second.exchanges e).threads s).polled <+: ((first.exchanges e).threads s).polled := by
  have servesFirst := (isFirst.serving e exchange).serves s owns
  have servesSecond := (isSecond.serving e exchange).serves s owns
  have same : ∀ o ∈ ((first.exchanges e).threads s).polled,
      ∀ p ∈ ((second.exchanges e).threads s).polled, o.orderId = p.orderId → o = p := by
    intro o inFirst p inSecond sameId
    rcases isFirst.arrived_accepted exchange (servesFirst.genuine o inFirst) with
      ⟨_, tr, trader, _, accepted⟩
    rcases isSecond.arrived_accepted exchange (servesSecond.genuine p inSecond) with
      ⟨_, tr', trader', _, accepted'⟩
    exact coherent s owns.1 tr trader tr' trader' o accepted p accepted' sameId
  exact comparable_of_numbered servesFirst.numbered servesSecond.numbered same

theorem Coherent.committed :
    ((first.exchanges e).threads s).committed <+: ((second.exchanges e).threads s).committed ∨
      ((second.exchanges e).threads s).committed <+:
        ((first.exchanges e).threads s).committed := by
  have servesFirst := (isFirst.serving e exchange).serves s owns
  have servesSecond := (isSecond.serving e exchange).serves s owns
  exact prefix_or_prefix_of_parts ⟨_, servesFirst.committed_eq.1.symm⟩
    ⟨_, servesSecond.committed_eq.1.symm⟩ (coherent.polled isFirst isSecond exchange owns)

theorem Coherent.produced :
    ((first.exchanges e).threads s).produced <+: ((second.exchanges e).threads s).produced ∨
      ((second.exchanges e).threads s).produced <+:
        ((first.exchanges e).threads s).produced := by
  have effectFirst := ((isFirst.serving e exchange).serves s owns).committed_eq.2
  have effectSecond := ((isSecond.serving e exchange).serves s owns).committed_eq.2
  refine prefix_or_prefix_of_parts (List.prefix_append _ _) (List.prefix_append _ _)
    (?_ : _ ++ ((first.exchanges e).threads s).phase.pending <+:
      _ ++ ((second.exchanges e).threads s).phase.pending ∨ _)
  rcases coherent.committed isFirst isSecond exchange owns with shorter | longer
  · left
    exact commitOrders_isPrefix effectFirst effectSecond shorter
  · right
    exact commitOrders_isPrefix effectSecond effectFirst longer

end Comparable

/-! ## States that have come the same way are coherent -/

/-- Two states have produced the same trades as far as both have come. -/
def ProducedComparable (config : Config) (first second : Network P) : Prop :=
  ∀ e < config.exchangeNum, ∀ s, config.Owns e s →
    ((first.exchanges e).threads s).produced <+: ((second.exchanges e).threads s).produced ∨
      ((second.exchanges e).threads s).produced <+: ((first.exchanges e).threads s).produced

/-- Volumes that are ready in two such states are the same. -/
theorem ProducedComparable.volume (comparable : ProducedComparable config first second)
    (isFirst : Consistent algorithms config inputs first)
    (isSecond : Consistent algorithms config inputs second)
    (someExchange : 0 < config.exchangeNum) {tr tr' : Nat} (trader : tr < config.traderNum)
    (trader' : tr' < config.traderNum) {s k v w : Int}
    (stored : (first.traders tr).info.hookedTrade s k = some v) (ready : v ≠ -1)
    (stored' : (second.traders tr').info.hookedTrade s k = some w) (ready' : w ≠ -1) : v = w := by
  have exchange := config.exchangeOf_lt someExchange s
  rcases isFirst.stored_volume trader exchange rfl stored ready with
    ⟨owns, _, trade, found, rfl⟩
  rcases isSecond.stored_volume trader' exchange rfl stored' ready' with
    ⟨_, _, trade', found', rfl⟩
  rw [eq_of_comparable (comparable _ exchange s owns) found found']

theorem ProducedComparable.coherent (comparable : ProducedComparable config first second)
    (isFirst : Consistent algorithms config inputs first)
    (isSecond : Consistent algorithms config inputs second)
    (partitioned : Partitioned config inputs orderNum) (someExchange : 0 < config.exchangeNum) :
    Coherent config first second := by
  intro s listed tr trader tr' trader' o accepted p accepted' sameId
  rcases (isFirst.dispatched tr trader).exists_data accepted with ⟨data, inData, isChecked⟩
  rcases (isSecond.dispatched tr' trader').exists_data accepted' with
    ⟨data', inData', isChecked'⟩
  have sameDataId : data.orderId = data'.orderId := by
    rw [isChecked.fields, isChecked'.fields] at sameId
    exact sameId
  have sameTrader := partitioned.disjoint s listed tr trader tr' trader' data inData data' inData'
    sameDataId
  subst sameTrader
  have sameData : data = data' := by
    have distinct : (((inputs tr).sortedOrders s).map Order.orderId).Nodup :=
      List.pairwise_map.mpr ((partitioned.sorted s listed tr trader).imp fun smaller => smaller.ne)
    exact List.inj_on_of_nodup_map distinct inData inData' sameDataId
  subst sameData
  rcases isChecked with ⟨unhooked, rfl⟩ | ⟨ht, v, hooked, stored, ready, rfl⟩
  · rcases isChecked' with ⟨_, rfl⟩ | ⟨ht', _, hooked', _⟩
    · rfl
    · rw [unhooked] at hooked'
      cases hooked'
  · rcases isChecked' with ⟨unhooked, _⟩ | ⟨ht', w, hooked', stored', ready', rfl⟩
    · rw [hooked] at unhooked
      cases unhooked
    · rw [hooked] at hooked'
      cases hooked'
      rw [comparable.volume isFirst isSecond someExchange trader trader' stored ready stored'
        ready']

/-! ## All runs -/

omit [LinearOrder P] [Zero P] in
theorem Coherent.new (config : Config) (inputs : Nat → TraderInput P) (network : Network P) :
    Coherent config (Network.new config inputs) network := by
  intro s _ tr _ tr' _ o accepted
  cases accepted

/-- An action is one of a trader or one of an exchange. -/
theorem Network.Step.frame (step : network.Step algorithms config inputs network') :
    network'.traders = network.traders ∨ network'.exchanges = network.exchanges := by
  cases step with
  | control => exact Or.inr rfl
  | pollOrder => exact Or.inr rfl
  | sendOrder => exact Or.inr rfl
  | receiveOrder => exact Or.inl rfl
  | work => exact Or.inl rfl
  | takeMsg => exact Or.inl rfl
  | sendMsg => exact Or.inl rfl
  | receiveMsg => exact Or.inr rfl

/-- A step keeps a state coherent with a state of another run. -/
theorem Coherent.step (coherent : Coherent config network second)
    (consistent : Consistent algorithms config inputs network)
    (isSecond : Consistent algorithms config inputs second)
    (partitioned : Partitioned config inputs orderNum) (someExchange : 0 < config.exchangeNum)
    (step : network.Step algorithms config inputs network') :
    Coherent config network' second := by
  rcases step.frame with sameTraders | sameExchanges
  · unfold Coherent
    rw [sameTraders]
    exact coherent
  · have comparable : ProducedComparable config network' second := by
      intro e exchange s owns
      rw [sameExchanges]
      exact coherent.produced consistent isSecond exchange owns
    exact comparable.coherent (consistent.step partitioned step) isSecond partitioned someExchange

theorem Network.Reachable.coherent
    (reachable : Network.Reachable algorithms config inputs network)
    (isSecond : Consistent algorithms config inputs second)
    (partitioned : Partitioned config inputs orderNum) (someExchange : 0 < config.exchangeNum) :
    Coherent config network second := by
  suffices Consistent algorithms config inputs network ∧ Coherent config network second from
    this.2
  refine Transition.Reachable.invariant
    (motive := fun state => Consistent algorithms config inputs state ∧
      Coherent config state second)
    ⟨Consistent.new algorithms config inputs, Coherent.new config inputs second⟩ ?_ reachable
  rintro state state' action ⟨consistent, coherent⟩ performed
  have step := Network.next_step performed
  exact ⟨consistent.step partitioned step,
    coherent.step consistent isSecond partitioned someExchange step⟩

/-- Two states reached by any two interleavings: for every stock, the trades that
were produced and the orders that were committed in one of them are an initial
part of those in the other. -/
theorem reachable_schedule_independent (partitioned : Partitioned config inputs orderNum)
    (firstReachable : Network.Reachable algorithms config inputs first)
    (secondReachable : Network.Reachable algorithms config inputs second) :
    ∀ e < config.exchangeNum, ∀ s, config.Owns e s →
      (((first.exchanges e).threads s).produced <+: ((second.exchanges e).threads s).produced ∨
        ((second.exchanges e).threads s).produced <+:
          ((first.exchanges e).threads s).produced) ∧
      (((first.exchanges e).threads s).committed <+:
          ((second.exchanges e).threads s).committed ∨
        ((second.exchanges e).threads s).committed <+:
          ((first.exchanges e).threads s).committed) := by
  intro e exchange s owns
  have isFirst := firstReachable.consistent partitioned
  have isSecond := secondReachable.consistent partitioned
  have coherent := firstReachable.coherent isSecond partitioned (Nat.zero_lt_of_lt exchange)
  exact ⟨coherent.produced isFirst isSecond exchange owns,
    coherent.committed isFirst isSecond exchange owns⟩

/-- A run of the small system in which order 1 of stock 1 is committed before
order 2 has arrived. -/
def smallEarlyRun : List Action :=
  List.flatten
    [ List.replicate 8 (.control 0),
      [.pollOrder 0 1, .sendOrder 0 1, .receiveOrder 0 1],
      List.replicate 4 (.work 1 1)]

/-- The state `smallEarlyRun` leads to. -/
def smallEarly : Network Int :=
  Network.after binaryHeap smallConfig smallInputs smallEarlyRun

theorem reachable_schedule_independent_small :
    ((smallEarly.exchanges 1).threads 1).committed.map Order.orderId = [1] ∧
      ((smallFinal.exchanges 1).threads 1).committed.map Order.orderId = [1, 2] ∧
      (((smallEarly.exchanges 1).threads 1).committed <+:
          ((smallFinal.exchanges 1).threads 1).committed ∨
        ((smallFinal.exchanges 1).threads 1).committed <+:
          ((smallEarly.exchanges 1).threads 1).committed) :=
  ⟨by decide +kernel, by decide +kernel,
    (reachable_schedule_independent smallInputs_partitioned
      (Network.after_reachable (by decide +kernel)) smallFinal_reachable 1 (by decide) 1
      (by decide)).2⟩

end PpiwTrading.System
