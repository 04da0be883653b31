import PpiwTrading.System.Determinism
import PpiwTrading.System.Progress

/-!
# The outcome of a run

A state of rest dominates every reachable state: whatever another interleaving has
committed, produced or shown to a trader is an initial part of it.  So a system has
one outcome, and an interleaving can be slow but not wrong.

What the outcome is can be said without traders, windows and messages: the orders of
a stock are handed to the reference engine by their ids, each in the form that the
price limit and the trades of the outcome itself give it.
-/

namespace PpiwTrading.System

open PpiwTrading.Heap
open PpiwTrading.Sequence
open PpiwTrading.Trader
open PpiwTrading.Exchange
open PpiwTrading.Exchange.Reference

variable {P : Type} [LinearOrder P] [Zero P] {algorithms : HeapAlgorithms} {config : Config}
  {inputs : Nat → TraderInput P} {network network' final : Network P} {orderNum : Int → Nat}

/-! ## A state of rest dominates -/

/-- No stock has polled more than it has committed in the state of rest. -/
def Behind (config : Config) (network final : Network P) : Prop :=
  ∀ e < config.exchangeNum, ∀ s, config.Owns e s →
    ((network.exchanges e).threads s).polled.length ≤
      ((final.exchanges e).threads s).committed.length

section Dominated

variable (consistent : Consistent algorithms config inputs network)
  (finalConsistent : Consistent algorithms config inputs final)
  (quiescent : Quiescent config inputs final) (coherent : Coherent config network final)
  (behind : Behind config network final)

include consistent finalConsistent coherent behind

/-- A state that is behind has committed an initial part. -/
theorem Behind.committed {e : Nat} (exchange : e < config.exchangeNum) {s : Int}
    (owns : config.Owns e s) :
    ((network.exchanges e).threads s).committed <+: ((final.exchanges e).threads s).committed := by
  have polled := behind e exchange s owns
  have split := ((consistent.serving e exchange).serves s owns).committed_eq.1
  have shorter : ((network.exchanges e).threads s).committed.length ≤
      ((final.exchanges e).threads s).committed.length := by
    have total := congrArg List.length split
    rw [List.length_append] at total
    omega
  rcases coherent.committed consistent finalConsistent exchange owns with forth | back
  · exact forth
  · rw [back.eq_of_length_le shorter]

include quiescent

theorem Behind.produced {e : Nat} (exchange : e < config.exchangeNum) {s : Int}
    (owns : config.Owns e s) :
    ((network.exchanges e).threads s).produced <+: ((final.exchanges e).threads s).produced := by
  have effect := ((consistent.serving e exchange).serves s owns).committed_eq.2
  have finalEffect := ((finalConsistent.serving e exchange).serves s owns).committed_eq.2
  rw [(quiescent.threads e exchange s owns).2, List.append_nil] at finalEffect
  exact (List.prefix_append _ _).trans (commitOrders_isPrefix effect finalEffect
    (behind.committed consistent finalConsistent coherent exchange owns))

/-- The order that a stock waits for at rest was not let through. -/
theorem Behind.not_accepted (partitioned : Partitioned config inputs orderNum)
    (someWindow : 1 ≤ config.slidingWindowSize) {tr e : Nat} (trader : tr < config.traderNum)
    (exchange : e < config.exchangeNum) {s : Int} (owns : config.Owns e s) {o : Order P}
    (accepted : o ∈ (network.traders tr).accepted config s) :
    o.orderId ≠ (((final.exchanges e).threads s).committed.length : Int) + 1 := by
  intro isNext
  rcases (consistent.dispatched tr trader).exists_data accepted with ⟨data, inData, isChecked⟩
  have sameId : o.orderId = data.orderId := by rw [isChecked.fields]
  rcases quiescent.hooked finalConsistent partitioned someWindow trader exchange owns inData
    (sameId.symm.trans isNext) with ⟨ht, hooked, notReady⟩
  rcases isChecked.of_hook hooked with ⟨v, stored, ready, _⟩
  -- the volume was that of a trade, which is one of the trades at rest
  have someExchange : 0 < config.exchangeNum := Nat.zero_lt_of_lt exchange
  have target := config.exchangeOf_lt someExchange ht.targetStkCode
  rcases consistent.stored_volume trader target rfl stored ready with
    ⟨targetOwns, positive, trade, found, volume⟩
  have finallyFound := getElem?_of_isPrefix
    (behind.produced consistent finalConsistent quiescent coherent target targetOwns) found
  have serves := (finalConsistent.serving _ target).serves _ targetOwns
  rw [(finalConsistent.informed tr trader).hooked,
    quiescent.seen finalConsistent trader target, serves.produced] at notReady
  rcases Option.map_eq_some_iff.mp notReady with ⟨_, _, stays⟩
  rw [tradeVolume, if_pos positive, finallyFound, Option.map_some, Option.getD_some, volume]
    at stays
  exact ready stays

end Dominated

omit [LinearOrder P] [Zero P] in
theorem Behind.new (config : Config) (inputs : Nat → TraderInput P) (final : Network P) :
    Behind config (Network.new config inputs) final :=
  fun _ _ _ _ => Nat.zero_le _

/-- No step gets ahead of a state of rest. -/
theorem Behind.step (behind : Behind config network final)
    (consistent : Consistent algorithms config inputs network)
    (finalConsistent : Consistent algorithms config inputs final)
    (quiescent : Quiescent config inputs final) (coherent : Coherent config network final)
    (partitioned : Partitioned config inputs orderNum)
    (someWindow : 1 ≤ config.slidingWindowSize)
    (step : network.Step algorithms config inputs network') : Behind config network' final := by
  rcases step.frame with sameTraders | sameExchanges
  · intro e exchange s owns
    by_contra ahead
    rw [not_le] at ahead
    -- an order that is polled after the step was let through before it
    have consistent' := consistent.step partitioned step
    have serves := (consistent'.serving e exchange).serves s owns
    have polled : (((final.exchanges e).threads s).committed.length : Int) + 1 ∈
        ((network'.exchanges e).threads s).polled.map Order.orderId := by
      rw [serves.numbered, mem_idsUpTo]
      omega
    rcases List.mem_map.mp polled with ⟨o, member, isNext⟩
    rcases consistent'.arrived_accepted exchange (serves.genuine o member) with
      ⟨_, tr, trader, _, accepted⟩
    rw [sameTraders] at accepted
    exact behind.not_accepted consistent finalConsistent quiescent coherent partitioned someWindow
      trader exchange owns accepted isNext
  · unfold Behind
    rw [sameExchanges]
    exact behind

theorem Network.Reachable.behind (reachable : Network.Reachable algorithms config inputs network)
    (finalConsistent : Consistent algorithms config inputs final)
    (quiescent : Quiescent config inputs final)
    (partitioned : Partitioned config inputs orderNum)
    (someWindow : 1 ≤ config.slidingWindowSize) (someExchange : 0 < config.exchangeNum) :
    Coherent config network final ∧ Behind config network final := by
  suffices Consistent algorithms config inputs network ∧
      Coherent config network final ∧ Behind config network final from this.2
  refine Transition.Reachable.invariant
    (motive := fun state => Consistent algorithms config inputs state ∧
      Coherent config state final ∧ Behind config state final)
    ⟨Consistent.new algorithms config inputs, Coherent.new config inputs final,
      Behind.new config inputs final⟩ ?_ reachable
  rintro state state' action ⟨consistent, coherent, behind⟩ performed
  have step := Network.next_step performed
  use consistent.step partitioned step
  use coherent.step consistent finalConsistent partitioned someExchange step
  exact behind.step consistent finalConsistent quiescent coherent partitioned someWindow step

/-- In a state of rest every stock has come at least as far as in any other state
that the same input leads to: what was committed, produced and shown to a trader
there is an initial part of what it is at rest.  Two states of rest are the same
in all of this. -/
theorem quiescent_dominates (partitioned : Partitioned config inputs orderNum)
    (someWindow : 1 ≤ config.slidingWindowSize)
    (finalReachable : Network.Reachable algorithms config inputs final)
    (quiescent : Quiescent config inputs final)
    (reachable : Network.Reachable algorithms config inputs network) :
    ∀ e < config.exchangeNum, ∀ s, config.Owns e s →
      (((network.exchanges e).threads s).committed <+:
          ((final.exchanges e).threads s).committed ∧
        ((network.exchanges e).threads s).produced <+:
          ((final.exchanges e).threads s).produced ∧
        ∀ tr < config.traderNum,
          tradesOf s ((network.traders tr).seen e) <+:
            tradesOf s ((final.traders tr).seen e)) ∧
      (Quiescent config inputs network →
        ((network.exchanges e).threads s).committed = ((final.exchanges e).threads s).committed ∧
        ((network.exchanges e).threads s).produced = ((final.exchanges e).threads s).produced ∧
        ∀ tr < config.traderNum,
          tradesOf s ((network.traders tr).seen e) =
            tradesOf s ((final.traders tr).seen e)) := by
  intro e exchange s owns
  have consistent := reachable.consistent partitioned
  have finalConsistent := finalReachable.consistent partitioned
  have someExchange : 0 < config.exchangeNum := Nat.zero_lt_of_lt exchange
  rcases reachable.behind finalConsistent quiescent partitioned someWindow someExchange with
    ⟨coherent, behind⟩
  have committed := behind.committed consistent finalConsistent coherent exchange owns
  have produced := behind.produced consistent finalConsistent quiescent coherent exchange owns
  have finallySeen : ∀ tr < config.traderNum, tradesOf s ((final.traders tr).seen e) =
      ((final.exchanges e).threads s).produced := by
    intro tr trader
    rw [quiescent.seen finalConsistent trader exchange,
      ((finalConsistent.serving e exchange).serves s owns).produced]
  constructor
  · refine ⟨committed, produced, ?_⟩
    intro tr trader
    rw [finallySeen tr trader]
    exact (consistent.tradesOf_seen trader exchange owns).trans produced
  · intro atRest
    rcases finalReachable.behind consistent atRest partitioned someWindow someExchange with
      ⟨backCoherent, back⟩
    have sameProduced := produced.eq_of_length_le
      (back.produced finalConsistent consistent atRest backCoherent exchange owns).length_le
    refine ⟨committed.eq_of_length_le
      (back.committed finalConsistent consistent backCoherent exchange owns).length_le,
      sameProduced, ?_⟩
    intro tr trader
    rw [finallySeen tr trader, atRest.seen consistent trader exchange,
      ((consistent.serving e exchange).serves s owns).produced, sameProduced]

/-- The state in which the first order of the stalled stock is committed. -/
def stalledEarly : Network Int :=
  Network.after binaryHeap smallConfig stalledInputs (stalledRun.take 27)

theorem quiescent_dominates_stalled :
    ((stalledEarly.exchanges 1).threads 1).committed.map Order.orderId = [1] ∧
      ((stalledFinal.exchanges 1).threads 1).committed.map Order.orderId = [1, 2] ∧
      ((stalledEarly.exchanges 1).threads 1).committed <+:
        ((stalledFinal.exchanges 1).threads 1).committed :=
  ⟨by decide +kernel, by decide +kernel,
    (quiescent_dominates stalledInputs_partitioned (by decide) stalledFinal_reachable
      stalledFinal_quiescent (Network.after_reachable (by decide +kernel)) 1 (by decide) 1
      (by decide)).1.1⟩

end PpiwTrading.System
