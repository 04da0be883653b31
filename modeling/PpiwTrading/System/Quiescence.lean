import PpiwTrading.Exchange.Conservation
import PpiwTrading.System.Hooks

/-!
# Quiescent states

A system that has come to rest: nothing is in a channel, in a queue or in the
hands of a thread, no head slot is available, and no trader can accept its next
order.  The window alone never brings a system to rest.  Every stock has committed
all of its orders, or its next order is hooked and its target is not ready for the
trader that holds it.

A target is not ready when it has not been produced.  It is also not ready when it
was produced with the volume -1, which stands for a trade that has not been seen;
an order with a negative volume gives rise to such a trade.
-/

namespace PpiwTrading.System

open PpiwTrading.Heap
open PpiwTrading.Sequence
open PpiwTrading.Trader
open PpiwTrading.Exchange

variable {P : Type} [LinearOrder P]

/-- Nothing is on its way, and a controller can only scan without accepting an order.  A
thread that waits for room in a queue still holds something, so a state in which it is
stuck at a queue of capacity 0 is not one of rest; with room in the queues a state that
is not one of rest can come closer to it, see `Healthy.advances_or_quiescent`. -/
structure Quiescent (config : Config) (inputs : Nat → TraderInput P) (network : Network P) :
    Prop where
  channels : ∀ tr < config.traderNum, ∀ e < config.exchangeNum,
    network.orderChannel (tr, e) = [] ∧ network.msgChannel (tr, e) = []
  senders : ∀ tr < config.traderNum, ∀ e < config.exchangeNum,
    (network.traders tr).orderQueue e = [] ∧ (network.traders tr).orderMsg e = none
  collected : ∀ tr < config.traderNum, (network.traders tr).orderToSend = []
  queues : ∀ e < config.exchangeNum,
    (network.exchanges e).msgQueue = [] ∧ (network.exchanges e).sending = none
  threads : ∀ e < config.exchangeNum, ∀ s, config.Owns e s →
    ((network.exchanges e).threads s).phase.remaining = [] ∧
      ((network.exchanges e).threads s).phase.pending = []
  heads : ∀ e < config.exchangeNum, ∀ s, config.Owns e s →
    ((network.exchanges e).orderBuffer s).slots ((network.exchanges e).orderBuffer s).head = none
  rejected : ∀ tr < config.traderNum, ∀ s, config.Listed s →
    ∀ order, TraderState.nextOrder (inputs tr) (network.traders tr) s = some order →
      checkOrder (inputs tr) (network.traders tr).info order
        ((network.traders tr).info.slidingWindowStart s + config.slidingWindowSize) s = .ok none

/-- The exchange of a stock has produced its `k`-th trade, counting from 1. -/
def Produced (config : Config) (network : Network P) (s k : Int) (trade : Trade P) : Prop :=
  config.Listed s ∧ 1 ≤ k ∧
    ((network.exchanges (config.exchangeOf s)).threads s).produced[(k - 1).toNat]? = some trade

/-- The next uncommitted order of a stock is hooked, with the target `ht`. -/
def WaitsFor (config : Config) (inputs : Nat → TraderInput P) (network : Network P) (e : Nat)
    (s : Int) (ht : HookTarget) : Prop :=
  ∃ tr < config.traderNum, ∃ data ∈ (inputs tr).sortedOrders s,
    data.orderId = (((network.exchanges e).threads s).committed.length : Int) + 1 ∧
      (inputs tr).hook s data.orderId = some ht

variable [Zero P] {algorithms : HeapAlgorithms} {config : Config} {inputs : Nat → TraderInput P}
  {network : Network P} {orderNum : Int → Nat}

section Rest

variable (consistent : Consistent algorithms config inputs network)
  (quiescent : Quiescent config inputs network) {tr e : Nat} (trader : tr < config.traderNum)
  (exchange : e < config.exchangeNum) {s : Int}

include consistent quiescent exchange

/-- At rest everything polled is committed. -/
theorem Quiescent.committed (owns : config.Owns e s) :
    ((network.exchanges e).threads s).committed = ((network.exchanges e).threads s).polled := by
  have split := ((consistent.serving e exchange).serves s owns).committed_eq.1
  rw [(quiescent.threads e exchange s owns).1, List.append_nil] at split
  exact split.symm

include trader

/-- At rest every trader has seen every message. -/
theorem Quiescent.seen : (network.traders tr).seen e = (network.exchanges e).sent := by
  have messages := consistent.messages tr trader e exchange
  rw [(quiescent.channels tr trader e exchange).2, ExchangeState.unsent,
    (quiescent.queues e exchange).1, (quiescent.queues e exchange).2] at messages
  simpa using messages.symm

/-- At rest every order a trader has let through has arrived. -/
theorem Quiescent.arrived (owns : config.Owns e s) {o : Order P}
    (accepted : o ∈ (network.traders tr).accepted config s) :
    (network.exchanges e).Arrived s o := by
  rw [TraderState.accepted, owns.2, TraderState.outbox,
    consistent.orders tr trader e exchange, (quiescent.channels tr trader e exchange).1,
    (quiescent.senders tr trader e exchange).1, (quiescent.senders tr trader e exchange).2,
    quiescent.collected tr trader] at accepted
  simp only [Option.toList_none, List.append_nil, List.mem_filter, decide_eq_true_eq] at accepted
  exact ⟨accepted.2, tr, accepted.1⟩

/-- At rest the window of every trader starts after the committed orders. -/
theorem Quiescent.windowStart (owns : config.Owns e s) :
    (network.traders tr).info.slidingWindowStart s =
      (((network.exchanges e).threads s).committed.length : Int) + 1 := by
  have serves := (consistent.serving e exchange).serves s owns
  have idle : ((network.exchanges e).threads s).phase.unacked = [] := by
    have remaining := (quiescent.threads e exchange s owns).1
    cases phase : ((network.exchanges e).threads s).phase with
    | consuming orders => rwa [phase] at remaining
    | acking orders => rwa [phase] at remaining
    | receiving orders pending => rfl
  have acked := serves.acked
  rw [idle, ← quiescent.committed consistent exchange owns] at acked
  rw [(consistent.informed tr trader).starts, owns.2,
    quiescent.seen consistent trader exchange, lastAck]
  simpa using acked

end Rest

/-! ## The next order -/

/-- No more orders are polled than the input has. -/
theorem Consistent.polled_le (consistent : Consistent algorithms config inputs network)
    (partitioned : Partitioned config inputs orderNum) {e : Nat}
    (exchange : e < config.exchangeNum) {s : Int} (owns : config.Owns e s) :
    ((network.exchanges e).threads s).polled.length ≤ orderNum s := by
  have serves := (consistent.serving e exchange).serves s owns
  by_contra more
  have inPolled : (((network.exchanges e).threads s).polled.length : Int) ∈
      ((network.exchanges e).threads s).polled.map Order.orderId := by
    rw [serves.numbered, mem_idsUpTo]
    omega
  rcases List.mem_map.mp inPolled with ⟨o, member, isLast⟩
  rcases consistent.arrived_accepted exchange (serves.genuine o member) with
    ⟨_, tr, trader, _, accepted⟩
  have range := consistent.accepted_range partitioned trader owns.1 accepted
  omega

/-- An order of the input with the id of a polled order has been let through. -/
theorem Consistent.taken_of_polled (consistent : Consistent algorithms config inputs network)
    (partitioned : Partitioned config inputs orderNum) {tr e : Nat}
    (trader : tr < config.traderNum) (exchange : e < config.exchangeNum) {s : Int}
    (owns : config.Owns e s) {data : Order P} (inData : data ∈ (inputs tr).sortedOrders s)
    (early : data.orderId ≤ ((network.exchanges e).threads s).polled.length) :
    ∃ taken ∈ ((inputs tr).sortedOrders s).take ((network.traders tr).nextSortedStructIdx s),
      taken.orderId = data.orderId := by
  have serves := (consistent.serving e exchange).serves s owns
  have range := (partitioned.covered s owns.1 data.orderId).mp ⟨tr, trader, data, inData, rfl⟩
  have inPolled : data.orderId ∈ ((network.exchanges e).threads s).polled.map Order.orderId := by
    rw [serves.numbered, mem_idsUpTo]
    exact ⟨range.1, early⟩
  rcases List.mem_map.mp inPolled with ⟨o, member, sameId⟩
  rcases consistent.arrived_accepted exchange (serves.genuine o member) with
    ⟨_, tr', trader', _, accepted⟩
  rcases exists_of_forall₂ ((consistent.dispatched tr' trader').checked s) o accepted with
    ⟨taken, isTaken, isChecked⟩
  have takenId : taken.orderId = data.orderId := by
    rw [← sameId, isChecked.fields]
  have sameTrader := partitioned.disjoint s owns.1 tr' trader' tr trader taken
    (List.mem_of_mem_take isTaken) data inData takenId
  subst sameTrader
  exact ⟨taken, isTaken, takenId⟩

/-- At rest the order after the committed ones is the next order of the trader
that holds it. -/
theorem Quiescent.nextOrder (quiescent : Quiescent config inputs network)
    (consistent : Consistent algorithms config inputs network)
    (partitioned : Partitioned config inputs orderNum) {tr e : Nat}
    (trader : tr < config.traderNum) (exchange : e < config.exchangeNum) {s : Int}
    (owns : config.Owns e s) {data : Order P} (inData : data ∈ (inputs tr).sortedOrders s)
    (isNext : data.orderId = (((network.exchanges e).threads s).committed.length : Int) + 1) :
    TraderState.nextOrder (inputs tr) (network.traders tr) s =
      some (TraderState.generateOrder s data) := by
  have serves := (consistent.serving e exchange).serves s owns
  rw [quiescent.committed consistent exchange owns] at isNext
  have sorted := partitioned.sorted s owns.1 tr trader
  rw [← List.take_append_drop ((network.traders tr).nextSortedStructIdx s)
    ((inputs tr).sortedOrders s)] at inData sorted
  rw [List.pairwise_append] at sorted
  rw [TraderState.nextOrder, ← List.head?_drop]
  rcases List.mem_append.mp inData with taken | later
  · -- it was let through, so it has arrived, and the head slot would hold it
    exfalso
    have inAccepted : data.orderId ∈
        ((network.traders tr).accepted config s).map Order.orderId := by
      rw [(consistent.dispatched tr trader).accepted_ids]
      exact List.mem_map_of_mem taken
    rcases List.mem_map.mp inAccepted with ⟨o, accepted, sameId⟩
    exact serves.tracks.not_arrived (quiescent.heads e exchange s owns) (sameId.trans isNext)
      (quiescent.arrived consistent trader exchange owns accepted)
  · cases rest : ((inputs tr).sortedOrders s).drop
        ((network.traders tr).nextSortedStructIdx s) with
    | nil =>
        rw [rest] at later
        cases later
    | cons head tail =>
        rw [rest] at later sorted
        rcases List.mem_cons.mp later with rfl | inTail
        · rfl
        · -- the head has a smaller id, so it was let through before it is next
          exfalso
          have smaller := (List.pairwise_cons.mp sorted.2.1).1 data inTail
          have inInput : head ∈ (inputs tr).sortedOrders s := by
            apply List.mem_of_mem_drop (i := (network.traders tr).nextSortedStructIdx s)
            rw [rest]
            exact List.mem_cons_self
          rcases consistent.taken_of_polled partitioned trader exchange owns inInput
              (by omega) with ⟨taken, isTaken, sameId⟩
          have before := sorted.2.2 taken isTaken head List.mem_cons_self
          omega

/-- At rest an order that could be accepted is hooked and its target is not ready. -/
theorem Quiescent.hooked (quiescent : Quiescent config inputs network)
    (consistent : Consistent algorithms config inputs network)
    (partitioned : Partitioned config inputs orderNum) {tr e : Nat}
    (someWindow : 1 ≤ config.slidingWindowSize)
    (trader : tr < config.traderNum) (exchange : e < config.exchangeNum) {s : Int}
    (owns : config.Owns e s) {data : Order P} (inData : data ∈ (inputs tr).sortedOrders s)
    (isNext : data.orderId = (((network.exchanges e).threads s).committed.length : Int) + 1) :
    ∃ ht, (inputs tr).hook s data.orderId = some ht ∧
      (network.traders tr).info.hookedTrade ht.targetStkCode ht.targetTradeIdx = some (-1) := by
  have rejected := quiescent.rejected tr trader s owns.1 _
    (quiescent.nextOrder consistent partitioned trader exchange owns inData isNext)
  have start := quiescent.windowStart consistent trader exchange owns
  rcases checkOrder_eq_none rejected with beyond | ⟨ht, hooked, stored⟩
  · exfalso
    have sameId : (TraderState.generateOrder s data).orderId = data.orderId := rfl
    omega
  · exact ⟨ht, hooked, stored⟩

/-! ## The volumes of produced trades -/

/-- The orders of the input have positive `int` volumes. -/
def PositiveVolumes (config : Config) (inputs : Nat → TraderInput P) : Prop :=
  ∀ tr < config.traderNum, ∀ s, config.Listed s → ∀ data ∈ (inputs tr).sortedOrders s,
    0 < data.volume ∧ data.volume ≤ intMax

/-- The polled orders of a stock have increasing ids and positive volumes. -/
theorem Consistent.polled_feed (consistent : Consistent algorithms config inputs network)
    (volumes : PositiveVolumes config inputs) {e : Nat} (exchange : e < config.exchangeNum)
    {s : Int} (owns : config.Owns e s) : Feed ((network.exchanges e).threads s).polled := by
  have serves := (consistent.serving e exchange).serves s owns
  constructor
  · have increasing := idsUpTo_increasing ((network.exchanges e).threads s).polled.length
    rw [← serves.numbered] at increasing
    exact List.pairwise_map.mp increasing
  · intro o member
    rcases consistent.arrived_accepted exchange (serves.genuine o member) with
      ⟨_, tr, trader, _, accepted⟩
    rcases (consistent.dispatched tr trader).exists_data accepted with
      ⟨data, inData, isChecked⟩
    rw [isChecked.fields]
    exact volumes tr trader s owns.1 data inData

theorem Consistent.committed_feed (consistent : Consistent algorithms config inputs network)
    (volumes : PositiveVolumes config inputs) {e : Nat} (exchange : e < config.exchangeNum)
    {s : Int} (owns : config.Owns e s) : Feed ((network.exchanges e).threads s).committed := by
  have feed := consistent.polled_feed volumes exchange owns
  rw [((consistent.serving e exchange).serves s owns).committed_eq.1] at feed
  exact feed.append_left

theorem Consistent.produced_positive (consistent : Consistent algorithms config inputs network)
    (volumes : PositiveVolumes config inputs) {e : Nat} (exchange : e < config.exchangeNum)
    {s : Int} (owns : config.Owns e s) :
    ∀ trade ∈ ((network.exchanges e).threads s).produced, 0 < trade.volume := by
  have effect := ((consistent.serving e exchange).serves s owns).committed_eq.2
  have feed := consistent.committed_feed volumes exchange owns
  intro trade produced
  exact commitOrders_trades_positive feed effect trade (List.mem_append_left _ produced)

/-! ## The window never stalls by itself -/

/-- At rest a hooked trade that was produced and is not ready has the volume -1. -/
theorem Quiescent.volume_of_produced (quiescent : Quiescent config inputs network)
    (consistent : Consistent algorithms config inputs network) {tr : Nat}
    (trader : tr < config.traderNum) (someExchange : 0 < config.exchangeNum) {s k : Int}
    (notReady : (network.traders tr).info.hookedTrade s k = some (-1)) {trade : Trade P}
    (produced : Produced config network s k trade) : trade.volume = -1 := by
  have exchange := config.exchangeOf_lt someExchange s
  rcases produced with ⟨listed, positive, found⟩
  have serves := (consistent.serving _ exchange).serves s ⟨listed, rfl⟩
  rw [(consistent.informed tr trader).hooked, quiescent.seen consistent trader exchange,
    serves.produced] at notReady
  rcases Option.map_eq_some_iff.mp notReady with ⟨_, _, volume⟩
  rw [← volume, tradeVolume, if_pos positive, found]
  rfl

/-- In every state of rest, under any interleaving, a stock has committed orders 1
to `k`, and either these are all of its orders or the next one is hooked and its
target was not produced, or was produced with the volume -1.  The latter does not
happen when the orders of the input have positive `int` volumes. -/
theorem quiescent_waits_for_target (partitioned : Partitioned config inputs orderNum)
    (someWindow : 1 ≤ config.slidingWindowSize)
    (reachable : Network.Reachable algorithms config inputs network)
    (quiescent : Quiescent config inputs network) :
    ∀ e < config.exchangeNum, ∀ s, config.Owns e s →
      ((network.exchanges e).threads s).committed.map Order.orderId =
          idsUpTo ((network.exchanges e).threads s).committed.length ∧
        (((network.exchanges e).threads s).committed.length = orderNum s ∨
          ∃ ht, WaitsFor config inputs network e s ht ∧
            (∀ trade, Produced config network ht.targetStkCode ht.targetTradeIdx trade →
              trade.volume = -1) ∧
            (PositiveVolumes config inputs → ∀ trade,
              ¬ Produced config network ht.targetStkCode ht.targetTradeIdx trade)) := by
  intro e exchange s owns
  have consistent := reachable.consistent partitioned
  have serves := (consistent.serving e exchange).serves s owns
  have committed := quiescent.committed consistent exchange owns
  refine ⟨by rw [committed]; exact serves.numbered, ?_⟩
  by_cases all : ((network.exchanges e).threads s).committed.length = orderNum s
  · exact Or.inl all
  · right
    have notBeyond := consistent.polled_le partitioned exchange owns
    rw [← committed] at notBeyond
    rcases (partitioned.covered s owns.1
        (((network.exchanges e).threads s).committed.length + 1)).mpr (by omega) with
      ⟨tr, trader, data, inData, isNext⟩
    rcases quiescent.hooked consistent partitioned someWindow trader exchange owns inData isNext
      with ⟨ht, hooked, notReady⟩
    have someExchange : 0 < config.exchangeNum := Nat.zero_lt_of_lt exchange
    have volume : ∀ trade,
        Produced config network ht.targetStkCode ht.targetTradeIdx trade → trade.volume = -1 :=
      fun trade => quiescent.volume_of_produced consistent trader someExchange notReady
    refine ⟨ht, ⟨tr, trader, data, inData, isNext, hooked⟩, volume, ?_⟩
    intro volumes trade produced
    have positive := consistent.produced_positive volumes
      (config.exchangeOf_lt someExchange ht.targetStkCode) ⟨produced.1, rfl⟩ trade
      (List.mem_of_getElem? produced.2.2)
    rw [volume trade produced] at positive
    omega

/-! ## A trade with the volume -1

Order 2 of stock 1 buys a volume of -1 from order 1.  The engine reports a trade
with that volume, and order 3, which waits for it, is never accepted. -/

def stalledOrders (traderIdx : Nat) (stkCode : Int) : List (Order Int) :=
  if stkCode = 1 then
    if traderIdx = 0 then [⟨1, 1, -1, 0, 5, 10⟩, ⟨1, 3, 1, 0, 5, 10⟩]
    else [⟨1, 2, 1, 0, 5, -1⟩]
  else []

def stalledInputs (traderIdx : Nat) : TraderInput Int where
  hookRows := [⟨1, 3, ⟨1, 1, 5⟩⟩]
  lowerLimits := fun _ => 1
  upperLimits := fun _ => 9
  sortedOrders := stalledOrders traderIdx

def stalledOrderNum (s : Int) : Nat :=
  if s = 1 then 3 else 0

theorem stalledInputs_partitioned : Partitioned smallConfig stalledInputs stalledOrderNum :=
  Partitioned.of_perm (by decide) (by decide)

def stalledRun : List Action :=
  List.flatten
    [ List.replicate 8 (.control 0),
      List.replicate 8 (.control 1),
      [.pollOrder 0 1, .sendOrder 0 1, .receiveOrder 0 1],
      [.pollOrder 1 1, .sendOrder 1 1, .receiveOrder 1 1],
      List.replicate 8 (.work 1 1),
      [.takeMsg 1, .sendMsg 1, .sendMsg 1, .takeMsg 1, .sendMsg 1, .sendMsg 1],
      [.receiveMsg 0 1, .receiveMsg 0 1, .receiveMsg 1 1, .receiveMsg 1 1]]

/-- The state `stalledRun` leads to. -/
def stalledFinal : Network Int :=
  Network.after binaryHeap smallConfig stalledInputs stalledRun

theorem stalledFinal_reachable :
    Network.Reachable binaryHeap smallConfig stalledInputs stalledFinal :=
  Network.after_reachable (by decide +kernel)

theorem stalledFinal_quiescent : Quiescent smallConfig stalledInputs stalledFinal := by
  have idle : ∀ e < 2, ∀ s ∈ idsUpTo 2,
      (((stalledFinal.exchanges e).threads s).phase.remaining = [] ∧
        ((stalledFinal.exchanges e).threads s).phase.pending = []) ∧
      ((stalledFinal.exchanges e).orderBuffer s).slots
        ((stalledFinal.exchanges e).orderBuffer s).head = none := by decide +kernel
  have rejected : ∀ tr < 2, ∀ s ∈ idsUpTo 2,
      ∀ order ∈ TraderState.nextOrder (stalledInputs tr) (stalledFinal.traders tr) s,
        checkOrder (stalledInputs tr) (stalledFinal.traders tr).info order
          ((stalledFinal.traders tr).info.slidingWindowStart s + 2) s = .ok none := by
    decide +kernel
  constructor
  · decide +kernel
  · decide +kernel
  · decide +kernel
  · decide +kernel
  · exact fun e exchange s owns => (idle e exchange s (mem_idsUpTo.mpr owns.1)).1
  · exact fun e exchange s owns => (idle e exchange s (mem_idsUpTo.mpr owns.1)).2
  · exact fun tr trader s listed => rejected tr trader s (mem_idsUpTo.mpr listed)

/-- A state of rest in which the next order of a stock waits for a trade that was
produced. -/
theorem quiescent_target_produced :
    Partitioned smallConfig stalledInputs stalledOrderNum ∧ 1 ≤ smallConfig.slidingWindowSize ∧
      Network.Reachable binaryHeap smallConfig stalledInputs stalledFinal ∧
      Quiescent smallConfig stalledInputs stalledFinal ∧
      ((stalledFinal.exchanges 1).threads 1).committed.length = 2 ∧
      Produced smallConfig stalledFinal 1 1 ⟨1, 2, 1, 5, -1⟩ ∧
      ¬ ∀ e < smallConfig.exchangeNum, ∀ s, smallConfig.Owns e s →
        ((stalledFinal.exchanges e).threads s).committed.length = stalledOrderNum s ∨
          ∃ ht, WaitsFor smallConfig stalledInputs stalledFinal e s ht ∧
            ∀ trade,
              ¬ Produced smallConfig stalledFinal ht.targetStkCode ht.targetTradeIdx trade := by
  have committed : ((stalledFinal.exchanges 1).threads 1).committed.length = 2 := by
    decide +kernel
  have produced : Produced smallConfig stalledFinal 1 1 ⟨1, 2, 1, 5, -1⟩ :=
    ⟨by decide, by decide, by decide +kernel⟩
  refine ⟨stalledInputs_partitioned, by decide, stalledFinal_reachable,
    stalledFinal_quiescent, committed, produced, ?_⟩
  intro claimed
  rcases claimed 1 (by decide) 1 (by decide) with all | ⟨ht, ⟨tr, _, data, _, isNext, hooked⟩, none⟩
  · rw [committed] at all
    cases all
  · rw [committed] at isNext
    rw [isNext] at hooked
    have target : ht = ⟨1, 1, 5⟩ := by
      have row : (stalledInputs tr).hook 1 3 = some ⟨1, 1, 5⟩ := rfl
      exact Option.some.inj (hooked.symm.trans row)
    rw [target] at none
    exact none _ produced

theorem quiescent_waits_for_target_stalled :
    ∃ ht, WaitsFor smallConfig stalledInputs stalledFinal 1 1 ht ∧
      ∀ trade, Produced smallConfig stalledFinal ht.targetStkCode ht.targetTradeIdx trade →
        trade.volume = -1 := by
  have waits := quiescent_waits_for_target stalledInputs_partitioned (by decide)
    stalledFinal_reachable stalledFinal_quiescent 1 (by decide) 1 (by decide)
  rcases waits.2 with all | ⟨ht, isNext, volume, _⟩
  · exact absurd all (by decide +kernel)
  · exact ⟨ht, isNext, volume⟩

end PpiwTrading.System
