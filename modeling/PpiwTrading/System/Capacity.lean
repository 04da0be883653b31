import PpiwTrading.Sequence.Counting
import PpiwTrading.System.FlowControl

/-!
# How much is in flight

The window of a stock bounds what all traders together have let through and the
exchange has not polled: these orders carry different numbers of one window
length.  Within a trader the same bound holds for each stock, so the queue of an
order sender, which has a window for each stock of its exchange when the exchanges
share the stocks evenly, never makes the controller wait.
-/

namespace PpiwTrading.System

open PpiwTrading.Heap
open PpiwTrading.Sequence
open PpiwTrading.Trader
open PpiwTrading.Exchange

variable {P : Type}

/-- The orders of a stock that the traders have let through. -/
def letThrough (config : Config) (network : Network P) (stkCode : Int) : List (Order P) :=
  (List.range config.traderNum).flatMap fun tr => (network.traders tr).accepted config stkCode

/-- The ids of the input orders of a stock that the controllers have gone past. -/
def passedIds (config : Config) (inputs : Nat → TraderInput P) (network : Network P)
    (stkCode : Int) : List Int :=
  (List.range config.traderNum).flatMap fun tr =>
    (((inputs tr).sortedOrders stkCode).take
      ((network.traders tr).nextSortedStructIdx stkCode)).map Order.orderId

/-- The orders of a stock between the check of a trader and its exchange: on the wire,
in the message of the sender, in its queue, and collected. -/
def underway (config : Config) (network : Network P) (stkCode : Int) (tr : Nat) :
    List (Order P) :=
  (network.orderChannel (tr, config.exchangeOf stkCode) ++
    (((network.traders tr).orderMsg (config.exchangeOf stkCode)).toList ++
      ((network.traders tr).orderQueue (config.exchangeOf stkCode) ++
        (network.traders tr).orderToSend))).filter fun o => o.stkCode = stkCode

/-- The orders of a stock between the check of a trader and the poll of the exchange:
those underway, and those in the window. -/
def inFlight (config : Config) (network : Network P) (stkCode : Int) : List (Order P) :=
  (List.range config.traderNum).flatMap (underway config network stkCode) ++
    ((network.exchanges (config.exchangeOf stkCode)).orderBuffer stkCode).held

theorem mem_letThrough {config : Config} {network : Network P} {s : Int} {o : Order P} :
    o ∈ letThrough config network s ↔
      ∃ tr < config.traderNum, o ∈ (network.traders tr).accepted config s := by
  simp only [letThrough, List.mem_flatMap, List.mem_range]

variable [LinearOrder P] [Zero P] {algorithms : HeapAlgorithms} {config : Config}
  {inputs : Nat → TraderInput P} {network : Network P} {orderNum : Int → Nat}

/-! ## One stock -/

section Stock

variable (consistent : Consistent algorithms config inputs network)
  (partitioned : Partitioned config inputs orderNum) {e : Nat}
  (exchange : e < config.exchangeNum) {s : Int} (owns : config.Owns e s)

include consistent partitioned

/-- The traders let every id of a stock through once. -/
theorem Consistent.letThrough_distinct (listed : config.Listed s) :
    (letThrough config network s).Pairwise fun o p => o.orderId ≠ p.orderId := by
  rw [letThrough, List.flatMap, List.pairwise_flatten]
  constructor
  · intro accepted member
    rw [List.mem_map] at member
    rcases member with ⟨tr, inRange, rfl⟩
    have increasing := consistent.accepted_increasing partitioned (List.mem_range.mp inRange) listed
    exact increasing.imp fun smaller => smaller.ne
  · rw [List.pairwise_map]
    apply (List.pairwise_lt_range (n := config.traderNum)).imp_of_mem
    intro tr tr' inRange inRange' before o accepted p accepted' sameId
    have same := consistent.accepted_trader partitioned (List.mem_range.mp inRange)
      (List.mem_range.mp inRange') listed accepted accepted' sameId
    omega

/-- However what was let through is divided, no id is on both sides, or twice on one. -/
theorem Consistent.ids_nodup (listed : config.Listed s) {first second : List (Order P)}
    (divided : (letThrough config network s).Perm (first ++ second)) :
    (first.map Order.orderId).Nodup ∧ (second.map Order.orderId).Nodup ∧
      List.Disjoint (first.map Order.orderId) (second.map Order.orderId) := by
  have distinct := consistent.letThrough_distinct partitioned listed
  rw [← List.pairwise_map, ← List.Nodup, (divided.map Order.orderId).nodup_iff, List.map_append,
    List.nodup_append'] at distinct
  exact distinct

include exchange owns

/-- What was let through with a number that has been polled is what was polled. -/
theorem Consistent.mem_polled_iff {o : Order P} :
    o ∈ ((network.exchanges e).threads s).polled ↔
      o ∈ letThrough config network s ∧
        o.orderId ≤ (((network.exchanges e).threads s).polled.length : Int) := by
  have serves := (consistent.serving e exchange).serves s owns
  constructor
  · intro member
    rcases consistent.arrived_accepted exchange (serves.genuine o member) with
      ⟨_, tr, trader, _, accepted⟩
    constructor
    · exact mem_letThrough.mpr ⟨tr, trader, accepted⟩
    · have inIds : o.orderId ∈ idsUpTo ((network.exchanges e).threads s).polled.length := by
        rw [← serves.numbered]
        exact List.mem_map_of_mem member
      exact (mem_idsUpTo.mp inIds).2
  · rintro ⟨isLetThrough, early⟩
    rcases mem_letThrough.mp isLetThrough with ⟨tr, trader, accepted⟩
    have range := consistent.accepted_range partitioned trader owns.1 accepted
    have inPolled : o.orderId ∈ ((network.exchanges e).threads s).polled.map Order.orderId := by
      rw [serves.numbered, mem_idsUpTo]
      exact ⟨range.1, early⟩
    rcases List.mem_map.mp inPolled with ⟨p, polled, sameId⟩
    rcases consistent.arrived_accepted exchange (serves.genuine p polled) with
      ⟨_, tr', trader', _, accepted'⟩
    have same := consistent.accepted_unique partitioned trader' trader owns.1 accepted' accepted
      sameId
    rw [← same]
    exact polled

omit partitioned in
/-- What was let through is what the exchange has received and what is underway. -/
theorem Consistent.letThrough_received :
    (letThrough config network s).Perm
      (((List.range config.traderNum).flatMap fun tr =>
          ((network.exchanges e).received tr).filter fun o => o.stkCode = s) ++
        (List.range config.traderNum).flatMap (underway config network s)) := by
  have shared : letThrough config network s = (List.range config.traderNum).flatMap fun tr =>
      ((network.exchanges e).received tr).filter (fun o => o.stkCode = s) ++
        underway config network s tr := by
    unfold letThrough
    apply List.flatMap_congr
    intro tr inRange
    rw [TraderState.accepted, underway, TraderState.outbox, owns.2,
      consistent.orders tr (List.mem_range.mp inRange) e exchange]
    simp only [List.filter_append, List.append_assoc]
  rw [shared]
  exact (List.flatMap_append_perm _ _ _).symm

/-- The orders of a stock that its exchange has received are those it has polled and
those in the window. -/
theorem Consistent.received_perm :
    ((List.range config.traderNum).flatMap fun tr =>
      ((network.exchanges e).received tr).filter fun o => o.stkCode = s).Perm
        (((network.exchanges e).threads s).polled ++
          ((network.exchanges e).orderBuffer s).held) := by
  have serves := (consistent.serving e exchange).serves s owns
  have receivedNodup : ((List.range config.traderNum).flatMap fun tr =>
      ((network.exchanges e).received tr).filter fun o => o.stkCode = s).Nodup := by
    apply List.Nodup.of_map Order.orderId
    exact (consistent.ids_nodup partitioned owns.1
      (consistent.letThrough_received exchange owns)).1
  have numbers : ∀ o ∈ ((network.exchanges e).threads s).polled,
      o.orderId ≤ (((network.exchanges e).threads s).polled.length : Int) := fun o polled =>
    ((consistent.mem_polled_iff partitioned exchange owns).mp polled).2
  have heldNodup : (((network.exchanges e).threads s).polled ++
      ((network.exchanges e).orderBuffer s).held).Nodup := by
    rw [List.nodup_append']
    refine ⟨serves.polled_nodup.of_map, serves.tracks.held_nodup, ?_⟩
    intro o polled held
    have late := (serves.tracks.mem_held.mp held).2
    have early := numbers o polled
    omega
  rw [List.perm_ext_iff_of_nodup receivedNodup heldNodup]
  intro o
  rw [List.mem_append, serves.tracks.mem_held, List.mem_flatMap]
  constructor
  · rintro ⟨tr, _, member⟩
    rw [List.mem_filter, decide_eq_true_eq] at member
    have arrived : (network.exchanges e).Arrived s o := ⟨member.2, tr, member.1⟩
    rcases consistent.polled_or_held partitioned exchange arrived with polled | held
    · exact Or.inl polled
    · exact Or.inr ⟨arrived, (serves.tracks.sound _ o held).2.1⟩
  · intro served
    have arrived : (network.exchanges e).Arrived s o := by
      rcases served with polled | held
      · exact serves.genuine o polled
      · exact held.1
    rcases arrived with ⟨ownStock, tr, received⟩
    refine ⟨tr, List.mem_range.mpr (consistent.known e exchange tr o received), ?_⟩
    rw [List.mem_filter, decide_eq_true_eq]
    exact ⟨received, ownStock⟩

/-- What was let through is what was polled and what is in flight. -/
theorem Consistent.letThrough_perm :
    (letThrough config network s).Perm
      (((network.exchanges e).threads s).polled ++ inFlight config network s) := by
  have received := consistent.received_perm partitioned exchange owns
  apply (consistent.letThrough_received exchange owns).trans
  apply (received.append_right _).trans
  rw [inFlight, owns.2, List.append_assoc]
  exact List.perm_append_comm.append_left _

/-- At most one window length of orders is in flight. -/
theorem Consistent.inFlight_length_le :
    (inFlight config network s).length ≤ config.slidingWindowSize := by
  have shared := consistent.letThrough_perm partitioned exchange owns
  have distinct := consistent.ids_nodup partitioned owns.1 shared
  apply length_le_of_interval (List.pairwise_map.mp distinct.2.1)
  intro o member
  have isLetThrough : o ∈ letThrough config network s :=
    shared.mem_iff.mpr (List.mem_append_right _ member)
  constructor
  · by_contra early
    have polled := (consistent.mem_polled_iff partitioned exchange owns).mpr
      ⟨isLetThrough, not_lt.mp early⟩
    exact distinct.2.2 (List.mem_map_of_mem polled) (List.mem_map_of_mem member)
  · rcases mem_letThrough.mp isLetThrough with ⟨tr, trader, accepted⟩
    have ownStock : o.stkCode = s := by
      rw [TraderState.accepted, List.mem_filter, decide_eq_true_eq] at accepted
      exact accepted.2
    subst ownStock
    exact consistent.fits trader exchange owns accepted

end Stock

/-- What was let through carries the ids the controllers have gone past. -/
theorem letThrough_ids (consistent : Consistent algorithms config inputs network) (s : Int) :
    (letThrough config network s).map Order.orderId = passedIds config inputs network s := by
  rw [letThrough, passedIds, List.map_flatMap]
  apply List.flatMap_congr
  intro tr inRange
  exact (consistent.dispatched tr (List.mem_range.mp inRange)).accepted_ids s

/-- In every state, under any interleaving: the ids of a stock that the controllers
have gone past are, each exactly once, those of the orders that were polled and of
the orders in flight, collected, queued, in a message, on the wire or in the window,
and these orders are the ones the traders have let through.  No more than one window
length of orders is in flight, however many traders there are. -/
theorem reachable_in_flight (partitioned : Partitioned config inputs orderNum)
    (reachable : Network.Reachable algorithms config inputs network) :
    ∀ e < config.exchangeNum, ∀ s, config.Owns e s →
      (passedIds config inputs network s).Perm
          ((((network.exchanges e).threads s).polled ++ inFlight config network s).map
            Order.orderId) ∧
        (letThrough config network s).Perm
          (((network.exchanges e).threads s).polled ++ inFlight config network s) ∧
        (inFlight config network s).length ≤ config.slidingWindowSize := by
  intro e exchange s owns
  have consistent := reachable.consistent partitioned
  have shared := consistent.letThrough_perm partitioned exchange owns
  refine ⟨?_, shared, consistent.inFlight_length_le partitioned exchange owns⟩
  rw [← letThrough_ids consistent]
  exact shared.map Order.orderId

/-- The small system when order 2 of stock 1 waits in the window and order 1 is on
the wire. -/
def smallSent : Network Int :=
  Network.after binaryHeap smallConfig smallInputs (smallRun.take 20)

theorem reachable_in_flight_sent :
    (smallSent.orderChannel (0, 1)).map Order.orderId = [1] ∧
      ((smallSent.exchanges 1).orderBuffer 1).held.map Order.orderId = [2] ∧
      ((smallSent.exchanges 1).threads 1).polled = [] ∧
      (inFlight smallConfig smallSent 1).map Order.orderId = [1, 2] ∧
      (passedIds smallConfig smallInputs smallSent 1).Perm
        ((((smallSent.exchanges 1).threads 1).polled ++ inFlight smallConfig smallSent 1).map
          Order.orderId) ∧
      (letThrough smallConfig smallSent 1).Perm
        (((smallSent.exchanges 1).threads 1).polled ++ inFlight smallConfig smallSent 1) ∧
      (inFlight smallConfig smallSent 1).length ≤ smallConfig.slidingWindowSize := by
  have reachable : Network.Reachable binaryHeap smallConfig smallInputs smallSent :=
    Network.after_reachable (by decide +kernel)
  refine ⟨by decide +kernel, by decide +kernel, by decide +kernel, by decide +kernel, ?_⟩
  exact reachable_in_flight smallInputs_partitioned reachable 1 (by decide) 1 (by decide)

/-! ## One trader -/

/-- The stocks of an exchange, as its constructor collects them. -/
def ownedStocks (config : Config) (e : Nat) : List Int :=
  (idsUpTo config.stockNum).filter fun s => config.exchangeOf s = e

omit [LinearOrder P] [Zero P] in
theorem mem_ownedStocks {e : Nat} {s : Int} : s ∈ ownedStocks config e ↔ config.Owns e s := by
  simp [ownedStocks, Config.Owns, Config.Listed]

/-- Exchanges that share the stocks evenly have equally many. -/
theorem ownedStocks_length {e : Nat} (exchange : e < config.exchangeNum)
    (even : config.exchangeNum ∣ config.stockNum) :
    (ownedStocks config e).toFinset.card = config.stockNum / config.exchangeNum := by
  rcases even with ⟨share, total⟩
  have positive : (0 : Int) < config.exchangeNum := by omega
  have sameStocks : (ownedStocks config e).toFinset =
      (Finset.Ioc 0 (config.stockNum : Int)).filter fun s =>
        s ≡ e [ZMOD config.exchangeNum] := by
    ext s
    rw [List.mem_toFinset, mem_ownedStocks, Finset.mem_filter, Finset.mem_Ioc]
    have reduced : ((e : Int) % config.exchangeNum) = e :=
      Int.emod_eq_of_lt (by omega) (by omega)
    have nonnegative := Int.emod_nonneg s positive.ne'
    rw [Config.Owns, Config.Listed, Config.exchangeOf, Int.ModEq, reduced]
    constructor
    · rintro ⟨listed, remainder⟩
      rw [Int.tmod_eq_emod_of_nonneg (by omega)] at remainder
      omega
    · rintro ⟨inRange, congruent⟩
      rw [Int.tmod_eq_emod_of_nonneg (by omega)]
      omega
  have counted := Int.Ioc_filter_modEq_card 0 (config.stockNum : Int) positive e
  have nonzero : (config.exchangeNum : ℚ) ≠ 0 := by exact_mod_cast positive.ne'
  have shifted : ((config.stockNum : Int) - (e : Int) : ℚ) / (config.exchangeNum : Int) =
      ((0 : Int) - (e : Int) : ℚ) / (config.exchangeNum : Int) + (share : Int) := by
    rw [total]
    push_cast
    field_simp
    ring
  rw [← sameStocks, shifted, Int.floor_add_intCast] at counted
  rw [total, Nat.mul_div_cancel_left _ (by omega)]
  omega

/-- The orders a trader has let through for an exchange that its sender has not
taken yet: those in the queue and those still to be put there. -/
def waiting (config : Config) (trader : TraderState P) (e : Nat) : List (Order P) :=
  trader.orderQueue e ++ trader.orderToSend.filter fun o => config.exchangeOf o.stkCode = e

section Waiting

variable (consistent : Consistent algorithms config inputs network)
  (partitioned : Partitioned config inputs orderNum) {tr e : Nat} (trader : tr < config.traderNum)

include consistent trader

theorem Consistent.waiting_owned {o : Order P}
    (member : o ∈ waiting config (network.traders tr) e) : config.Owns e o.stkCode := by
  have dispatched := consistent.dispatched tr trader
  rcases List.mem_append.mp member with queued | collected
  · apply dispatched.routed e
    simp [TraderState.outbox, queued]
  · rw [List.mem_filter, decide_eq_true_eq] at collected
    exact ⟨dispatched.listed o collected.1, collected.2⟩

include partitioned

/-- The orders a trader has let through for a stock: those it has sent come before
those that wait. -/
theorem Consistent.sent_before_waiting {o p : Order P}
    (sent : o ∈ (network.traders tr).sent e)
    (member : p ∈ waiting config (network.traders tr) e) (sameStock : o.stkCode = p.stkCode) :
    o.orderId < p.orderId := by
  have owns := consistent.waiting_owned trader member
  have increasing := consistent.accepted_increasing partitioned trader owns.1
  rw [TraderState.accepted, owns.2, TraderState.outbox, List.append_assoc, List.append_assoc,
    List.filter_append, List.pairwise_append] at increasing
  apply increasing.2.2
  · simp [sent, sameStock]
  · rcases List.mem_append.mp member with queued | collected
    · simp [queued]
    · simp [(List.mem_filter.mp collected).1]

theorem Consistent.waiting_distinct :
    (waiting config (network.traders tr) e).Pairwise
      fun o p => o.stkCode = p.stkCode → o.orderId ≠ p.orderId := by
  apply pairwise_of_pairwise_filter
  intro s
  by_cases owns : config.Owns e s
  · have increasing := consistent.accepted_increasing partitioned trader owns.1
    apply List.Pairwise.sublist _ (increasing.imp fun smaller => smaller.ne)
    rw [TraderState.accepted, owns.2, TraderState.outbox]
    apply List.Sublist.filter
    apply List.Sublist.append
    · exact List.sublist_append_right _ _
    · exact List.filter_sublist
  · have none : ((waiting config (network.traders tr) e).filter fun o => o.stkCode = s) = [] := by
      rw [List.filter_eq_nil_iff]
      intro o member ofStock
      apply owns
      rw [← of_decide_eq_true ofStock]
      exact consistent.waiting_owned trader member
    rw [none]
    exact List.Pairwise.nil

/-- What waits has a later number than what has been polled. -/
theorem Consistent.waiting_late (exchange : e < config.exchangeNum) {o : Order P}
    (member : o ∈ waiting config (network.traders tr) e) :
    (((network.exchanges e).threads o.stkCode).polled.length : Int) < o.orderId ∧
      o.orderId ≤ (((network.exchanges e).threads o.stkCode).polled.length : Int) +
        config.slidingWindowSize := by
  have owns := consistent.waiting_owned trader member
  have serves := (consistent.serving e exchange).serves o.stkCode owns
  have accepted : o ∈ (network.traders tr).accepted config o.stkCode := by
    rw [TraderState.accepted, owns.2, TraderState.outbox]
    rcases List.mem_append.mp member with queued | collected
    · simp [queued]
    · simp [(List.mem_filter.mp collected).1]
  refine ⟨?_, consistent.fits trader exchange owns accepted⟩
  by_contra early
  have polled := (consistent.mem_polled_iff partitioned exchange owns).mpr
    ⟨mem_letThrough.mpr ⟨tr, trader, accepted⟩, not_lt.mp early⟩
  rcases consistent.arrived_accepted exchange (serves.genuine o polled) with
    ⟨_, tr', trader', received, accepted'⟩
  have sameTrader := consistent.accepted_trader partitioned trader' trader owns.1 accepted'
    accepted rfl
  subst sameTrader
  have sent : o ∈ (network.traders tr').sent e := by
    rw [consistent.orders tr' trader e exchange]
    exact List.mem_append_left _ received
  have before := consistent.sent_before_waiting partitioned trader sent member rfl
  omega

theorem Consistent.waiting_length_le (exchange : e < config.exchangeNum)
    (even : config.exchangeNum ∣ config.stockNum) :
    (waiting config (network.traders tr) e).length ≤ config.orderQueueCapacity := by
  calc (waiting config (network.traders tr) e).length
      ≤ (ownedStocks config e).toFinset.card * config.slidingWindowSize := by
        apply length_le_card_mul
          (fun s => (((network.exchanges e).threads s).polled.length : Int))
          _ (consistent.waiting_distinct partitioned trader)
        · intro o member
          exact consistent.waiting_late partitioned trader exchange member
        · intro o member
          rw [List.mem_toFinset, mem_ownedStocks]
          exact consistent.waiting_owned trader member
    _ = config.orderQueueCapacity := by
        rw [ownedStocks_length exchange even, Config.orderQueueCapacity, mul_comm,
          Nat.mul_div_assoc _ even]

end Waiting

/-- When the exchanges share the stocks evenly, in every state and under any
interleaving: what a trader has collected for an exchange fits into the queue of
its sender beside what is queued there, so `put_order` never waits and the
controller can always take its next step. -/
theorem reachable_put_order_never_waits (partitioned : Partitioned config inputs orderNum)
    (even : config.exchangeNum ∣ config.stockNum)
    (reachable : Network.Reachable algorithms config inputs network) :
    ∀ tr < config.traderNum,
      (∀ e < config.exchangeNum,
        ((network.traders tr).orderQueue e ++ (network.traders tr).orderToSend.filter
          fun o => config.exchangeOf o.stkCode = e).length ≤ config.orderQueueCapacity) ∧
      ∃ trader', (network.traders tr).control config (inputs tr) = some trader' := by
  intro tr trader
  have consistent := reachable.consistent partitioned
  have fits : ∀ e < config.exchangeNum,
      (waiting config (network.traders tr) e).length ≤ config.orderQueueCapacity :=
    fun e exchange => consistent.waiting_length_le partitioned trader exchange even
  refine ⟨fits, ?_⟩
  unfold TraderState.control
  split
  · split
    · exact ⟨_, rfl⟩
    · exact ⟨_, rfl⟩
  · exact ⟨_, rfl⟩
  · split
    · exact ⟨_, rfl⟩
    · rename_i order rest collected
      have listed : config.Listed order.stkCode := by
        apply (consistent.dispatched tr trader).listed
        simp [collected]
      have someExchange : 0 < config.exchangeNum := by
        rcases Nat.eq_zero_or_pos config.exchangeNum with none | positive
        · rw [none, zero_dvd_iff] at even
          have bounds := listed
          unfold Config.Listed at bounds
          omega
        · exact positive
      have space := fits _ (config.exchangeOf_lt someExchange order.stkCode)
      rw [waiting, collected, List.filter_cons_of_pos (by simp), List.length_append,
        List.length_cons] at space
      simp only
      rw [if_pos (by omega)]
      exact ⟨_, rfl⟩

/-- A run of the small system in which both traders have collected their orders of
stock 1 and no order is sent. -/
def collectedRun : List Action :=
  List.replicate 4 (.control 0) ++ List.replicate 4 (.control 1)

/-- The state `collectedRun` leads to. -/
def collectedState : Network Int :=
  Network.after binaryHeap smallConfig smallInputs collectedRun

theorem collectedState_reachable :
    Network.Reachable binaryHeap smallConfig smallInputs collectedState :=
  Network.after_reachable (by decide +kernel)

theorem reachable_put_order_never_waits_collected :
    (waiting smallConfig (collectedState.traders 0) 1).map Order.orderId = [1] ∧
      ∃ trader', (collectedState.traders 0).control smallConfig (smallInputs 0) = some trader' :=
  ⟨by decide +kernel,
    (reachable_put_order_never_waits smallInputs_partitioned (by decide)
      collectedState_reachable 0 (by decide)).2⟩

end PpiwTrading.System
