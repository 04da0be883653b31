import PpiwTrading.System.Effort

/-!
# The system comes to rest

No queue, full or empty, and no order of steps can bring the processes into a
state in which they wait for each other.  As long as a state is not quiescent some
process can lower the potential, possibly after a controller has gone once through
its loops, and so a state of rest can be reached from every state.

With positive volumes no process fails an assertion on the way.
-/

namespace PpiwTrading.System

open PpiwTrading.Heap
open PpiwTrading.Sequence
open PpiwTrading.Trader
open PpiwTrading.Exchange
open PpiwTrading.Transition (Reachable)

variable {P : Type} [LinearOrder P] [Zero P] {algorithms : HeapAlgorithms} {config : Config}
  {inputs : Nat → TraderInput P} {network network' : Network P} {orderNum : Int → Nat}

/-! ## No process fails -/

/-- A step of a stock thread does not fail when the engine returns. -/
theorem work_fault {ex ex' : ExchangeState P} {s : Int}
    (returns : ∀ order rest, (ex.threads s).phase = .receiving (order :: rest) [] →
      ∃ received, Exchange.receiveOrder algorithms (ex.threads s).exchange order = .ok received)
    (step : ex.work algorithms config s = some ex') : ex'.fault = ex.fault := by
  unfold ExchangeState.work at step
  simp only at step
  split at step
  · unfold ExchangeState.pollSlot at step
    split at step
    · cases step
      rfl
    · split at step
      · cases step
      · cases step
        rfl
  · unfold ExchangeState.ackOrders at step
    split at step
    · cases step
    · split at step
      · cases step
        rfl
      · cases step
  · unfold ExchangeState.produceTrade at step
    split at step
    · cases step
      rfl
    · cases step
  · rename_i order rest receiving
    cases step
    rcases returns order rest receiving with ⟨received, returned⟩
    simp only [ExchangeState.receiveNext, returned]
    rfl
  · cases step
    rfl

/-- The invariants together: no exchange has failed either. -/
structure Healthy (algorithms : HeapAlgorithms) (config : Config)
    (inputs : Nat → TraderInput P) (network : Network P) : Prop where
  consistent : Consistent algorithms config inputs network
  tidy : Tidy config network
  exchangesRun : ∀ e < config.exchangeNum, (network.exchanges e).fault = none

theorem Healthy.new (algorithms : HeapAlgorithms) (config : Config)
    (inputs : Nat → TraderInput P) :
    Healthy algorithms config inputs (Network.new config inputs) where
  consistent := Consistent.new algorithms config inputs
  tidy := Tidy.new inputs
  exchangesRun := fun _ _ => rfl

theorem Healthy.step (healthy : Healthy algorithms config inputs network)
    (partitioned : Partitioned config inputs orderNum) (volumes : PositiveVolumes config inputs)
    (step : network.Step algorithms config inputs network') :
    Healthy algorithms config inputs network' where
  consistent := healthy.consistent.step partitioned step
  tidy := healthy.tidy.step step
  exchangesRun := by
    have updated : ∀ {e : Nat} {ex : ExchangeState P},
        (e < config.exchangeNum → ex.fault = (network.exchanges e).fault) →
        ∀ e' < config.exchangeNum, (Function.update network.exchanges e ex e').fault = none := by
      intro e ex same
      exact (Function.forall_update_iff network.exchanges fun e' state =>
        e' < config.exchangeNum → state.fault = none).mpr
          ⟨fun exchange => (same exchange).trans (healthy.exchangesRun e exchange),
            fun e' _ => healthy.exchangesRun e'⟩
    cases step with
    | control => exact healthy.exchangesRun
    | pollOrder => exact healthy.exchangesRun
    | sendOrder => exact healthy.exchangesRun
    | receiveMsg => exact healthy.exchangesRun
    | receiveOrder =>
        apply updated
        intro _
        simp only [ExchangeState.receiveOrder]
        split <;> rfl
    | @work e s ex runs owns step =>
        apply updated
        intro exchange
        apply work_fault _ step
        intro order rest receiving
        rcases healthy.consistent.engine_returns volumes exchange owns receiving with
          ⟨received, returned, _⟩
        exact ⟨received, returned⟩
    | takeMsg _ step =>
        apply updated
        intro _
        unfold ExchangeState.takeMsg at step
        split at step
        · cases step
          rfl
        · cases step
    | sendMsg _ step =>
        apply updated
        intro _
        unfold ExchangeState.sendMsg at step
        split at step
        · cases step
        · cases step
          rfl

theorem Healthy.reachable (healthy : Healthy algorithms config inputs network)
    (partitioned : Partitioned config inputs orderNum) (volumes : PositiveVolumes config inputs)
    (later : Reachable (Network.next algorithms config inputs) network network') :
    Healthy algorithms config inputs network' :=
  Reachable.invariant (motive := Healthy algorithms config inputs) healthy
    (fun healthy performed => healthy.step partitioned volumes (Network.next_step performed)) later

theorem Network.Reachable.healthy
    (reachable : Network.Reachable algorithms config inputs network)
    (partitioned : Partitioned config inputs orderNum) (volumes : PositiveVolumes config inputs) :
    Healthy algorithms config inputs network :=
  (Healthy.new algorithms config inputs).reachable partitioned volumes reachable

/-- When the orders of the input have positive `int` volumes no process ever fails:
no assertion of the matching engine, of a window or of a trader, and no order is
turned away by an exchange. -/
theorem reachable_no_fault (partitioned : Partitioned config inputs orderNum)
    (volumes : PositiveVolumes config inputs)
    (reachable : Network.Reachable algorithms config inputs network) :
    (∀ tr < config.traderNum, (network.traders tr).fault = none) ∧
      ∀ e < config.exchangeNum, (network.exchanges e).fault = none ∧
        (network.exchanges e).cerr = [] := by
  have healthy := reachable.healthy partitioned volumes
  exact ⟨healthy.consistent.running, fun e exchange =>
    ⟨healthy.exchangesRun e exchange, (healthy.consistent.serving e exchange).quiet⟩⟩

theorem reachable_no_fault_small :
    (∀ tr < 2, (smallFinal.traders tr).fault = none) ∧
      ∀ e < 2, (smallFinal.exchanges e).fault = none ∧ (smallFinal.exchanges e).cerr = [] :=
  reachable_no_fault smallInputs_partitioned smallInputs_volumes smallFinal_reachable

/-! ## Steps that lower the potential -/

/-- What is in a channel can be received. -/
theorem Healthy.receives_order (healthy : Healthy algorithms config inputs network) {tr e : Nat}
    (trader : tr < config.traderNum) (exchange : e < config.exchangeNum)
    (held : network.orderChannel (tr, e) ≠ []) :
    ∃ network', Network.next algorithms config inputs (.receiveOrder tr e) network =
      some network' := by
  rcases List.exists_cons_of_ne_nil held with ⟨order, rest, channel⟩
  simp only [Network.next, channel]
  rw [if_pos ⟨trader, exchange, healthy.exchangesRun e exchange⟩]
  exact ⟨_, rfl⟩

theorem Healthy.receives_msg (healthy : Healthy algorithms config inputs network) {tr e : Nat}
    (trader : tr < config.traderNum) (exchange : e < config.exchangeNum)
    (held : network.msgChannel (tr, e) ≠ []) :
    ∃ network', Network.next algorithms config inputs (.receiveMsg tr e) network =
      some network' := by
  rcases List.exists_cons_of_ne_nil held with ⟨msg, rest, channel⟩
  have runs : network.TraderRuns config tr := ⟨trader, healthy.consistent.running tr trader⟩
  simp only [Network.next, channel]
  rw [if_pos ⟨runs, exchange⟩]
  exact ⟨_, rfl⟩

/-- The potential can be lowered from a state. -/
def Advances (algorithms : HeapAlgorithms) (config : Config) (inputs : Nat → TraderInput P)
    (network : Network P) : Prop :=
  ∃ network', Reachable (Network.next algorithms config inputs) network network' ∧
    effort config inputs network' < effort config inputs network

section Advances

variable (healthy : Healthy algorithms config inputs network)
  (volumes : PositiveVolumes config inputs) {tr e : Nat}

include healthy volumes

/-- A step of a process other than a controller. -/
theorem Healthy.advances (action : Action)
    (performed : Network.next algorithms config inputs action network = some network')
    (working : ∀ tr, action ≠ .control tr) : Advances algorithms config inputs network := by
  refine ⟨network', Reachable.refl.tail performed, ?_⟩
  rcases healthy.consistent.effort_step healthy.tidy volumes performed with
    ⟨tr, pc, isControl, _⟩ | less
  · exact absurd isControl (working tr)
  · exact less

theorem Healthy.advances_of_orderChannel (trader : tr < config.traderNum)
    (exchange : e < config.exchangeNum) (held : network.orderChannel (tr, e) ≠ []) :
    Advances algorithms config inputs network := by
  rcases healthy.receives_order trader exchange held with ⟨network', performed⟩
  exact healthy.advances volumes _ performed (by simp)

theorem Healthy.advances_of_msgChannel (trader : tr < config.traderNum)
    (exchange : e < config.exchangeNum) (held : network.msgChannel (tr, e) ≠ []) :
    Advances algorithms config inputs network := by
  rcases healthy.receives_msg trader exchange held with ⟨network', performed⟩
  exact healthy.advances volumes _ performed (by simp)

theorem Healthy.advances_of_orderMsg (trader : tr < config.traderNum)
    (exchange : e < config.exchangeNum) {order : Order P}
    (held : (network.traders tr).orderMsg e = some order) :
    Advances algorithms config inputs network := by
  have runs : network.TraderRuns config tr := ⟨trader, healthy.consistent.running tr trader⟩
  have performed : ∃ network',
      Network.next algorithms config inputs (.sendOrder tr e) network = some network' := by
    simp only [Network.next, if_pos (And.intro runs exchange), TraderState.sendOrder, held]
    exact ⟨_, rfl⟩
  rcases performed with ⟨network', performed⟩
  exact healthy.advances volumes _ performed (by simp)

theorem Healthy.advances_of_orderQueue (trader : tr < config.traderNum)
    (exchange : e < config.exchangeNum) (held : (network.traders tr).orderQueue e ≠ []) :
    Advances algorithms config inputs network := by
  cases taken : (network.traders tr).orderMsg e with
  | some order => exact healthy.advances_of_orderMsg volumes trader exchange taken
  | none =>
      rcases List.exists_cons_of_ne_nil held with ⟨order, rest, queued⟩
      have runs : network.TraderRuns config tr := ⟨trader, healthy.consistent.running tr trader⟩
      have performed : ∃ network',
          Network.next algorithms config inputs (.pollOrder tr e) network = some network' := by
        simp only [Network.next, if_pos (And.intro runs exchange), TraderState.pollOrder, taken,
          queued]
        exact ⟨_, rfl⟩
      rcases performed with ⟨network', performed⟩
      exact healthy.advances volumes _ performed (by simp)

theorem Healthy.advances_of_sending (exchange : e < config.exchangeNum) {msg : Msg P} {idx : Nat}
    (held : (network.exchanges e).sending = some (msg, idx)) :
    Advances algorithms config inputs network := by
  have runs : network.ExchangeRuns config e := ⟨exchange, healthy.exchangesRun e exchange⟩
  have performed : ∃ network',
      Network.next algorithms config inputs (.sendMsg e) network = some network' := by
    simp only [Network.next, if_pos runs, ExchangeState.sendMsg, held]
    exact ⟨_, rfl⟩
  rcases performed with ⟨network', performed⟩
  exact healthy.advances volumes _ performed (by simp)

theorem Healthy.advances_of_msgQueue (exchange : e < config.exchangeNum)
    (held : (network.exchanges e).msgQueue ≠ []) : Advances algorithms config inputs network := by
  cases taken : (network.exchanges e).sending with
  | some sending => exact healthy.advances_of_sending volumes exchange taken
  | none =>
      rcases List.exists_cons_of_ne_nil held with ⟨msg, rest, queued⟩
      have runs : network.ExchangeRuns config e := ⟨exchange, healthy.exchangesRun e exchange⟩
      have performed : ∃ network',
          Network.next algorithms config inputs (.takeMsg e) network = some network' := by
        simp only [Network.next, if_pos runs, ExchangeState.takeMsg, taken, queued]
        exact ⟨_, rfl⟩
      rcases performed with ⟨network', performed⟩
      exact healthy.advances volumes _ performed (by simp)

/-- A queue of messages has room, or its sender can go on. -/
theorem Healthy.advances_or_room (exchange : e < config.exchangeNum)
    (capacity : 0 < config.msgQueueCapacity) :
    Advances algorithms config inputs network ∨
      (network.exchanges e).msgQueue.length < config.msgQueueCapacity := by
  cases queue : (network.exchanges e).msgQueue with
  | nil => exact Or.inr capacity
  | cons msg rest =>
      left
      apply healthy.advances_of_msgQueue volumes exchange
      rw [queue]
      exact List.cons_ne_nil msg rest

/-- A stock thread rests only when it has polled everything and its window has no
next order. -/
theorem Healthy.advances_or_rests (exchange : e < config.exchangeNum)
    (capacity : 0 < config.msgQueueCapacity) {s : Int} (owns : config.Owns e s) :
    Advances algorithms config inputs network ∨
      ((network.exchanges e).threads s).phase = .consuming [] ∧
        ((network.exchanges e).orderBuffer s).slots
          ((network.exchanges e).orderBuffer s).head = none := by
  have runs : network.ExchangeRuns config e := ⟨exchange, healthy.exchangesRun e exchange⟩
  have works : (∃ ex, (network.exchanges e).work algorithms config s = some ex) →
      Advances algorithms config inputs network := by
    rintro ⟨ex, step⟩
    have performed : Network.next algorithms config inputs (.work e s) network =
        some (network.setExchange e ex) := by
      simp only [Network.next, if_pos (And.intro runs owns), step, Option.map_some]
    exact healthy.advances volumes _ performed (by simp)
  rcases healthy.advances_or_room volumes exchange capacity with advances | room
  · exact Or.inl advances
  · cases phase : ((network.exchanges e).threads s).phase with
    | consuming orders =>
        cases head : ((network.exchanges e).orderBuffer s).slots
            ((network.exchanges e).orderBuffer s).head with
        | some order =>
            left
            apply works
            simp only [ExchangeState.work, phase, ExchangeState.pollSlot, SlidingWindow.poll, head]
            exact ⟨_, rfl⟩
        | none =>
            cases orders with
            | nil => exact Or.inr ⟨rfl, rfl⟩
            | cons first rest =>
                left
                apply works
                simp only [ExchangeState.work, phase, ExchangeState.pollSlot, SlidingWindow.poll,
                  head]
                exact ⟨_, rfl⟩
    | acking orders =>
        left
        apply works
        have nonempty := healthy.tidy.acking e s orders phase
        have isLast := List.getLast?_eq_getLast_of_ne_nil nonempty
        simp only [ExchangeState.work, phase, ExchangeState.ackOrders, isLast, if_pos room]
        exact ⟨_, rfl⟩
    | receiving orders pending =>
        left
        apply works
        cases pending with
        | cons trade pending =>
            simp only [ExchangeState.work, phase, ExchangeState.produceTrade, if_pos room]
            exact ⟨_, rfl⟩
        | nil =>
            cases orders with
            | nil =>
                simp only [ExchangeState.work, phase]
                exact ⟨_, rfl⟩
            | cons order rest =>
                simp only [ExchangeState.work, phase]
                exact ⟨_, rfl⟩

end Advances

/-! ## A controller goes once through its loops -/

/-- The state with a controller at another place. -/
def atPc (network : Network P) (tr : Nat) (pc : ControllerPc) : Network P :=
  network.setTrader tr { network.traders tr with pc := pc }

omit [LinearOrder P] [Zero P] in
@[simp]
theorem atPc_trader (network : Network P) (tr : Nat) (pc : ControllerPc) :
    (atPc network tr pc).traders tr = { network.traders tr with pc := pc } :=
  Function.update_self _ _ _

omit [LinearOrder P] [Zero P] in
@[simp]
theorem atPc_atPc (network : Network P) (tr : Nat) (pc pc' : ControllerPc) :
    atPc (atPc network tr pc) tr pc' = atPc network tr pc' := by
  simp [atPc, Network.setTrader]

omit [LinearOrder P] [Zero P] in
theorem atPc_self {network : Network P} {tr : Nat} {pc : ControllerPc}
    (isPc : (network.traders tr).pc = pc) : atPc network tr pc = network := by
  rw [atPc, ← isPc]
  exact congrArg (fun traders => { network with traders := traders })
    (Function.update_eq_self tr network.traders)

omit [LinearOrder P] [Zero P] in
theorem effort_atPc (network : Network P) (tr : Nat) (pc : ControllerPc) :
    effort config inputs (atPc network tr pc) = effort config inputs network :=
  Idle.effort_eq ⟨tr, pc, rfl, rfl⟩

/-- What advances after idle steps advances. -/
theorem Advances.of_atPc {tr : Nat} {pc : ControllerPc}
    (reached : Reachable (Network.next algorithms config inputs) network (atPc network tr pc))
    (advances : Advances algorithms config inputs (atPc network tr pc)) :
    Advances algorithms config inputs network := by
  rcases advances with ⟨network', later, less⟩
  rw [effort_atPc] at less
  exact ⟨network', reached.trans later, less⟩

section Controller

variable (healthy : Healthy algorithms config inputs network) {tr : Nat}
  (trader : tr < config.traderNum)

include healthy trader

/-- A step of the controller. -/
theorem Healthy.control_performed {trader' : TraderState P}
    (step : (network.traders tr).control config (inputs tr) = some trader') :
    Reachable (Network.next algorithms config inputs) network (network.setTrader tr trader') := by
  have runs : network.TraderRuns config tr := ⟨trader, healthy.consistent.running tr trader⟩
  have performed : Network.next algorithms config inputs (.control tr) network =
      some (network.setTrader tr trader') := by
    simp only [Network.next, if_pos runs, step, Option.map_some]
  exact Reachable.refl.tail performed

/-- The controller leaves the loop over the orders of a stock because it may not let
the next one through, or it advances. -/
theorem Healthy.advances_or_leaves {t : Nat} {orderIdLimits : Int}
    (collecting : (network.traders tr).pc = .collect t orderIdLimits) :
    Advances algorithms config inputs network ∨
      (∀ order, TraderState.nextOrder (inputs tr) (network.traders tr) (t + 1) = some order →
        checkOrder (inputs tr) (network.traders tr).info order orderIdLimits (t + 1) = .ok none) ∧
        Reachable (Network.next algorithms config inputs) network
          (atPc network tr (.scan (t + 1))) := by
  have step : (network.traders tr).control config (inputs tr) =
      some ((network.traders tr).collect (inputs tr) t orderIdLimits) := by
    simp only [TraderState.control, collecting]
  have reached := healthy.control_performed trader step
  rcases healthy.consistent.effort_control trader step with ⟨pc, same⟩ | less
  · right
    have informed := healthy.consistent.informed tr trader
    unfold TraderState.collect at same reached
    cases next : TraderState.nextOrder (inputs tr) (network.traders tr) ((t : Int) + 1) with
    | none =>
        simp only [next] at reached
        exact ⟨by simp, reached⟩
    | some order =>
        cases result : checkOrder (inputs tr) (network.traders tr).info order orderIdLimits
            ((t : Int) + 1) with
        | error fault => exact absurd result (checkOrder_ne_error informed order _ _ fault)
        | ok checked =>
            simp only [next, result] at same reached
            cases checked with
            | none =>
                refine ⟨?_, reached⟩
                intro other isNext
                cases isNext
                exact result
            | some checked =>
                exfalso
                have sameIdx := congrFun (congrArg TraderState.nextSortedStructIdx same)
                  ((t : Int) + 1)
                simp only [TraderState.accept, Function.update_self] at sameIdx
                omega
  · exact Or.inl ⟨_, reached, less⟩

/-- The controller reads the limit of a stock. -/
theorem Healthy.scan_performed {t : Nat} (inRange : t < config.stockNum)
    (scanning : (network.traders tr).pc = .scan t) :
    Reachable (Network.next algorithms config inputs) network
      (atPc network tr
        (.collect t
          ((network.traders tr).info.slidingWindowStart (t + 1) +
            config.slidingWindowSize))) := by
  apply healthy.control_performed trader
  simp only [TraderState.control, scanning, if_pos inRange]

end Controller

section Loops

variable (healthy : Healthy algorithms config inputs network)
  (partitioned : Partitioned config inputs orderNum) (volumes : PositiveVolumes config inputs)
  {tr : Nat} (trader : tr < config.traderNum) {t : Nat}

include healthy partitioned volumes trader

/-- The controller goes on from the scan of a stock to the next stock because it may
not let an order through, or it advances. -/
theorem Healthy.advances_or_next (inRange : t < config.stockNum)
    (scanning : (network.traders tr).pc = .scan t) :
    Advances algorithms config inputs network ∨
      (∀ order, TraderState.nextOrder (inputs tr) (network.traders tr) (t + 1) = some order →
        checkOrder (inputs tr) (network.traders tr).info order
          ((network.traders tr).info.slidingWindowStart (t + 1) + config.slidingWindowSize)
          (t + 1) = .ok none) ∧
        Reachable (Network.next algorithms config inputs) network
          (atPc network tr (.scan (t + 1))) := by
  have reached := healthy.scan_performed trader inRange scanning
  have healthy' := healthy.reachable partitioned volumes reached
  rcases healthy'.advances_or_leaves trader (by rw [atPc_trader]) with
    advances | ⟨rejected, reached'⟩
  · exact Or.inl (advances.of_atPc reached)
  · rw [atPc_atPc] at reached'
    rw [atPc_trader] at rejected
    exact Or.inr ⟨rejected, reached.trans reached'⟩

/-- From the scan of a stock the controller comes to a later stock. -/
theorem Healthy.advances_or_scans (scanning : (network.traders tr).pc = .scan t) {u : Nat}
    (later : t ≤ u) (inRange : u ≤ config.stockNum) :
    Advances algorithms config inputs network ∨
      Reachable (Network.next algorithms config inputs) network (atPc network tr (.scan u)) := by
  induction u, later using Nat.le_induction with
  | base =>
      right
      rw [atPc_self scanning]
      exact Reachable.refl
  | succ u _ inductionHypothesis =>
      rcases inductionHypothesis (by omega) with advances | reached
      · exact Or.inl advances
      · have healthy' := healthy.reachable partitioned volumes reached
        rcases healthy'.advances_or_next partitioned volumes trader inRange (by rw [atPc_trader])
          with advances | ⟨_, reached'⟩
        · exact Or.inl (advances.of_atPc reached)
        · rw [atPc_atPc] at reached'
          exact Or.inr (reached.trans reached')

/-- The controller comes to the sending loop. -/
theorem Healthy.advances_or_sends :
    Advances algorithms config inputs network ∨
      Reachable (Network.next algorithms config inputs) network (atPc network tr .send) := by
  -- past the last stock
  have atEnd : ∀ {network : Network P} {t : Nat}, Healthy algorithms config inputs network →
      config.stockNum ≤ t → (network.traders tr).pc = .scan t →
      Reachable (Network.next algorithms config inputs) network (atPc network tr .send) := by
    intro network t healthy past scanning
    apply healthy.control_performed trader
    simp only [TraderState.control, scanning]
    rw [if_neg (by omega)]
  have fromScan : ∀ {network : Network P} {t : Nat}, Healthy algorithms config inputs network →
      t ≤ config.stockNum → (network.traders tr).pc = .scan t →
      Advances algorithms config inputs network ∨
        Reachable (Network.next algorithms config inputs) network (atPc network tr .send) := by
    intro network t healthy inRange scanning
    rcases healthy.advances_or_scans partitioned volumes trader scanning inRange le_rfl with
      advances | reached
    · exact Or.inl advances
    · have sends := atEnd (healthy.reachable partitioned volumes reached) le_rfl
        (by rw [atPc_trader])
      rw [atPc_atPc] at sends
      exact Or.inr (reached.trans sends)
  cases pc : (network.traders tr).pc with
  | scan t =>
      rcases Nat.le_total t config.stockNum with inRange | past
      · exact fromScan healthy inRange pc
      · exact Or.inr (atEnd healthy past pc)
  | collect t orderIdLimits =>
      have inRange := ((healthy.consistent.dispatched tr trader).limits t orderIdLimits pc).1
      rcases healthy.advances_or_leaves trader pc with advances | ⟨_, reached⟩
      · exact Or.inl advances
      · have healthy' := healthy.reachable partitioned volumes reached
        rcases fromScan healthy' inRange (by rw [atPc_trader]) with advances | sends
        · exact Or.inl (advances.of_atPc reached)
        · rw [atPc_atPc] at sends
          exact Or.inr (reached.trans sends)
  | send =>
      right
      rw [atPc_self pc]
      exact Reachable.refl

/-- The controller comes to its first stock with nothing left to send. -/
theorem Healthy.advances_or_starts (capacity : 0 < config.orderQueueCapacity) :
    Advances algorithms config inputs network ∨
      (network.traders tr).orderToSend = [] ∧
        Reachable (Network.next algorithms config inputs) network
          (atPc network tr (.scan 0)) := by
  rcases healthy.advances_or_sends partitioned volumes trader with advances | reached
  · exact Or.inl advances
  · have healthy' := healthy.reachable partitioned volumes reached
    cases collected : (network.traders tr).orderToSend with
    | nil =>
        right
        refine ⟨rfl, ?_⟩
        have step : ((atPc network tr .send).traders tr).control config (inputs tr) =
            some { (atPc network tr .send).traders tr with pc := .scan 0 } := by
          simp only [TraderState.control, atPc_trader, collected]
        have starts := healthy'.control_performed trader step
        exact reached.trans ((atPc_atPc network tr .send (.scan 0)) ▸ starts)
    | cons order rest =>
        left
        apply Advances.of_atPc reached
        by_cases room : ((network.traders tr).orderQueue
            (config.exchangeOf order.stkCode)).length < config.orderQueueCapacity
        · have step : ((atPc network tr .send).traders tr).control config (inputs tr) =
              some (((atPc network tr .send).traders tr).putOrder
                (config.exchangeOf order.stkCode) order rest) := by
            simp only [TraderState.control, atPc_trader, collected, if_pos room]
          refine ⟨_, healthy'.control_performed trader step, ?_⟩
          rcases healthy'.consistent.effort_control trader step with ⟨pc, same⟩ | less
          · exfalso
            have sameRest := congrArg TraderState.orderToSend same
            simp only [TraderState.putOrder, atPc_trader, collected] at sameRest
            exact List.cons_ne_self order rest sameRest.symm
          · exact less
        · have someExchange : 0 < config.exchangeNum := by
            rcases Nat.eq_zero_or_pos config.exchangeNum with none | positive
            · rw [Config.orderQueueCapacity, none, Nat.div_zero] at capacity
              omega
            · exact positive
          apply healthy'.advances_of_orderQueue volumes trader
            (config.exchangeOf_lt someExchange order.stkCode)
          rw [atPc_trader]
          rintro empty
          simp only at empty
          rw [empty, List.length_nil] at room
          exact room capacity

/-- A trader that can let an order through advances. -/
theorem Healthy.advances_or_rejects (capacity : 0 < config.orderQueueCapacity) {s : Int}
    (listed : config.Listed s) :
    Advances algorithms config inputs network ∨
      ∀ order, TraderState.nextOrder (inputs tr) (network.traders tr) s = some order →
        checkOrder (inputs tr) (network.traders tr).info order
          ((network.traders tr).info.slidingWindowStart s + config.slidingWindowSize) s =
            .ok none := by
  obtain ⟨t, rfl⟩ : ∃ t : Nat, s = (t : Int) + 1 := ⟨(s - 1).toNat, by
    have bounds := listed.1
    omega⟩
  have inRange : t < config.stockNum := by
    have bounds := listed.2
    omega
  rcases healthy.advances_or_starts partitioned volumes trader capacity with
    advances | ⟨_, reached⟩
  · exact Or.inl advances
  · have healthy' := healthy.reachable partitioned volumes reached
    rcases healthy'.advances_or_scans partitioned volumes trader (t := 0) (u := t)
        (by rw [atPc_trader]) (Nat.zero_le t) inRange.le with advances | reached'
    · exact Or.inl (advances.of_atPc reached)
    · rw [atPc_atPc] at reached'
      have reached'' := reached.trans reached'
      have healthy'' := healthy.reachable partitioned volumes reached''
      rcases healthy''.advances_or_next partitioned volumes trader inRange (by rw [atPc_trader])
        with advances | ⟨rejected, _⟩
      · exact Or.inl (advances.of_atPc reached'')
      · rw [atPc_trader] at rejected
        exact Or.inr rejected

end Loops

/-! ## Rest -/

/-- A state from which the potential cannot be lowered is one of rest. -/
theorem Healthy.advances_or_quiescent (healthy : Healthy algorithms config inputs network)
    (partitioned : Partitioned config inputs orderNum) (volumes : PositiveVolumes config inputs)
    (orderCapacity : 0 < config.orderQueueCapacity) (msgCapacity : 0 < config.msgQueueCapacity) :
    Advances algorithms config inputs network ∨ Quiescent config inputs network := by
  by_contra neither
  rw [not_or] at neither
  rcases neither with ⟨stuck, moving⟩
  apply moving
  constructor
  · intro tr trader e exchange
    constructor
    · by_contra held
      exact stuck (healthy.advances_of_orderChannel volumes trader exchange held)
    · by_contra held
      exact stuck (healthy.advances_of_msgChannel volumes trader exchange held)
  · intro tr trader e exchange
    constructor
    · by_contra held
      exact stuck (healthy.advances_of_orderQueue volumes trader exchange held)
    · cases held : (network.traders tr).orderMsg e with
      | none => rfl
      | some order =>
          exact absurd (healthy.advances_of_orderMsg volumes trader exchange held) stuck
  · intro tr trader
    exact ((healthy.advances_or_starts partitioned volumes trader orderCapacity).resolve_left
      stuck).1
  · intro e exchange
    constructor
    · by_contra held
      exact stuck (healthy.advances_of_msgQueue volumes exchange held)
    · cases held : (network.exchanges e).sending with
      | none => rfl
      | some sending => exact absurd (healthy.advances_of_sending volumes exchange held) stuck
  · intro e exchange s owns
    have rests := (healthy.advances_or_rests volumes exchange msgCapacity owns).resolve_left stuck
    rw [rests.1]
    exact ⟨rfl, rfl⟩
  · intro e exchange s owns
    exact ((healthy.advances_or_rests volumes exchange msgCapacity owns).resolve_left stuck).2
  · intro tr trader s listed
    exact (healthy.advances_or_rejects partitioned volumes trader orderCapacity
      listed).resolve_left stuck

/-- No order of the input waits for a trade. -/
def Unhooked (config : Config) (inputs : Nat → TraderInput P) : Prop :=
  ∀ tr < config.traderNum, ∀ s, config.Listed s → ∀ data ∈ (inputs tr).sortedOrders s,
    (inputs tr).hook s data.orderId = none

/-- At rest a stock whose next order is not hooked has committed all of its orders. -/
theorem Quiescent.committed_all (quiescent : Quiescent config inputs network)
    (consistent : Consistent algorithms config inputs network)
    (partitioned : Partitioned config inputs orderNum)
    (someWindow : 1 ≤ config.slidingWindowSize) (unhooked : Unhooked config inputs) {e : Nat}
    (exchange : e < config.exchangeNum) {s : Int} (owns : config.Owns e s) :
    ((network.exchanges e).threads s).committed.map Order.orderId = idsUpTo (orderNum s) := by
  have serves := (consistent.serving e exchange).serves s owns
  have committed := quiescent.committed consistent exchange owns
  have notBeyond := consistent.polled_le partitioned exchange owns
  rw [← committed] at notBeyond
  have all : ((network.exchanges e).threads s).committed.length = orderNum s := by
    by_contra missing
    rcases (partitioned.covered s owns.1
        (((network.exchanges e).threads s).committed.length + 1)).mpr (by omega) with
      ⟨tr, trader, data, inData, isNext⟩
    rcases quiescent.hooked consistent partitioned someWindow trader exchange owns inData isNext
      with ⟨ht, hooked, _⟩
    rw [unhooked tr trader s owns.1 data inData] at hooked
    cases hooked
  rw [← all, committed]
  exact serves.numbered

/-- A state of rest is reached from every healthy state. -/
theorem Healthy.comes_to_rest (healthy : Healthy algorithms config inputs network)
    (partitioned : Partitioned config inputs orderNum) (volumes : PositiveVolumes config inputs)
    (orderCapacity : 0 < config.orderQueueCapacity)
    (msgCapacity : 0 < config.msgQueueCapacity) :
    ∃ final, Reachable (Network.next algorithms config inputs) network final ∧
      Quiescent config inputs final := by
  apply Transition.exists_reachable_rest (Healthy algorithms config inputs)
    (effort config inputs)
  · exact fun healthy performed => healthy.step partitioned volumes (Network.next_step performed)
  · exact fun healthy moving => (healthy.advances_or_quiescent partitioned volumes orderCapacity
      msgCapacity).resolve_right moving
  · exact healthy

/-- At rest and without hooks every order of a stock is committed, and every trader has
seen the trades of committing the orders by their ids. -/
theorem Quiescent.committed_traded (quiescent : Quiescent config inputs network)
    (consistent : Consistent algorithms config inputs network)
    (partitioned : Partitioned config inputs orderNum)
    (orderCapacity : 0 < config.orderQueueCapacity) (unhooked : Unhooked config inputs) {e : Nat}
    (exchange : e < config.exchangeNum) {s : Int} (owns : config.Owns e s) :
    ((network.exchanges e).threads s).committed.map Order.orderId = idsUpTo (orderNum s) ∧
      ∃ book, commitOrders algorithms s StockDeclarationBook.empty
            ((network.exchanges e).threads s).committed =
          .ok (book, ((network.exchanges e).threads s).produced) ∧
        ∀ tr < config.traderNum,
          tradesOf s ((network.traders tr).seen e) =
            ((network.exchanges e).threads s).produced := by
  have someWindow : 1 ≤ config.slidingWindowSize := by
    rcases Nat.eq_zero_or_pos config.slidingWindowSize with none | positive
    · rw [Config.orderQueueCapacity, none, Nat.zero_mul, Nat.zero_div] at orderCapacity
      omega
    · exact positive
  have serves := (consistent.serving e exchange).serves s owns
  have effect := serves.committed_eq.2
  rw [(quiescent.threads e exchange s owns).2, List.append_nil] at effect
  refine ⟨quiescent.committed_all consistent partitioned someWindow unhooked exchange owns,
    _, effect, ?_⟩
  intro tr trader
  rw [quiescent.seen consistent trader exchange]
  exact serves.produced

/-- From every state the system can come to rest, whatever has happened before, when
its queues have room for a message at all.  Without hooks every order is then
committed, and every trader has seen the trades of committing the orders of a stock
by their ids. -/
theorem reachable_comes_to_rest (partitioned : Partitioned config inputs orderNum)
    (volumes : PositiveVolumes config inputs) (orderCapacity : 0 < config.orderQueueCapacity)
    (msgCapacity : 0 < config.msgQueueCapacity)
    (reachable : Network.Reachable algorithms config inputs network) :
    ∃ final, Reachable (Network.next algorithms config inputs) network final ∧
      Quiescent config inputs final ∧
      (Unhooked config inputs → ∀ e < config.exchangeNum, ∀ s, config.Owns e s →
        ((final.exchanges e).threads s).committed.map Order.orderId = idsUpTo (orderNum s) ∧
          ∃ book, commitOrders algorithms s StockDeclarationBook.empty
                ((final.exchanges e).threads s).committed =
              .ok (book, ((final.exchanges e).threads s).produced) ∧
            ∀ tr < config.traderNum,
              tradesOf s ((final.traders tr).seen e) =
                ((final.exchanges e).threads s).produced) := by
  have healthy := reachable.healthy partitioned volumes
  rcases healthy.comes_to_rest partitioned volumes orderCapacity msgCapacity with
    ⟨final, later, quiescent⟩
  refine ⟨final, later, quiescent, ?_⟩
  intro unhooked e exchange s owns
  exact quiescent.committed_traded (healthy.reachable partitioned volumes later).consistent
    partitioned orderCapacity unhooked exchange owns

theorem reachable_comes_to_rest_small :
    ∃ final, Reachable (Network.next binaryHeap smallConfig smallInputs) smallFinal final ∧
      Quiescent smallConfig smallInputs final := by
  rcases reachable_comes_to_rest smallInputs_partitioned smallInputs_volumes (by decide)
    (by decide) smallFinal_reachable with ⟨final, later, quiescent, _⟩
  exact ⟨final, later, quiescent⟩

end PpiwTrading.System
