import PpiwTrading.System.Pausing

/-!
# Giving the locks back

When no console spins, the operators can give back all locks, and the system comes to
rest as it does without consoles.  A console that takes its send locks a second time
spins for ever, and with it its process stays silent.
-/

namespace PpiwTrading.System

open PpiwTrading.Heap
open PpiwTrading.Sequence
open PpiwTrading.Trader
open PpiwTrading.Exchange
open PpiwTrading.Transition
open PausedNetwork (Careful Stopped careful)

section Steps

variable {P : Type} [LinearOrder P] [Zero P] {library : SocketLibrary}
  {algorithms : HeapAlgorithms} {config : Config} {inputs : Nat → TraderInput P}
  {paused paused' : PausedNetwork P} {action : PausedAction} {orderNum : Int → Nat}

/-! ## The consoles let the system go on -/

omit [LinearOrder P] [Zero P] in
@[simp]
theorem PausedNetwork.setConsole_setConsole (paused : PausedNetwork P) (process : Process)
    (first second : Console) :
    (paused.setConsole process first).setConsole process second =
      paused.setConsole process second := by
  simp [PausedNetwork.setConsole]

omit [LinearOrder P] [Zero P] in
@[simp]
theorem PausedNetwork.setConsole_self (paused : PausedNetwork P) (process : Process)
    (console : Console) : (paused.setConsole process console).consoles process = console := by
  simp [PausedNetwork.setConsole]

/-- A console that does not reset its network goes through the rest of its command. -/
theorem finish_command {process : Process} (runs : process.Runs config paused.network)
    {ops : List ConsoleOp} {held held' : PauseLock → Bool}
    (finished : Console.holdAll ops held = some held') (noReset : .resetNetwork ∉ ops) :
    Reachable (careful library algorithms config inputs) (paused.setConsole process ⟨held, ops⟩)
      (paused.setConsole process ⟨held', []⟩) := by
  induction ops generalizing held with
  | nil =>
      cases finished
      exact Reachable.refl
  | cons op rest inductionHypothesis =>
      rcases Option.bind_eq_some_iff.mp finished with ⟨middle, holds, finished⟩
      rw [List.mem_cons, not_or] at noReset
      have stepped : Console.step ⟨held, op :: rest⟩ = some (op, ⟨middle, rest⟩) :=
        Console.step_eq_some.mpr ⟨rfl, holds⟩
      have kept : ∀ paused : PausedNetwork P,
          paused.operate library config process op = paused := by
        intro paused
        cases op with
        | lock l => rfl
        | unlock l => rfl
        | resetNetwork => exact absurd rfl noReset.1
      have allowed : Careful config (.goOn process)
          (paused.setConsole process ⟨held, op :: rest⟩) := by
        intro isReset
        rw [PausedNetwork.setConsole_self, List.head?_cons, Option.some.injEq] at isReset
        exact absurd isReset.symm noReset.1
      have performed : PausedNetwork.next library algorithms config inputs (.goOn process)
          (paused.setConsole process ⟨held, op :: rest⟩) =
            some (paused.setConsole process ⟨middle, rest⟩) := by
        have runs' : process.Runs config
          (paused.setConsole process ⟨held, op :: rest⟩).network := runs
        simp only [PausedNetwork.next, if_pos runs', PausedNetwork.setConsole_self, stepped,
          Option.map_some, kept, PausedNetwork.setConsole_setConsole]
      exact (Reachable.refl.tail (restrict_eq_some.mpr ⟨allowed, performed⟩)).trans
        (inductionHypothesis finished noReset.2)

/-- A console that is done goes through a command that comes to an end. -/
theorem give_command {process : Process} (runs : process.Runs config paused.network)
    {command : Command} {held held' : PauseLock → Bool}
    (finished : Console.holdAll (process.commands config command) held = some held')
    (noReset : .resetNetwork ∉ process.commands config command) :
    Reachable (careful library algorithms config inputs) (paused.setConsole process ⟨held, []⟩)
      (paused.setConsole process ⟨held', []⟩) := by
  have performed : PausedNetwork.next library algorithms config inputs (.enter process command)
      (paused.setConsole process ⟨held, []⟩) =
        some (paused.setConsole process ⟨held, process.commands config command⟩) := by
    have runs' : process.Runs config (paused.setConsole process ⟨held, []⟩).network := runs
    simp only [PausedNetwork.next, if_pos runs', PausedNetwork.setConsole_self, Console.enter,
      if_true, Option.map_some, PausedNetwork.setConsole_setConsole]
  exact (Reachable.refl.tail (restrict_eq_some.mpr ⟨trivial, performed⟩)).trans
    (finish_command runs finished noReset)

/-- The console comes to the end of its command, and does not reset its network. -/
def Finishes (console : Console) : Prop :=
  (Console.holdAll console.todo console.held).isSome = true ∧ .resetNetwork ∉ console.todo

instance (console : Console) : Decidable (Finishes console) :=
  inferInstanceAs (Decidable (_ ∧ _))

/-- A console that comes to the end of its command can give back all of its locks: it
first takes those that it does not hold. -/
theorem thaw_process {process : Process} (runs : process.Runs config paused.network)
    (tidy : (paused.consoles process).Tidy (process.senderNum config))
    (finishes : Finishes (paused.consoles process)) :
    Reachable (careful library algorithms config inputs) paused
      (paused.setConsole process
        ⟨Console.locks (process.senderNum config) false false, []⟩) := by
  have serves := process.commands_serves config
  rcases finishes with ⟨finished, noReset⟩
  rcases Option.isSome_iff_exists.mp finished with ⟨held, finished⟩
  rcases tidy held finished with ⟨sends, receives, rfl⟩
  have start : paused.setConsole process (paused.consoles process) = paused := by
    simp [PausedNetwork.setConsole]
  have ended : Reachable (careful library algorithms config inputs)
      (paused.setConsole process (paused.consoles process))
      (paused.setConsole process ⟨Console.locks (process.senderNum config) sends receives, []⟩) :=
    finish_command runs finished noReset
  rw [start] at ended
  have stops : Reachable (careful library algorithms config inputs)
      (paused.setConsole process ⟨Console.locks (process.senderNum config) sends receives, []⟩)
      (paused.setConsole process ⟨Console.locks (process.senderNum config) true receives, []⟩) := by
    cases sends with
    | true => exact Reachable.refl
    | false => exact give_command runs (serves.thaw receives).1 (by simp [serves.stops])
  have stopr : Reachable (careful library algorithms config inputs)
      (paused.setConsole process ⟨Console.locks (process.senderNum config) true receives, []⟩)
      (paused.setConsole process ⟨Console.locks (process.senderNum config) true true, []⟩) := by
    cases receives with
    | true => exact Reachable.refl
    | false => exact give_command runs (serves.thaw true).2.1 (by simp [serves.stopr])
  have restart : Reachable (careful library algorithms config inputs)
      (paused.setConsole process ⟨Console.locks (process.senderNum config) true true, []⟩)
      (paused.setConsole process ⟨Console.locks (process.senderNum config) false false, []⟩) := by
    apply give_command runs (serves.thaw true).2.2
    rcases serves.restart with ⟨ls, _, restart⟩
    simp [restart]
  exact ended.trans (stops.trans (stopr.trans restart))

/-- The processes as a list. -/
def processes (config : Config) : List Process :=
  (List.range config.traderNum).map .trader ++ (List.range config.exchangeNum).map .exchange

theorem mem_processes {process : Process} :
    process ∈ processes config ↔ process.Present config := by
  cases process <;> simp [processes, Process.Present]

/-- One process after another gives back its locks. -/
theorem thaw_processes (library : SocketLibrary)
    (healthy : Healthy algorithms config inputs paused.network)
    (tidy : ∀ process : Process,
      (paused.consoles process).Tidy (process.senderNum config))
    (finishes : ∀ process : Process, process.Present config →
      Finishes (paused.consoles process))
    (chosen : List Process) (present : ∀ process ∈ chosen, process.Present config) :
    ∃ thawed, Reachable (careful library algorithms config inputs) paused thawed ∧
      thawed.network = paused.network ∧ ∀ process, thawed.consoles process =
        if process ∈ chosen then ⟨Console.locks (process.senderNum config) false false, []⟩
        else paused.consoles process := by
  induction chosen with
  | nil => exact ⟨paused, Reachable.refl, rfl, by simp⟩
  | cons first rest inductionHypothesis =>
      rw [List.forall_mem_cons] at present
      rcases inductionHypothesis present.2 with ⟨thawed, reached, network, consoles⟩
      by_cases again : first ∈ rest
      · refine ⟨thawed, reached, network, ?_⟩
        intro process
        by_cases same : process = first
        · simp [consoles, same, again]
        · simp [consoles, same]
      · have own : thawed.consoles first = paused.consoles first := by
          rw [consoles, if_neg again]
        have runs : first.Runs config thawed.network := by
          rw [network]
          exact healthy.process_runs present.1
        have thaws : Reachable (careful library algorithms config inputs) thawed
            (thawed.setConsole first
              ⟨Console.locks (first.senderNum config) false false, []⟩) := by
          apply thaw_process runs
          · rw [own]
            exact tidy first
          · rw [own]
            exact finishes first present.1
        refine ⟨_, reached.trans thaws, network, ?_⟩
        intro process
        by_cases same : process = first
        · subst same
          simp
        · simp [PausedNetwork.setConsole, same, consoles]

/-- The process whose console can stop an action takes part in it. -/
theorem pauseLock_present {network network' : Network P} {action : Action}
    (performed : Network.next algorithms config inputs action network = some network')
    {lock : Process × PauseLock} (isLock : action.pauseLock = some lock) :
    lock.1.Present config := by
  cases action with
  | sendOrder tr e =>
      cases isLock
      simp only [Network.next] at performed
      split at performed
      · rename_i runs
        exact runs.1.1
      · cases performed
  | receiveOrder tr e =>
      cases isLock
      simp only [Network.next] at performed
      split at performed
      · rename_i runs
        exact runs.2.1
      · cases performed
  | sendMsg e =>
      cases isLock
      simp only [Network.next] at performed
      split at performed
      · rename_i runs
        exact runs.1
      · cases performed
  | receiveMsg tr e =>
      cases isLock
      simp only [Network.next] at performed
      split at performed
      · rename_i runs
        exact runs.1.1
      · cases performed
  | control => cases isLock
  | pollOrder => cases isLock
  | work => cases isLock
  | takeMsg => cases isLock

/-- With all locks given back the system goes on as without consoles. -/
theorem thawed_runs {network : Network P}
    (free : ∀ process : Process, process.Present config →
      ∀ l, (paused.consoles process).held l = false)
    (reachable : Reachable (Network.next algorithms config inputs) paused.network network) :
    Reachable (careful library algorithms config inputs) paused { paused with network } := by
  induction reachable with
  | refl => exact Reachable.refl
  | @tail state state' action _ step inductionHypothesis =>
      have isFree : ({ paused with network := state } : PausedNetwork P).Free action := by
        unfold PausedNetwork.Free
        cases isLock : action.pauseLock with
        | none => rfl
        | some lock => simp [free lock.1 (pauseLock_present step isLock) lock.2]
      have performed : PausedNetwork.next library algorithms config inputs (.act action)
          { paused with network := state } = some { paused with network := state' } := by
        simp only [PausedNetwork.next]
        rw [if_pos isFree, step]
        rfl
      have allowed : Careful config (.act action) { paused with network := state } := trivial
      exact inductionHypothesis.tail (restrict_eq_some.mpr ⟨allowed, performed⟩)

/-- A sender of the process has a message in its hands. -/
def Holding (config : Config) (network : Network P) : Process → Prop
  | .trader traderIdx => ∃ exchangeIdx < config.exchangeNum,
      (network.traders traderIdx).orderMsg exchangeIdx ≠ none
  | .exchange exchangeIdx => (network.exchanges exchangeIdx).sending ≠ none

omit [Zero P] in
theorem Holding.not_quiescent {network : Network P} {process : Process}
    (present : process.Present config) (holding : Holding config network process) :
    ¬ Quiescent config inputs network := by
  intro quiescent
  cases process with
  | trader traderIdx =>
      rcases holding with ⟨exchangeIdx, exchange, held⟩
      exact held (quiescent.senders traderIdx present exchangeIdx exchange).2
  | exchange exchangeIdx => exact holding (quiescent.queues exchangeIdx present).2

omit [Zero P] in
theorem control_orderMsg {input : TraderInput P} {trader trader' : TraderState P}
    (step : trader.control config input = some trader') : trader'.orderMsg = trader.orderMsg := by
  unfold TraderState.control at step
  split at step
  · split at step
    · cases step
      rfl
    · cases step
      rfl
  · cases step
    unfold TraderState.collect
    simp only
    split
    · rfl
    · split <;> rfl
  · split at step
    · cases step
      rfl
    · simp only at step
      split at step
      · cases step
        rfl
      · cases step

omit [LinearOrder P] [Zero P] in
theorem receive_orderMsg (trader : TraderState P) (exchangeIdx : Nat) (msg : Msg P) :
    (trader.receive exchangeIdx msg).orderMsg = trader.orderMsg := by
  cases msg with
  | ack ack =>
      simp only [TraderState.receive, TraderState.processOrderAck]
      split <;> rfl
  | trade trade =>
      simp only [TraderState.receive, TraderState.processTradeResult]
      split <;> rfl

theorem work_sending {ex ex' : ExchangeState P} {s : Int}
    (step : ex.work algorithms config s = some ex') : ex'.sending = ex.sending := by
  unfold ExchangeState.work at step
  simp only at step
  split at step
  · unfold ExchangeState.pollSlot at step
    split at step
    · cases step
      rfl
    · split at step
      · cases step
      · cases step
        rfl
  · unfold ExchangeState.ackOrders at step
    split at step
    · cases step
    · split at step
      · cases step
        rfl
      · cases step
  · unfold ExchangeState.produceTrade at step
    split at step
    · cases step
      rfl
    · cases step
  · cases step
    unfold ExchangeState.receiveNext
    split <;> rfl
  · cases step
    rfl

/-- Only a sender lets go of a message. -/
theorem Network.next_holding {network network' : Network P} {action : Action} {process : Process}
    (performed : Network.next algorithms config inputs action network = some network')
    (notSent : ∀ idx < process.senderNum config,
      action.pauseLock ≠ some (process, .sendLock idx))
    (holding : Holding config network process) : Holding config network' process := by
  have trader : ∀ {tr : Nat} {state : TraderState P},
      (∀ e < config.exchangeNum, process = .trader tr →
        (network.traders tr).orderMsg e ≠ none → state.orderMsg e ≠ none) →
      Holding config (network.setTrader tr state) process := by
    intro tr state kept
    cases process with
    | exchange exchangeIdx => exact holding
    | trader traderIdx =>
        rcases holding with ⟨e, exchange, held⟩
        refine ⟨e, exchange, ?_⟩
        simp only [Network.setTrader, Function.update_apply]
        split
        · rename_i same
          subst same
          exact kept e exchange rfl held
        · exact held
  have exchange : ∀ {e : Nat} {state : ExchangeState P},
      (process = .exchange e → (network.exchanges e).sending ≠ none → state.sending ≠ none) →
      Holding config (network.setExchange e state) process := by
    intro e state kept
    cases process with
    | trader traderIdx => exact holding
    | exchange exchangeIdx =>
        simp only [Holding, Network.setExchange, Function.update_apply]
        split
        · rename_i same
          subst same
          exact kept rfl holding
        · exact holding
  cases action with
  | control tr =>
      simp only [Network.next, Option.ite_none_right_eq_some, Option.map_eq_some_iff] at performed
      rcases performed with ⟨_, state, step, rfl⟩
      apply trader
      rw [control_orderMsg step]
      exact fun _ _ _ => id
  | pollOrder tr e =>
      simp only [Network.next, Option.ite_none_right_eq_some, Option.map_eq_some_iff] at performed
      rcases performed with ⟨_, state, step, rfl⟩
      apply trader
      intro e' _ _ held
      unfold TraderState.pollOrder at step
      split at step
      · cases step
        simp only [Function.update_apply]
        split
        · exact Option.some_ne_none _
        · exact held
      · cases step
  | sendOrder tr e =>
      simp only [Network.next, Option.ite_none_right_eq_some, Option.map_eq_some_iff] at performed
      rcases performed with ⟨runs, ⟨order, state⟩, step, rfl⟩
      change Holding config (network.setTrader tr state) process
      apply trader
      rintro e' inside rfl held
      have other : e' ≠ e := by
        rintro rfl
        exact notSent e' inside rfl
      unfold TraderState.sendOrder at step
      split at step
      · cases step
      · cases step
        simp only [Function.update_of_ne other]
        exact held
  | receiveOrder tr e =>
      simp only [Network.next, Option.ite_none_right_eq_some] at performed
      rcases performed with ⟨_, performed⟩
      split at performed
      · cases performed
      · rename_i order rest channel
        cases performed
        change Holding config (network.setExchange e
          ((network.exchanges e).receiveOrder config e tr order)) process
        apply exchange
        intro _ held
        simp only [ExchangeState.receiveOrder]
        split <;> exact held
  | work e s =>
      simp only [Network.next, Option.ite_none_right_eq_some, Option.map_eq_some_iff] at performed
      rcases performed with ⟨_, state, step, rfl⟩
      apply exchange
      rw [work_sending step]
      exact fun _ => id
  | takeMsg e =>
      simp only [Network.next, Option.ite_none_right_eq_some, Option.map_eq_some_iff] at performed
      rcases performed with ⟨_, state, step, rfl⟩
      apply exchange
      intro _ held
      -- A message is taken only when there is none.
      unfold ExchangeState.takeMsg at step
      split at step
      · rename_i none _
        exact absurd none held
      · cases step
  | sendMsg e =>
      simp only [Network.next, Option.ite_none_right_eq_some, Option.map_eq_some_iff] at performed
      rcases performed with ⟨_, ⟨⟨msg, idx⟩, state⟩, step, rfl⟩
      change Holding config (network.setExchange e state) process
      apply exchange
      rintro rfl
      exact absurd rfl (notSent 0 Nat.one_pos)
  | receiveMsg tr e =>
      simp only [Network.next, Option.ite_none_right_eq_some] at performed
      rcases performed with ⟨_, performed⟩
      split at performed
      · cases performed
      · rename_i msg rest channel
        cases performed
        change Holding config (network.setTrader tr
          ((network.traders tr).receive e msg)) process
        apply trader
        rw [receive_orderMsg]
        exact fun _ _ _ => id

/-- The channels of a process to which its senders send become fewer. -/
def Silent (config : Config) (network network' : Network P) : Process → Prop
  | .trader traderIdx => ∀ exchangeIdx < config.exchangeNum,
      (network'.orderChannel (traderIdx, exchangeIdx)).Sublist
        (network.orderChannel (traderIdx, exchangeIdx))
  | .exchange exchangeIdx => ∀ traderIdx,
      (network'.msgChannel (traderIdx, exchangeIdx)).Sublist
        (network.msgChannel (traderIdx, exchangeIdx))

/-- What one step leaves of a process whose console spins with its send locks. -/
theorem spinning_step {process : Process} (spins : (paused.consoles process).Spins)
    (stopped : ∀ idx < process.senderNum config,
      (paused.consoles process).held (.sendLock idx) = true)
    (performed : PausedNetwork.next library algorithms config inputs action paused =
      some paused') :
    paused'.consoles process = paused.consoles process ∧
      Silent config paused.network paused'.network process ∧
      (Holding config paused.network process → Holding config paused'.network process) := by
  have others : ∀ {process' : Process} (console : Console), process' ≠ process →
      Function.update paused.consoles process' console process = paused.consoles process := by
    intro process' console other
    exact Function.update_of_ne other.symm console paused.consoles
  refine ⟨?_, ?_, ?_⟩
  · cases PausedNetwork.next_step performed with
    | act free step => rfl
    | @enter process' command console runs entered =>
        apply others
        rintro rfl
        rw [spins.enter_eq_none] at entered
        cases entered
    | @goOn process' op console runs stepped =>
        have consoles : (paused.operate library config process' op).consoles =
            paused.consoles := by
          cases op <;> rfl
        rw [PausedNetwork.setConsole, consoles]
        apply others
        rintro rfl
        rw [spins.step_eq_none] at stepped
        cases stepped
  · cases process with
    | trader traderIdx =>
        intro exchangeIdx exchange
        exact (PausedNetwork.next_channels performed traderIdx exchangeIdx).1
          (stopped exchangeIdx exchange)
    | exchange exchangeIdx =>
        intro traderIdx
        exact (PausedNetwork.next_channels performed traderIdx exchangeIdx).2
          (stopped 0 Nat.one_pos)
  · intro holding
    cases PausedNetwork.next_step performed with
    | act free step =>
        apply Network.next_holding step _ holding
        intro idx inside isLock
        simp [PausedNetwork.Free, isLock, stopped idx inside] at free
    | enter runs entered => exact holding
    | @goOn process' op console runs stepped =>
        cases op with
        | lock l => exact holding
        | unlock l => exact holding
        | resetNetwork => cases process <;> cases process' <;> exact holding

end Steps

/-- The order is received; then the receivers are stopped, and the networks are reset. -/
def resetRun : List PausedAction :=
  [.act (.receiveOrder 1 1)] ++
    [Process.trader 0, .trader 1, .exchange 0, .exchange 1].flatMap fun process =>
      [.enter process .stopr, .goOn process, .enter process .resetNet, .goOn process]

end PpiwTrading.System
