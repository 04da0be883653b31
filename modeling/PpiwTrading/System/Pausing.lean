import PpiwTrading.Common.Console
import PpiwTrading.System.Progress

/-!
# The system with its consoles

The threads that send and receive go on only while the console of their process does not
hold their lock; a console that resets the network gives up the sockets of its process,
and what becomes of the messages in them is up to the library.  Everything else is the
system without consoles.
-/

namespace PpiwTrading.System

open PpiwTrading.Heap
open PpiwTrading.Sequence
open PpiwTrading.Trader
open PpiwTrading.Exchange
open PpiwTrading.Transition

variable {P : Type}

/-- What the library keeps of the messages between two processes when the receiving or
the sending side gives up its port: nothing new, and nothing in another order. -/
structure SocketLibrary where
  unbind : {M : Type} → List M → List M
  disconnect : {M : Type} → List M → List M
  unbind_sublist : ∀ {M : Type} (msgs : List M), (unbind msgs).Sublist msgs
  disconnect_sublist : ∀ {M : Type} (msgs : List M), (disconnect msgs).Sublist msgs

inductive Process
  | trader (traderIdx : Nat)
  | exchange (exchangeIdx : Nat)
  deriving DecidableEq, Repr

namespace Process

/-- The processes of the configuration. -/
def Present (config : Config) : Process → Prop
  | trader traderIdx => traderIdx < config.traderNum
  | exchange exchangeIdx => exchangeIdx < config.exchangeNum

/-- A process that takes steps. -/
def Runs (config : Config) (network : Network P) : Process → Prop
  | trader traderIdx => network.TraderRuns config traderIdx
  | exchange exchangeIdx => network.ExchangeRuns config exchangeIdx

instance (config : Config) (network : Network P) :
    (process : Process) → Decidable (process.Runs config network)
  | trader traderIdx => inferInstanceAs (Decidable (network.TraderRuns config traderIdx))
  | exchange exchangeIdx => inferInstanceAs (Decidable (network.ExchangeRuns config exchangeIdx))

/-- A trader has a sender for each exchange, an exchange has one for all traders. -/
def senderNum (config : Config) : Process → Nat
  | trader _ => config.exchangeNum
  | exchange _ => 1

def commands (config : Config) : Process → Command → List ConsoleOp
  | trader _ => traderCommand config.exchangeNum
  | exchange _ => exchangeCommand

theorem forall_present {config : Config} {motive : Process → Prop}
    (traders : ∀ traderIdx < config.traderNum, motive (.trader traderIdx))
    (exchanges : ∀ exchangeIdx < config.exchangeNum, motive (.exchange exchangeIdx))
    (process : Process) (present : process.Present config) : motive process := by
  cases process with
  | trader traderIdx => exact traders traderIdx present
  | exchange exchangeIdx => exact exchanges exchangeIdx present

theorem commands_serves (config : Config) (process : Process) :
    Console.Commands (process.senderNum config) (process.commands config) := by
  cases process with
  | trader traderIdx => exact Console.commands_trader config.exchangeNum
  | exchange exchangeIdx => exact Console.commands_exchange

end Process

/-- The lock under which a thread performs an action. -/
def Action.pauseLock : Action → Option (Process × PauseLock)
  | .sendOrder traderIdx exchangeIdx => some (.trader traderIdx, .sendLock exchangeIdx)
  | .receiveOrder _ exchangeIdx => some (.exchange exchangeIdx, .recvLock)
  | .sendMsg exchangeIdx => some (.exchange exchangeIdx, .sendLock 0)
  | .receiveMsg traderIdx _ => some (.trader traderIdx, .recvLock)
  | _ => none

/-- A system and the consoles of its processes. -/
structure PausedNetwork (P : Type) where
  network : Network P
  consoles : Process → Console

inductive PausedAction
  /-- A step of one of the other threads. -/
  | act (action : Action)
  /-- A console enters a command. -/
  | enter (process : Process) (command : Command)
  /-- A console goes on with its command. -/
  | goOn (process : Process)

namespace Network

/-- `reset_network` of a process: its receiver unbinds and its senders disconnect. -/
def resetNetwork (library : SocketLibrary) (config : Config) (network : Network P) :
    Process → Network P
  | .trader traderIdx =>
      { network with
        orderChannel := fun pair =>
          if pair.1 = traderIdx ∧ pair.2 < config.exchangeNum then
            library.disconnect (network.orderChannel pair)
          else network.orderChannel pair
        msgChannel := fun pair =>
          if pair.1 = traderIdx ∧ pair.2 < config.exchangeNum then
            library.unbind (network.msgChannel pair)
          else network.msgChannel pair }
  | .exchange exchangeIdx =>
      { network with
        orderChannel := fun pair =>
          if pair.1 < config.traderNum ∧ pair.2 = exchangeIdx then
            library.unbind (network.orderChannel pair)
          else network.orderChannel pair
        msgChannel := fun pair =>
          if pair.1 < config.traderNum ∧ pair.2 = exchangeIdx then
            library.disconnect (network.msgChannel pair)
          else network.msgChannel pair }

/-- Nothing is in a socket of a process. -/
def Drained (config : Config) (network : Network P) : Process → Prop
  | .trader traderIdx => ∀ exchangeIdx < config.exchangeNum,
      network.orderChannel (traderIdx, exchangeIdx) = [] ∧
        network.msgChannel (traderIdx, exchangeIdx) = []
  | .exchange exchangeIdx => ∀ traderIdx < config.traderNum,
      network.orderChannel (traderIdx, exchangeIdx) = [] ∧
        network.msgChannel (traderIdx, exchangeIdx) = []

instance (config : Config) (network : Network P) :
    (process : Process) → Decidable (network.Drained config process)
  | .trader _ => inferInstanceAs (Decidable (∀ _ < config.exchangeNum, _ ∧ _))
  | .exchange _ => inferInstanceAs (Decidable (∀ _ < config.traderNum, _ ∧ _))

end Network

namespace PausedNetwork

def new (config : Config) (inputs : Nat → TraderInput P) : PausedNetwork P :=
  ⟨Network.new config inputs, fun _ => Console.new⟩

/-- The console of its process does not hold the lock that an action needs. -/
def Free (paused : PausedNetwork P) (action : Action) : Prop :=
  (action.pauseLock.all fun lock => !(paused.consoles lock.1).held lock.2) = true

instance (paused : PausedNetwork P) (action : Action) : Decidable (paused.Free action) :=
  inferInstanceAs (Decidable (_ = true))

def setConsole (paused : PausedNetwork P) (process : Process) (console : Console) :
    PausedNetwork P :=
  { paused with consoles := Function.update paused.consoles process console }

/-- What an operation of a console does to the sockets. -/
def operate (library : SocketLibrary) (config : Config) (process : Process)
    (paused : PausedNetwork P) : ConsoleOp → PausedNetwork P
  | .resetNetwork => { paused with network := paused.network.resetNetwork library config process }
  | _ => paused

variable [LinearOrder P] [Zero P]

/-- Perform an action; `none` when it is not enabled. -/
def next (library : SocketLibrary) (algorithms : HeapAlgorithms) (config : Config)
    (inputs : Nat → TraderInput P) (action : PausedAction) (paused : PausedNetwork P) :
    Option (PausedNetwork P) :=
  match action with
  | .act action =>
      if paused.Free action then
        (Network.next algorithms config inputs action paused.network).map fun network =>
          { paused with network }
      else none
  | .enter process command =>
      if process.Runs config paused.network then
        ((paused.consoles process).enter (process.commands config command)).map
          (paused.setConsole process)
      else none
  | .goOn process =>
      if process.Runs config paused.network then
        (paused.consoles process).step.map fun stepped =>
          (paused.operate library config process stepped.1).setConsole process stepped.2
      else none

/-- A network is reset only when nothing is in the sockets of the process. -/
def Careful (config : Config) : PausedAction → PausedNetwork P → Prop
  | .goOn process, paused =>
      (paused.consoles process).todo.head? = some .resetNetwork →
        paused.network.Drained config process
  | _, _ => True

instance (config : Config) :
    (action : PausedAction) → (paused : PausedNetwork P) → Decidable (Careful config action paused)
  | .goOn _, _ => inferInstanceAs (Decidable (_ → _))
  | .act _, _ => inferInstanceAs (Decidable True)
  | .enter _ _, _ => inferInstanceAs (Decidable True)

/-- The operation by which a console gives a send lock back. -/
def givesSendLock : Option ConsoleOp → Bool
  | some (.unlock (.sendLock _)) => true
  | _ => false

/-- No console gives a send lock back. -/
def KeepsStopped : PausedAction → PausedNetwork P → Prop
  | .goOn process, paused => givesSendLock (paused.consoles process).todo.head? = false
  | _, _ => True

instance : (action : PausedAction) → (paused : PausedNetwork P) →
    Decidable (KeepsStopped action paused)
  | .goOn _, _ => inferInstanceAs (Decidable (_ = _))
  | .act _, _ => inferInstanceAs (Decidable True)
  | .enter _ _, _ => inferInstanceAs (Decidable True)

def isReceive : PausedAction → Bool
  | .act (.receiveOrder _ _) => true
  | .act (.receiveMsg _ _) => true
  | _ => false

/-- Only receivers take steps. -/
def Receives (action : PausedAction) (_ : PausedNetwork P) : Prop :=
  isReceive action = true

instance (action : PausedAction) (paused : PausedNetwork P) :
    Decidable (Receives action paused) :=
  inferInstanceAs (Decidable (_ = true))

/-- The consoles hold the locks of all senders. -/
def Stopped (config : Config) (paused : PausedNetwork P) : Prop :=
  ∀ process : Process, process.Present config → ∀ idx < process.senderNum config,
    (paused.consoles process).held (.sendLock idx) = true

/-- The system when its networks are reset with care. -/
def careful (library : SocketLibrary) (algorithms : HeapAlgorithms) (config : Config)
    (inputs : Nat → TraderInput P) : PausedAction → PausedNetwork P → Option (PausedNetwork P) :=
  restrict (Careful config) (next library algorithms config inputs)

/-- What a single action can do, with the guards under which it is enabled. -/
inductive Step (library : SocketLibrary) (algorithms : HeapAlgorithms) (config : Config)
    (inputs : Nat → TraderInput P) (paused : PausedNetwork P) :
    PausedAction → PausedNetwork P → Prop
  | act {action : Action} {network : Network P} (free : paused.Free action)
      (performed : Network.next algorithms config inputs action paused.network = some network) :
      Step library algorithms config inputs paused (.act action) { paused with network }
  | enter {process : Process} {command : Command} {console : Console}
      (runs : process.Runs config paused.network)
      (entered : (paused.consoles process).enter (process.commands config command) =
        some console) :
      Step library algorithms config inputs paused (.enter process command)
        (paused.setConsole process console)
  | goOn {process : Process} {op : ConsoleOp} {console : Console}
      (runs : process.Runs config paused.network)
      (stepped : (paused.consoles process).step = some (op, console)) :
      Step library algorithms config inputs paused (.goOn process)
        ((paused.operate library config process op).setConsole process console)

end PausedNetwork

open PausedNetwork (Careful KeepsStopped Receives Stopped careful)

section Steps

variable [LinearOrder P] [Zero P] {library : SocketLibrary} {algorithms : HeapAlgorithms}
  {config : Config} {inputs : Nat → TraderInput P} {paused paused' : PausedNetwork P}
  {action : PausedAction} {orderNum : Int → Nat}

theorem PausedNetwork.next_step
    (performed : PausedNetwork.next library algorithms config inputs action paused =
      some paused') : paused.Step library algorithms config inputs action paused' := by
  cases action with
  | act action =>
      simp only [PausedNetwork.next] at performed
      split at performed
      · rename_i free
        rcases Option.map_eq_some_iff.mp performed with ⟨network, step, rfl⟩
        exact .act free step
      · cases performed
  | enter process command =>
      simp only [PausedNetwork.next] at performed
      split at performed
      · rename_i runs
        rcases Option.map_eq_some_iff.mp performed with ⟨console, entered, rfl⟩
        exact .enter runs entered
      · cases performed
  | goOn process =>
      simp only [PausedNetwork.next] at performed
      split at performed
      · rename_i runs
        rcases Option.map_eq_some_iff.mp performed with ⟨⟨op, console⟩, stepped, rfl⟩
        exact .goOn runs stepped
      · cases performed

omit [LinearOrder P] [Zero P] in
/-- Nothing is lost of what is not there. -/
theorem Network.resetNetwork_drained {network : Network P} {process : Process}
    (drained : network.Drained config process) :
    network.resetNetwork library config process = network := by
  have unbind : ∀ {M : Type} {msgs : List M}, msgs = [] → library.unbind msgs = msgs := by
    rintro M msgs rfl
    exact List.sublist_nil.mp (library.unbind_sublist [])
  have disconnect : ∀ {M : Type} {msgs : List M}, msgs = [] → library.disconnect msgs = msgs := by
    rintro M msgs rfl
    exact List.sublist_nil.mp (library.disconnect_sublist [])
  rcases network with ⟨traders, exchanges, orderChannel, msgChannel⟩
  cases process with
  | trader traderIdx =>
      simp only [Network.resetNetwork, Network.mk.injEq, true_and]
      constructor
      · funext ⟨tr, e⟩
        split
        · rename_i links
          rcases links with ⟨rfl, exchange⟩
          exact disconnect (drained e exchange).1
        · rfl
      · funext ⟨tr, e⟩
        split
        · rename_i links
          rcases links with ⟨rfl, exchange⟩
          exact unbind (drained e exchange).2
        · rfl
  | exchange exchangeIdx =>
      simp only [Network.resetNetwork, Network.mk.injEq, true_and]
      constructor
      · funext ⟨tr, e⟩
        split
        · rename_i links
          rcases links with ⟨trader, rfl⟩
          exact unbind (drained tr trader).1
        · rfl
      · funext ⟨tr, e⟩
        split
        · rename_i links
          rcases links with ⟨trader, rfl⟩
          exact disconnect (drained tr trader).2
        · rfl

/-- A careful step is a step of the system without consoles, or none. -/
theorem careful_step
    (performed : careful library algorithms config inputs action paused = some paused') :
    paused'.network = paused.network ∨
      ∃ action', Network.next algorithms config inputs action' paused.network =
        some paused'.network := by
  rcases restrict_eq_some.mp performed with ⟨allowed, performed⟩
  cases PausedNetwork.next_step performed with
  | act free step => exact Or.inr ⟨_, step⟩
  | enter runs entered => exact Or.inl rfl
  | @goOn process op console runs stepped =>
      left
      cases op with
      | lock l => rfl
      | unlock l => rfl
      | resetNetwork =>
          apply Network.resetNetwork_drained
          apply allowed
          rw [(Console.step_eq_some.mp stepped).1]
          rfl

theorem careful_reachable
    (reachable : Reachable (careful library algorithms config inputs)
      (PausedNetwork.new config inputs) paused) :
    Network.Reachable algorithms config inputs paused.network :=
  Reachable.image (fun _ => True) PausedNetwork.network (fun _ _ => trivial)
    (fun _ performed => careful_step performed) trivial reachable

/-- Every console would hold all send locks or none when it came to the end of its
command. -/
theorem reachable_consoles_tidy
    (reachable : Reachable (PausedNetwork.next library algorithms config inputs)
      (PausedNetwork.new config inputs) paused) (process : Process) :
    (paused.consoles process).Tidy (process.senderNum config) := by
  revert process
  apply Reachable.invariant
    (motive := fun paused => ∀ process : Process,
      (paused.consoles process).Tidy (process.senderNum config)) _ _ reachable
  · intro process
    exact Console.Tidy.new _
  · intro state state' action tidy performed
    have updated : ∀ {process : Process} {console : Console},
        console.Tidy (process.senderNum config) →
        ∀ process' : Process, (Function.update state.consoles process console process').Tidy
          (process'.senderNum config) := by
      intro process console own
      exact (Function.forall_update_iff state.consoles fun (process' : Process) console =>
        console.Tidy (process'.senderNum config)).mpr ⟨own, fun process' _ => tidy process'⟩
    cases PausedNetwork.next_step performed with
    | act free step => exact tidy
    | enter runs entered =>
        exact updated ((tidy _).enter (Process.commands_serves config _) entered)
    | @goOn process op console runs stepped =>
        have consoles : (state.operate library config process op).consoles = state.consoles := by
          cases op <;> rfl
        intro process'
        rw [PausedNetwork.setConsole, consoles]
        exact updated ((tidy _).step stepped) process'

/-! ## Channels whose senders are stopped -/

/-- What an action does to the channels: it appends to one, takes the first message off
one, or leaves all as they are. -/
theorem Network.next_channels {network network' : Network P} {action : Action}
    (performed : Network.next algorithms config inputs action network = some network') :
    (∃ tr e order, action = .sendOrder tr e ∧ network'.msgChannel = network.msgChannel ∧
      network'.orderChannel = Function.update network.orderChannel (tr, e)
        (network.orderChannel (tr, e) ++ [order])) ∨
    (∃ tr e order rest, action = .receiveOrder tr e ∧
      network.orderChannel (tr, e) = order :: rest ∧
      network'.msgChannel = network.msgChannel ∧
      network'.orderChannel = Function.update network.orderChannel (tr, e) rest) ∨
    (∃ e idx msg, action = .sendMsg e ∧ network'.orderChannel = network.orderChannel ∧
      network'.msgChannel = Function.update network.msgChannel (idx, e)
        (network.msgChannel (idx, e) ++ [msg])) ∨
    (∃ tr e msg rest, action = .receiveMsg tr e ∧ network.msgChannel (tr, e) = msg :: rest ∧
      network'.orderChannel = network.orderChannel ∧
      network'.msgChannel = Function.update network.msgChannel (tr, e) rest) ∨
    (network'.orderChannel = network.orderChannel ∧
      network'.msgChannel = network.msgChannel) := by
  cases action with
  | control tr =>
      simp only [Network.next] at performed
      split at performed
      · rcases Option.map_eq_some_iff.mp performed with ⟨trader, _, rfl⟩
        simp [Network.setTrader]
      · cases performed
  | pollOrder tr e =>
      simp only [Network.next] at performed
      split at performed
      · rcases Option.map_eq_some_iff.mp performed with ⟨trader, _, rfl⟩
        simp [Network.setTrader]
      · cases performed
  | sendOrder tr e =>
      simp only [Network.next] at performed
      split at performed
      · rcases Option.map_eq_some_iff.mp performed with ⟨⟨order, trader⟩, _, rfl⟩
        exact Or.inl ⟨tr, e, order, rfl, rfl, rfl⟩
      · cases performed
  | receiveOrder tr e =>
      simp only [Network.next] at performed
      split at performed
      · split at performed
        · cases performed
        · rename_i order rest channel
          cases performed
          exact Or.inr (Or.inl ⟨tr, e, order, rest, rfl, channel, rfl, rfl⟩)
      · cases performed
  | work e s =>
      simp only [Network.next] at performed
      split at performed
      · rcases Option.map_eq_some_iff.mp performed with ⟨ex, _, rfl⟩
        simp [Network.setExchange]
      · cases performed
  | takeMsg e =>
      simp only [Network.next] at performed
      split at performed
      · rcases Option.map_eq_some_iff.mp performed with ⟨ex, _, rfl⟩
        simp [Network.setExchange]
      · cases performed
  | sendMsg e =>
      simp only [Network.next] at performed
      split at performed
      · rcases Option.map_eq_some_iff.mp performed with ⟨⟨⟨msg, idx⟩, ex⟩, _, rfl⟩
        exact Or.inr (Or.inr (Or.inl ⟨e, idx, msg, rfl, rfl, rfl⟩))
      · cases performed
  | receiveMsg tr e =>
      simp only [Network.next] at performed
      split at performed
      · split at performed
        · cases performed
        · rename_i msg rest channel
          cases performed
          exact Or.inr (Or.inr (Or.inr (Or.inl ⟨tr, e, msg, rest, rfl, channel, rfl, rfl⟩)))
      · cases performed

/-- A channel from which a message is taken keeps some of its messages. -/
theorem update_sublist {κ M : Type} [DecidableEq κ] (channel : κ → List M) {key : κ}
    {msgs : List M} (fewer : msgs.Sublist (channel key)) (other : κ) :
    (Function.update channel key msgs other).Sublist (channel other) := by
  by_cases same : other = key
  · subst same
    rw [Function.update_self]
    exact fewer
  · rw [Function.update_of_ne same]

/-- Unless an order is sent on a channel, its orders become fewer. -/
theorem Network.next_orderChannel {network network' : Network P} {action : Action}
    (performed : Network.next algorithms config inputs action network = some network') {tr e : Nat}
    (notSent : action ≠ .sendOrder tr e) :
    (network'.orderChannel (tr, e)).Sublist (network.orderChannel (tr, e)) := by
  rcases Network.next_channels performed with ⟨tr', e', order, rfl, _, sent⟩ |
    ⟨tr', e', order, rest, _, channel, _, received⟩ | ⟨_, _, _, _, same, _⟩ |
    ⟨_, _, _, _, _, _, same, _⟩ | ⟨same, _⟩
  · have other : (tr, e) ≠ (tr', e') := by
      rintro ⟨⟩
      exact notSent rfl
    rw [sent, Function.update_of_ne other]
  · rw [received]
    apply update_sublist
    rw [channel]
    exact List.sublist_cons_self order rest
  all_goals rw [same]

/-- Unless an exchange sends, the messages to a trader become fewer. -/
theorem Network.next_msgChannel {network network' : Network P} {action : Action}
    (performed : Network.next algorithms config inputs action network = some network') {tr e : Nat}
    (notSent : action ≠ .sendMsg e) :
    (network'.msgChannel (tr, e)).Sublist (network.msgChannel (tr, e)) := by
  rcases Network.next_channels performed with ⟨_, _, _, _, same, _⟩ |
    ⟨_, _, _, _, _, _, same, _⟩ | ⟨e', idx, msg, rfl, _, sent⟩ |
    ⟨tr', e', msg, rest, _, channel, _, received⟩ | ⟨_, same⟩
  · rw [same]
  · rw [same]
  · have other : (tr, e) ≠ (idx, e') := by
      rintro ⟨⟩
      exact notSent rfl
    rw [sent, Function.update_of_ne other]
  · rw [received]
    apply update_sublist
    rw [channel]
    exact List.sublist_cons_self msg rest
  · rw [same]

omit [LinearOrder P] [Zero P] in
/-- A reset leaves some of the messages. -/
theorem Network.resetNetwork_sublist (library : SocketLibrary) (config : Config)
    (network : Network P) (process : Process) (pair : Nat × Nat) :
    ((network.resetNetwork library config process).orderChannel pair).Sublist
        (network.orderChannel pair) ∧
      ((network.resetNetwork library config process).msgChannel pair).Sublist
        (network.msgChannel pair) := by
  cases process with
  | trader traderIdx =>
      simp only [Network.resetNetwork]
      split
      · exact ⟨library.disconnect_sublist _, library.unbind_sublist _⟩
      · exact ⟨List.Sublist.refl _, List.Sublist.refl _⟩
  | exchange exchangeIdx =>
      simp only [Network.resetNetwork]
      split
      · exact ⟨library.unbind_sublist _, library.disconnect_sublist _⟩
      · exact ⟨List.Sublist.refl _, List.Sublist.refl _⟩

/-- As long as the console of the sending process holds the lock of the sender, a channel
gets no more messages. -/
theorem PausedNetwork.next_channels
    (performed : PausedNetwork.next library algorithms config inputs action paused =
      some paused') (tr e : Nat) :
    ((paused.consoles (.trader tr)).held (.sendLock e) = true →
      (paused'.network.orderChannel (tr, e)).Sublist (paused.network.orderChannel (tr, e))) ∧
    ((paused.consoles (.exchange e)).held (.sendLock 0) = true →
      (paused'.network.msgChannel (tr, e)).Sublist (paused.network.msgChannel (tr, e))) := by
  cases PausedNetwork.next_step performed with
  | act free step =>
      constructor
      · intro held
        apply Network.next_orderChannel step
        rintro rfl
        simp [PausedNetwork.Free, Action.pauseLock, held] at free
      · intro held
        apply Network.next_msgChannel step
        rintro rfl
        simp [PausedNetwork.Free, Action.pauseLock, held] at free
  | enter runs entered => exact ⟨fun _ => List.Sublist.refl _, fun _ => List.Sublist.refl _⟩
  | @goOn process op console runs stepped =>
      cases op with
      | lock l => exact ⟨fun _ => List.Sublist.refl _, fun _ => List.Sublist.refl _⟩
      | unlock l => exact ⟨fun _ => List.Sublist.refl _, fun _ => List.Sublist.refl _⟩
      | resetNetwork =>
          have fewer := paused.network.resetNetwork_sublist library config process (tr, e)
          exact ⟨fun _ => fewer.1, fun _ => fewer.2⟩

omit [LinearOrder P] [Zero P] in
theorem Process.Runs.present {process : Process} {network : Network P}
    (runs : process.Runs config network) : process.Present config := by
  cases process with
  | trader traderIdx => exact runs.1
  | exchange exchangeIdx => exact runs.1

theorem PausedNetwork.Stopped.step (stopped : Stopped config paused)
    (keeps : KeepsStopped action paused)
    (performed : PausedNetwork.next library algorithms config inputs action paused =
      some paused') : Stopped config paused' := by
  have updated : ∀ {process : Process} {console : Console},
      (∀ idx, (paused.consoles process).held (.sendLock idx) = true →
        console.held (.sendLock idx) = true) →
      ∀ process' : Process, process'.Present config → ∀ idx < process'.senderNum config,
        (Function.update paused.consoles process console process').held (.sendLock idx) =
          true := by
    intro process console kept process' present idx inside
    have before := stopped process' present idx inside
    by_cases same : process' = process
    · subst same
      rw [Function.update_self]
      exact kept idx before
    · rw [Function.update_of_ne same]
      exact before
  cases PausedNetwork.next_step performed with
  | act free step => exact stopped
  | enter runs entered =>
      apply updated
      intro idx before
      unfold Console.enter at entered
      split at entered
      · cases entered
        exact before
      · cases entered
  | @goOn process op console runs stepped =>
      rcases Console.step_eq_some.mp stepped with ⟨next, holds⟩
      have consoles : (paused.operate library config process op).consoles = paused.consoles := by
        cases op <;> rfl
      unfold Stopped PausedNetwork.setConsole
      rw [consoles]
      apply updated
      intro idx before
      apply Console.hold_kept holds before
      rintro rfl
      simp [KeepsStopped, PausedNetwork.givesSendLock, next] at keeps

/-- As long as no send lock is given back, the messages on their way become fewer. -/
theorem PausedNetwork.Stopped.later (stopped : Stopped config paused) {later : PausedNetwork P}
    (reachable : Reachable
      (restrict KeepsStopped (PausedNetwork.next library algorithms config inputs)) paused later) :
    Stopped config later ∧ ∀ tr < config.traderNum, ∀ e < config.exchangeNum,
      (later.network.orderChannel (tr, e)).Sublist (paused.network.orderChannel (tr, e)) ∧
        (later.network.msgChannel (tr, e)).Sublist (paused.network.msgChannel (tr, e)) := by
  induction reachable with
  | refl => exact ⟨stopped, fun _ _ _ _ => ⟨List.Sublist.refl _, List.Sublist.refl _⟩⟩
  | tail _ step inductionHypothesis =>
      rcases inductionHypothesis with ⟨still, fewer⟩
      rcases restrict_eq_some.mp step with ⟨keeps, performed⟩
      use still.step keeps performed
      intro tr trader e exchange
      have channels := PausedNetwork.next_channels performed tr e
      constructor
      · exact (channels.1 (still (.trader tr) trader e exchange)).trans
          (fewer tr trader e exchange).1
      · exact (channels.2 (still (.exchange e) exchange 0 Nat.one_pos)).trans
          (fewer tr trader e exchange).2

/-- A process of a healthy system takes steps. -/
theorem Healthy.process_runs {network : Network P}
    (healthy : Healthy algorithms config inputs network) {process : Process}
    (present : process.Present config) : process.Runs config network := by
  cases process with
  | trader traderIdx => exact ⟨present, healthy.consistent.running traderIdx present⟩
  | exchange exchangeIdx => exact ⟨present, healthy.exchangesRun exchangeIdx present⟩

omit [LinearOrder P] [Zero P] in
theorem Network.drained_of_channels {network : Network P}
    (empty : ∀ tr < config.traderNum, ∀ e < config.exchangeNum,
      network.orderChannel (tr, e) = [] ∧ network.msgChannel (tr, e) = []) {process : Process}
    (present : process.Present config) : network.Drained config process := by
  cases process with
  | trader traderIdx => exact empty traderIdx present
  | exchange exchangeIdx =>
      intro tr trader
      exact empty tr trader exchangeIdx present

/-- When the receivers go on, they alone can empty all channels. -/
theorem exists_drained (library : SocketLibrary) (partitioned : Partitioned config inputs orderNum)
    (volumes : PositiveVolumes config inputs)
    (healthy : Healthy algorithms config inputs paused.network)
    (receiving : ∀ process : Process, process.Present config →
      (paused.consoles process).held .recvLock = false) :
    ∃ drained, Reachable
        (restrict Receives (PausedNetwork.next library algorithms config inputs)) paused drained ∧
      drained.consoles = paused.consoles ∧
      ∀ tr < config.traderNum, ∀ e < config.exchangeNum,
        drained.network.orderChannel (tr, e) = [] ∧ drained.network.msgChannel (tr, e) = [] := by
  have stays : ∀ {state state' : PausedNetwork P} {action : PausedAction},
      (Healthy algorithms config inputs state.network ∧ state.consoles = paused.consoles) →
      restrict Receives (PausedNetwork.next library algorithms config inputs) action state =
        some state' →
      Healthy algorithms config inputs state'.network ∧ state'.consoles = paused.consoles := by
    rintro state state' action ⟨healthy, same⟩ performed
    rcases restrict_eq_some.mp performed with ⟨receives, performed⟩
    cases PausedNetwork.next_step performed with
    | act free step => exact ⟨healthy.step partitioned volumes (Network.next_step step), same⟩
    | enter runs entered => exact absurd receives Bool.false_ne_true
    | goOn runs stepped => exact absurd receives Bool.false_ne_true
  suffices ∃ drained, Reachable
      (restrict Receives (PausedNetwork.next library algorithms config inputs)) paused drained ∧
      ∀ tr < config.traderNum, ∀ e < config.exchangeNum,
        drained.network.orderChannel (tr, e) = [] ∧ drained.network.msgChannel (tr, e) = [] by
    rcases this with ⟨drained, reached, empty⟩
    have last := Reachable.invariant
      (motive := fun state : PausedNetwork P =>
        Healthy algorithms config inputs state.network ∧ state.consoles = paused.consoles)
      ⟨healthy, rfl⟩ stays reached
    exact ⟨drained, reached, last.2, empty⟩
  apply exists_reachable_rest
    (fun state => Healthy algorithms config inputs state.network ∧
      state.consoles = paused.consoles)
    (fun state => effort config inputs state.network) stays _ ⟨healthy, rfl⟩
  rintro state ⟨healthy, same⟩ waiting
  -- A step of a receiver is made under a lock that is not held, and it lowers the effort.
  have lowers : ∀ {action : Action} {network : Network P},
      Network.next algorithms config inputs action state.network = some network →
      Receives (.act action) state → state.Free action →
      ∃ state', Reachable
          (restrict Receives (PausedNetwork.next library algorithms config inputs)) state state' ∧
        effort config inputs state'.network < effort config inputs state.network := by
    intro action network step receives free
    have performed : PausedNetwork.next library algorithms config inputs (.act action) state =
        some { state with network } := by
      simp only [PausedNetwork.next, if_pos free, step, Option.map_some]
    refine ⟨_, Reachable.refl.tail (restrict_eq_some.mpr ⟨receives, performed⟩), ?_⟩
    rcases healthy.consistent.effort_step healthy.tidy volumes step with ⟨tr, pc, rfl, _⟩ | less
    · exact absurd receives Bool.false_ne_true
    · exact less
  push Not at waiting
  rcases waiting with ⟨tr, trader, e, exchange, held⟩
  by_cases orders : state.network.orderChannel (tr, e) = []
  · rcases healthy.receives_msg trader exchange (held orders) with ⟨network, step⟩
    apply lowers step rfl
    simp [PausedNetwork.Free, Action.pauseLock, same, receiving (.trader tr) trader]
  · rcases healthy.receives_order trader exchange orders with ⟨network, step⟩
    apply lowers step rfl
    simp [PausedNetwork.Free, Action.pauseLock, same, receiving (.exchange e) exchange]

end Steps

/-- A library that drops what is in the sockets. -/
def droppingLibrary : SocketLibrary :=
  ⟨fun _ => [], fun _ => [], fun msgs => List.nil_sublist msgs, fun msgs => List.nil_sublist msgs⟩

/-- A state of the small system under a list of actions. -/
def smallPaused (actions : List PausedAction) : PausedNetwork Int :=
  (run (careful droppingLibrary binaryHeap smallConfig smallInputs) actions
    (PausedNetwork.new smallConfig smallInputs)).getD (PausedNetwork.new smallConfig smallInputs)

theorem smallPaused_reachable {actions : List PausedAction}
    (performed : (run (careful droppingLibrary binaryHeap smallConfig smallInputs) actions
      (PausedNetwork.new smallConfig smallInputs)).isSome = true) :
    Reachable (careful droppingLibrary binaryHeap smallConfig smallInputs)
      (PausedNetwork.new smallConfig smallInputs) (smallPaused actions) := by
  rcases Option.isSome_iff_exists.mp performed with ⟨final, executed⟩
  rw [smallPaused, executed, Option.getD_some]
  exact Reachable.of_run executed

/-- An order of the second trader is on its way when all senders are stopped; a sender of
the first trader has another one in its hands. -/
def stopsRun : List PausedAction :=
  List.flatten
    [ List.replicate 8 (.act (.control 0)),
      List.replicate 7 (.act (.control 1)),
      [.act (.pollOrder 0 1), .act (.pollOrder 1 1), .act (.sendOrder 1 1)],
      [.enter (.trader 0) .stops, .goOn (.trader 0), .goOn (.trader 0)],
      [.enter (.trader 1) .stops, .goOn (.trader 1), .goOn (.trader 1)],
      [.enter (.exchange 0) .stops, .goOn (.exchange 0)],
      [.enter (.exchange 1) .stops, .goOn (.exchange 1)]]

end PpiwTrading.System
