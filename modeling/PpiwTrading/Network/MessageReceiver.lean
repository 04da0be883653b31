import PpiwTrading.Transition.Labelled

/-!
# The receiver of the messages of several ports

A `MessageReceiver` has a socket for each port.  `tryrecv` looks at the ports from
`offset` on, once around, and receives the first message it finds; only when it finds
none it moves the offset on.  So the port of the offset is served as long as it has
messages, however long the others wait.

The index of the port that a message is received from is not returned by the source; it
is kept here to say where a message comes from.
-/

namespace PpiwTrading

open PpiwTrading.Transition

/-- The messages that wait at each of the `portNum` sockets, and `offset`. -/
structure MessageReceiver (T : Type) where
  portNum : Nat
  receivers : Nat → List T
  offset : Nat

namespace MessageReceiver

variable {T : Type}

def new (portNum : Nat) : MessageReceiver T :=
  ⟨portNum, fun _ => [], 0⟩

/-- `tryrecv(idx, str)`. -/
def tryrecvAt (receiver : MessageReceiver T) (idx : Nat) :
    Option ((Nat × T) × MessageReceiver T) :=
  match receiver.receivers idx with
  | [] => none
  | msg :: rest =>
      some ((idx, msg),
        { receiver with receivers := Function.update receiver.receivers idx rest })

/-- The ports in the order in which `tryrecv(str)` looks at them. -/
def ports (receiver : MessageReceiver T) : List Nat :=
  (List.range receiver.portNum).map fun idx => (idx + receiver.offset) % receiver.portNum

/-- `tryrecv(str)`. -/
def tryrecv (receiver : MessageReceiver T) : Option (Nat × T) × MessageReceiver T :=
  match receiver.ports.findSome? receiver.tryrecvAt with
  | some (received, receiver') => (some received, receiver')
  | none => (none, { receiver with offset := (receiver.offset + 1) % receiver.portNum })

/-- A message arrives at a port. -/
def arrive (receiver : MessageReceiver T) (port : Nat) (msg : T) : MessageReceiver T :=
  { receiver with
    receivers := Function.update receiver.receivers port (receiver.receivers port ++ [msg]) }

/-- Receive as often as there is a message, but not more than `n` times. -/
def drain : Nat → MessageReceiver T → List (Nat × T) × MessageReceiver T
  | 0, receiver => ([], receiver)
  | n + 1, receiver =>
      match receiver.tryrecv with
      | (none, receiver') => ([], receiver')
      | (some received, receiver') =>
          (received :: (drain n receiver').1, (drain n receiver').2)

/-! ## What a call does -/

variable {receiver : MessageReceiver T}

theorem ports_eq_rotate (receiver : MessageReceiver T) :
    receiver.ports = (List.range receiver.portNum).rotate receiver.offset := by
  apply List.ext_getElem
  · simp [ports]
  · intro idx _ _
    simp [ports, List.getElem_rotate]

theorem mem_ports {port : Nat} : port ∈ receiver.ports ↔ port < receiver.portNum := by
  rw [ports_eq_rotate, List.mem_rotate, List.mem_range]

theorem nodup_ports (receiver : MessageReceiver T) : receiver.ports.Nodup := by
  rw [ports_eq_rotate, List.nodup_rotate]
  exact List.nodup_range

theorem head?_ports (inside : receiver.offset < receiver.portNum) :
    receiver.ports.head? = some receiver.offset := by
  have some : receiver.portNum = receiver.portNum - 1 + 1 := by omega
  rw [ports, some, List.range_succ_eq_map, List.map_cons, List.head?_cons, ← some, Nat.zero_add,
    Nat.mod_eq_of_lt inside]

/-- A call finds no message, and moves the offset, or it receives the first message of
the first port that has one. -/
theorem tryrecv_cases (receiver : MessageReceiver T) :
    ((∀ port ∈ receiver.ports, receiver.receivers port = []) ∧
      receiver.tryrecv =
        (none, { receiver with offset := (receiver.offset + 1) % receiver.portNum })) ∨
    ∃ before port after msg rest, receiver.ports = before ++ port :: after ∧
      (∀ earlier ∈ before, receiver.receivers earlier = []) ∧
      receiver.receivers port = msg :: rest ∧
      receiver.tryrecv = (some (port, msg),
        { receiver with receivers := Function.update receiver.receivers port rest }) := by
  have empty : ∀ {port}, receiver.tryrecvAt port = none → receiver.receivers port = [] := by
    intro port failed
    unfold tryrecvAt at failed
    split at failed
    · assumption
    · cases failed
  cases scan : receiver.ports.findSome? receiver.tryrecvAt with
  | none =>
      left
      constructor
      · intro port member
        exact empty (List.findSome?_eq_none_iff.mp scan port member)
      · rw [tryrecv, scan]
  | some found =>
      right
      rcases List.findSome?_eq_some_iff.mp scan with ⟨before, port, after, split, hit, missed⟩
      rw [tryrecvAt] at hit
      split at hit
      · cases hit
      · rename_i msg rest waiting
        cases hit
        refine ⟨before, port, after, msg, rest, split, ?_, waiting, ?_⟩
        · exact fun earlier member => empty (missed earlier member)
        · rw [tryrecv, scan]

/-- Nothing is found exactly when no message waits at any port. -/
theorem tryrecv_eq_none_iff :
    receiver.tryrecv.1 = none ↔ ∀ port < receiver.portNum, receiver.receivers port = [] := by
  rcases receiver.tryrecv_cases with
    ⟨empty, result⟩ | ⟨before, port, after, msg, rest, split, _, waiting, result⟩
  · rw [result]
    constructor
    · exact fun _ port isPort => empty port (mem_ports.mpr isPort)
    · exact fun _ => rfl
  · rw [result]
    constructor
    · intro received
      cases received
    · intro empty
      have member : port ∈ receiver.ports := by
        rw [split]
        exact List.mem_append_right _ List.mem_cons_self
      rw [empty port (mem_ports.mp member)] at waiting
      cases waiting

/-! ## Receiving everything -/

/-- The messages that wait, in the order in which the ports are looked at. -/
def waiting (receiver : MessageReceiver T) : List (Nat × T) :=
  receiver.ports.flatMap fun port => (receiver.receivers port).map (Prod.mk port)

/-- Messages of the later ports do not depend on what waits at an earlier one. -/
theorem flatMap_update {ports : List Nat} {receivers : Nat → List T} {port : Nat}
    (absent : port ∉ ports) (rest : List T) :
    (ports.flatMap fun port' =>
      (Function.update receivers port rest port').map (Prod.mk port')) =
      ports.flatMap fun port' => (receivers port').map (Prod.mk port') := by
  apply List.flatMap_congr
  intro port' member
  rw [Function.update_of_ne]
  rintro rfl
  exact absent member

/-- A call that receives takes the first of the waiting messages. -/
theorem waiting_of_tryrecv {received : Nat × T} {receiver' : MessageReceiver T}
    (result : receiver.tryrecv = (some received, receiver')) :
    receiver.waiting = received :: receiver'.waiting ∧ receiver'.offset = receiver.offset ∧
      receiver'.portNum = receiver.portNum := by
  rcases receiver.tryrecv_cases with
    ⟨_, failed⟩ | ⟨before, port, after, msg, rest, split, empty, atPort, succeeded⟩
  · rw [failed] at result
    cases result
  · rw [succeeded] at result
    cases result
    refine ⟨?_, rfl, rfl⟩
    have distinct := receiver.nodup_ports
    rw [split] at distinct
    have apart := List.nodup_middle.mp distinct
    have notBefore : port ∉ before := fun member =>
      (List.nodup_cons.mp apart).1 (List.mem_append_left _ member)
    have notAfter : port ∉ after := fun member =>
      (List.nodup_cons.mp apart).1 (List.mem_append_right _ member)
    have nothing : (before.flatMap fun port' =>
        (receiver.receivers port').map (Prod.mk port')) = [] := by
      apply List.flatMap_eq_nil_iff.mpr
      intro port' member
      rw [empty port' member]
      rfl
    have samePorts : MessageReceiver.ports
        { receiver with receivers := Function.update receiver.receivers port rest } =
        before ++ port :: after := split
    rw [waiting, waiting, samePorts, split, List.flatMap_append, List.flatMap_append,
      List.flatMap_cons, List.flatMap_cons, flatMap_update notBefore, flatMap_update notAfter,
      nothing]
    simp only [Function.update_self, atPort]
    rfl

/-- As many calls as there are messages receive all of them, port by port from that of
the offset on. -/
theorem drain_waiting (receiver : MessageReceiver T) :
    (drain receiver.waiting.length receiver).1 = receiver.waiting ∧
      (drain receiver.waiting.length receiver).2.offset = receiver.offset ∧
      ∀ port < receiver.portNum,
        (drain receiver.waiting.length receiver).2.receivers port = [] := by
  induction count : receiver.waiting.length generalizing receiver with
  | zero =>
      have none := List.length_eq_zero_iff.mp count
      refine ⟨none.symm, rfl, ?_⟩
      intro port isPort
      have atPort := List.flatMap_eq_nil_iff.mp none port (mem_ports.mpr isPort)
      exact List.map_eq_nil_iff.mp atPort
  | succ n inductionHypothesis =>
      cases result : receiver.tryrecv with
      | mk found receiver' =>
          cases found with
          | none =>
              have empty := tryrecv_eq_none_iff.mp (congrArg Prod.fst result)
              have none : receiver.waiting = [] := by
                apply List.flatMap_eq_nil_iff.mpr
                intro port member
                rw [empty port (mem_ports.mp member)]
                rfl
              rw [none] at count
              cases count
          | some received =>
              rcases waiting_of_tryrecv result with ⟨first, sameOffset, sameNum⟩
              have fewer : receiver'.waiting.length = n := by
                rw [first] at count
                exact Nat.succ.inj count
              rcases inductionHypothesis receiver' fewer with ⟨all, offset, empty⟩
              simp only [drain, result]
              rw [first, all, offset, sameOffset, ← sameNum]
              exact ⟨rfl, rfl, empty⟩

end MessageReceiver

/-! ## Runs -/

/-- A receiver, the messages that have arrived at each port, and those received from it. -/
structure Reception (T : Type) where
  receiver : MessageReceiver T
  arrived : Nat → List T
  received : Nat → List T

inductive ReceptionEvent (T : Type)
  | arrive (port : Nat) (msg : T)
  | tryrecv

def ReceptionEvent.isCall {T : Type} : ReceptionEvent T → Bool
  | .arrive _ _ => false
  | .tryrecv => true

/-- The message that arrives at a port. -/
def ReceptionEvent.arrivesAt {T : Type} (port : Nat) : ReceptionEvent T → Option T
  | .arrive port' msg => if port' = port then some msg else none
  | .tryrecv => none

namespace Reception

variable {T : Type}

def new (portNum : Nat) : Reception T :=
  ⟨MessageReceiver.new portNum, fun _ => [], fun _ => []⟩

def next (event : ReceptionEvent T) (reception : Reception T) : Option (Reception T) :=
  match event with
  | .arrive port msg =>
      if port < reception.receiver.portNum then
        some
          { reception with
            receiver := reception.receiver.arrive port msg
            arrived := Function.update reception.arrived port (reception.arrived port ++ [msg]) }
      else none
  | .tryrecv =>
      match reception.receiver.tryrecv with
      | (none, receiver') => some { reception with receiver := receiver' }
      | (some (port, msg), receiver') =>
          some
            { reception with
              receiver := receiver'
              received :=
                Function.update reception.received port (reception.received port ++ [msg]) }

/-- The offset is that of a port, and what has arrived at a port is what has been received
from it and what waits there. -/
structure Faithful (portNum : Nat) (reception : Reception T) : Prop where
  sameNum : reception.receiver.portNum = portNum
  offset : reception.receiver.offset < portNum
  split : ∀ port,
    reception.received port ++ reception.receiver.receivers port = reception.arrived port

variable {portNum : Nat} {reception reception' : Reception T} {event : ReceptionEvent T}

theorem Faithful.new (somePort : 0 < portNum) : Faithful portNum (new portNum : Reception T) :=
  ⟨rfl, somePort, fun _ => rfl⟩

theorem Faithful.next (faithful : Faithful portNum reception)
    (performed : reception.next event = some reception') : Faithful portNum reception' := by
  rcases faithful with ⟨sameNum, offset, split⟩
  cases event with
  | arrive port msg =>
      simp only [Reception.next] at performed
      split at performed
      · cases performed
        refine ⟨sameNum, offset, ?_⟩
        intro port'
        by_cases here : port' = port
        · subst here
          simp only [MessageReceiver.arrive, Function.update_self]
          rw [← split port', List.append_assoc]
        · simp only [MessageReceiver.arrive, Function.update_of_ne here]
          exact split port'
      · cases performed
  | tryrecv =>
      simp only [Reception.next] at performed
      rcases reception.receiver.tryrecv_cases with
        ⟨_, result⟩ | ⟨before, port, after, msg, rest, _, _, atPort, result⟩
      · rw [result] at performed
        cases performed
        refine ⟨sameNum, ?_, split⟩
        rw [sameNum]
        exact Nat.mod_lt _ (Nat.zero_lt_of_lt offset)
      · rw [result] at performed
        cases performed
        refine ⟨sameNum, offset, ?_⟩
        intro port'
        by_cases here : port' = port
        · subst here
          simp only [Function.update_self]
          rw [← split port', atPort, List.append_assoc]
          rfl
        · simp only [Function.update_of_ne here]
          exact split port'

theorem Faithful.reachable (somePort : 0 < portNum)
    (reachable : Reachable Reception.next (Reception.new portNum) reception) :
    Faithful portNum reception :=
  Reachable.invariant (motive := Faithful portNum) (Faithful.new somePort)
    (fun faithful performed => faithful.next performed) reachable

/-- Whatever arrives and whenever `tryrecv` is called, every port hands out its messages
in the order of their arrival, none of them lost or twice, and a call fails only when all
have been received.  As many calls as there are messages then receive all that is left,
port by port from that of the offset on. -/
theorem reachable_receives (somePort : 0 < portNum)
    (reachable : Reachable Reception.next (Reception.new portNum) reception) :
    reception.receiver.offset < portNum ∧
      (∀ port,
        reception.received port ++ reception.receiver.receivers port = reception.arrived port) ∧
      (reception.receiver.tryrecv.1 = none ↔
        ∀ port < portNum, reception.received port = reception.arrived port) ∧
      (reception.receiver.drain reception.receiver.waiting.length).1 =
        reception.receiver.waiting := by
  have faithful := Faithful.reachable somePort reachable
  use faithful.offset, faithful.split
  constructor
  · rw [MessageReceiver.tryrecv_eq_none_iff, faithful.sameNum]
    apply forall_congr'
    intro port
    rw [← faithful.split port, List.self_eq_append_right]
  · exact reception.receiver.drain_waiting.1

/-- What a list of events leads to. -/
def after (portNum : Nat) (events : List (ReceptionEvent T)) : Reception T :=
  (run Reception.next events (new portNum)).getD (new portNum)

theorem reachable_receives_two :
    let reception : Reception Nat := after 2 [.arrive 1 10, .arrive 0 20, .tryrecv, .arrive 1 11]
    reception.received 0 = [20] ∧
      (reception.receiver.drain reception.receiver.waiting.length).1 = [(1, 10), (1, 11)] := by
  intro reception
  have executed : run Reception.next [.arrive 1 10, .arrive 0 20, .tryrecv, .arrive 1 11] (new 2) =
      some reception := rfl
  exact ⟨rfl, (reachable_receives (by decide) (Reachable.of_run executed)).2.2.2⟩

/-- When a message waits at the port of the offset, it is the next to be received. -/
theorem tryrecv_of_busy {receiver : MessageReceiver T} (inside : receiver.offset < receiver.portNum)
    {msg : T} {rest : List T} (busy : receiver.receivers receiver.offset = msg :: rest) :
    receiver.tryrecv = (some (receiver.offset, msg),
      { receiver with receivers := Function.update receiver.receivers receiver.offset rest }) := by
  rcases List.head?_eq_some_iff.mp (MessageReceiver.head?_ports inside) with ⟨others, ports⟩
  rw [MessageReceiver.tryrecv, ports, List.findSome?_cons, MessageReceiver.tryrecvAt, busy]

/-- A call while messages wait at the port of the offset. -/
theorem Faithful.next_tryrecv (faithful : Faithful portNum reception) {first : T} {rest : List T}
    (atOffset : reception.receiver.receivers reception.receiver.offset = first :: rest) :
    reception.next .tryrecv = some
      { reception with
        receiver :=
          { reception.receiver with
            receivers := Function.update reception.receiver.receivers
              reception.receiver.offset rest }
        received := Function.update reception.received reception.receiver.offset
          (reception.received reception.receiver.offset ++ [first]) } := by
  have inside := faithful.offset.trans_eq faithful.sameNum.symm
  rw [Reception.next, tryrecv_of_busy inside atOffset]

/-- At each call of a run a message waits at a port. -/
def KeepsBusy (port : Nat) : List (ReceptionEvent T) → Reception T → Prop
  | [], _ => True
  | event :: rest, reception =>
      (event.isCall = true → reception.receiver.receivers port ≠ []) ∧
        match reception.next event with
        | none => True
        | some later => KeepsBusy port rest later

/-- What some events do while the port of the offset is busy: each call receives from this
port, and at the other ports the messages only pile up. -/
structure Starves (events : List (ReceptionEvent T)) (reception final : Reception T) : Prop where
  offset : final.receiver.offset = reception.receiver.offset
  served : (final.received reception.receiver.offset).length =
    (reception.received reception.receiver.offset).length + events.countP ReceptionEvent.isCall
  others : ∀ port ≠ reception.receiver.offset, final.received port = reception.received port ∧
    final.receiver.receivers port =
      reception.receiver.receivers port ++ events.filterMap (ReceptionEvent.arrivesAt port)

theorem Starves.cons {rest : List (ReceptionEvent T)} {later final : Reception T}
    (first : Starves [event] reception later) (others : Starves rest later final) :
    Starves (event :: rest) reception final := by
  constructor
  · exact others.offset.trans first.offset
  · have served := others.served
    rw [first.offset, first.served] at served
    rw [served, Nat.add_assoc, ← List.countP_append, List.singleton_append]
  · intro port other
    rcases first.others port other with ⟨received, waiting⟩
    rcases others.others port (by rwa [first.offset]) with ⟨receivedLater, waitingLater⟩
    rw [receivedLater, waitingLater, received, waiting, List.append_assoc,
      ← List.filterMap_append, List.singleton_append]
    exact ⟨rfl, rfl⟩

/-- A call receives from the busy port, and an arrival adds to its own port. -/
theorem Faithful.starves_step (faithful : Faithful portNum reception)
    (busy : event.isCall = true → reception.receiver.receivers reception.receiver.offset ≠ [])
    (performed : reception.next event = some reception') :
    Starves [event] reception reception' := by
  cases event with
  | arrive port msg =>
      simp only [Reception.next] at performed
      split at performed
      · cases performed
        refine ⟨rfl, rfl, ?_⟩
        intro port' _
        by_cases here : port = port'
        · subst here
          simp [MessageReceiver.arrive, ReceptionEvent.arrivesAt]
        · simp [MessageReceiver.arrive, ReceptionEvent.arrivesAt, here,
            Function.update_of_ne (Ne.symm here)]
      · cases performed
  | tryrecv =>
      rcases List.exists_cons_of_ne_nil (busy rfl) with ⟨first, rest, atOffset⟩
      rw [faithful.next_tryrecv atOffset] at performed
      cases performed
      refine ⟨rfl, ?_, ?_⟩
      · simp [ReceptionEvent.isCall]
      · intro port other
        simp [ReceptionEvent.arrivesAt, Function.update_of_ne other]

/-- A whole run that keeps the port of the offset busy. -/
theorem Faithful.starves {events : List (ReceptionEvent T)} {final : Reception T}
    (faithful : Faithful portNum reception)
    (busy : KeepsBusy reception.receiver.offset events reception)
    (executed : run Reception.next events reception = some final) :
    Starves events reception final := by
  induction events generalizing reception with
  | nil =>
      cases executed
      exact ⟨rfl, rfl, fun _ _ => ⟨rfl, (List.append_nil _).symm⟩⟩
  | cons event rest inductionHypothesis =>
      rw [run] at executed
      cases performed : reception.next event with
      | none =>
          rw [performed] at executed
          cases executed
      | some later =>
          rw [performed] at executed
          simp only [KeepsBusy, performed] at busy
          have first := faithful.starves_step busy.1 performed
          have stillBusy := busy.2
          rw [← first.offset] at stillBusy
          exact first.cons (inductionHypothesis (faithful.next performed) stillBusy executed)

/-- As many calls as messages, each of which arrives at a port after a call. -/
def refills (port : Nat) (msgs : List T) : List (ReceptionEvent T) :=
  msgs.flatMap fun msg => [.tryrecv, .arrive port msg]

theorem countP_refills (port : Nat) (msgs : List T) :
    (refills port msgs).countP ReceptionEvent.isCall = msgs.length := by
  induction msgs with
  | nil => rfl
  | cons msg msgs inductionHypothesis =>
      rw [refills, List.flatMap_cons, List.countP_append, ← refills, inductionHypothesis,
        List.length_cons, Nat.add_comm]
      rfl

theorem filterMap_refills {port other : Nat} (isOther : other ≠ port) (msgs : List T) :
    (refills port msgs).filterMap (ReceptionEvent.arrivesAt other) = [] := by
  rw [List.filterMap_eq_nil_iff]
  intro event member
  rcases List.mem_flatMap.mp member with ⟨msg, _, inPair⟩
  rcases List.mem_pair.mp inPair with rfl | rfl
  · rfl
  · exact if_neg (Ne.symm isOther)

/-- A message is received from the port of the offset and another one arrives there. -/
theorem Faithful.refill (faithful : Faithful portNum reception)
    (busy : reception.receiver.receivers reception.receiver.offset ≠ []) (msg : T) :
    ∃ served later, reception.next .tryrecv = some served ∧
      served.next (.arrive reception.receiver.offset msg) = some later ∧
      later.receiver.offset = reception.receiver.offset ∧
      later.receiver.receivers reception.receiver.offset ≠ [] := by
  rcases List.exists_cons_of_ne_nil busy with ⟨first, rest, atOffset⟩
  have inside := faithful.offset.trans_eq faithful.sameNum.symm
  refine ⟨_, _, faithful.next_tryrecv atOffset, if_pos inside, rfl, ?_⟩
  simp [MessageReceiver.arrive]

/-- Such a schedule can be run while the port is that of the offset, and keeps it busy. -/
theorem Faithful.refills (faithful : Faithful portNum reception)
    (busy : reception.receiver.receivers reception.receiver.offset ≠ []) (msgs : List T) :
    KeepsBusy reception.receiver.offset (refills reception.receiver.offset msgs) reception ∧
      ∃ final, run Reception.next (refills reception.receiver.offset msgs) reception =
        some final := by
  induction msgs generalizing reception with
  | nil => exact ⟨trivial, reception, rfl⟩
  | cons msg msgs inductionHypothesis =>
      rcases faithful.refill busy msg with
        ⟨served, later, receives, arrives, sameOffset, stillBusy⟩
      rw [← sameOffset] at stillBusy
      rcases inductionHypothesis ((faithful.next receives).next arrives) stillBusy with
        ⟨keeps, final, executed⟩
      rw [sameOffset] at keeps executed
      have split : Reception.refills reception.receiver.offset (msg :: msgs) =
          .tryrecv :: .arrive reception.receiver.offset msg ::
            Reception.refills reception.receiver.offset msgs := rfl
      rw [split]
      constructor
      · simp only [KeepsBusy, receives, arrives]
        exact ⟨fun _ => busy, nofun, keeps⟩
      · simp only [run, receives, arrives]
        exact ⟨final, executed⟩

/-- In every run that keeps a message waiting at the port of the offset at each call, all
calls receive from this port and nothing is received from any other one.  There are such
runs with any number of calls. -/
theorem reachable_starves (somePort : 0 < portNum)
    (reachable : Reachable Reception.next (Reception.new portNum) reception) :
    (∀ events final, KeepsBusy reception.receiver.offset events reception →
      run Reception.next events reception = some final → Starves events reception final) ∧
    (reception.receiver.receivers reception.receiver.offset ≠ [] → ∀ msgs : List T,
      ∃ final,
        run Reception.next
          (msgs.flatMap fun msg => [.tryrecv, .arrive reception.receiver.offset msg]) reception =
            some final ∧
        final.receiver.offset = reception.receiver.offset ∧
        (final.received reception.receiver.offset).length =
          (reception.received reception.receiver.offset).length + msgs.length ∧
        ∀ port ≠ reception.receiver.offset, final.received port = reception.received port ∧
          final.receiver.receivers port = reception.receiver.receivers port) := by
  have faithful := Faithful.reachable somePort reachable
  constructor
  · intro events final busy executed
    exact faithful.starves busy executed
  · intro busy msgs
    rcases faithful.refills busy msgs with ⟨keeps, final, executed⟩
    have starves := faithful.starves keeps executed
    have served := starves.served
    rw [countP_refills] at served
    refine ⟨final, executed, starves.offset, served, ?_⟩
    intro port other
    rcases starves.others port other with ⟨received, waiting⟩
    rw [filterMap_refills other, List.append_nil] at waiting
    exact ⟨received, waiting⟩

/-- Messages pile up at the second of two ports. -/
theorem reachable_starves_two :
    ∃ final : Reception Nat,
      run Reception.next [.arrive 1 11, .tryrecv, .arrive 0 21, .tryrecv]
        (after 2 [.arrive 1 10, .arrive 0 20]) = some final ∧
      final.received 0 = [20, 21] ∧
      final.received 1 = [] ∧ final.receiver.receivers 1 = [10, 11] ∧
      ∃ served : Reception Nat,
        run Reception.next ([21, 22].flatMap fun msg => [.tryrecv, .arrive 0 msg])
          (after 2 [.arrive 1 10, .arrive 0 20]) = some served ∧
        served.received 1 = [] ∧ served.receiver.receivers 1 = [10] := by
  have executed : run Reception.next [.arrive 1 10, .arrive 0 20] (new 2) =
      some (after 2 [.arrive 1 10, .arrive 0 20] : Reception Nat) := rfl
  have continued : run Reception.next [.arrive 1 11, .tryrecv, .arrive 0 21, .tryrecv]
      (after 2 [.arrive 1 10, .arrive 0 20] : Reception Nat) =
        some (after 2 [.arrive 1 10, .arrive 0 20, .arrive 1 11, .tryrecv, .arrive 0 21,
          .tryrecv]) := rfl
  have keeps : KeepsBusy 0 [.arrive 1 11, .tryrecv, .arrive 0 21, .tryrecv]
      (after 2 [.arrive 1 10, .arrive 0 20] : Reception Nat) := by
    exact ⟨nofun, fun _ => List.cons_ne_nil 20 [], nofun, fun _ => List.cons_ne_nil 21 [], trivial⟩
  rcases reachable_starves (by decide) (Reachable.of_run executed) with ⟨starves, runs⟩
  rcases (starves _ _ keeps continued).others 1 (by decide) with
    ⟨received, waiting⟩
  rcases runs (by decide) [21, 22] with ⟨served, refilled, _, _, others⟩
  have unserved := others 1 (by decide)
  exact ⟨_, continued, rfl, received, waiting, served, refilled, unserved⟩

end Reception

end PpiwTrading
