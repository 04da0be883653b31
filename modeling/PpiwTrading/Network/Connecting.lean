import PpiwTrading.Network.SocketClient

/-!
# What a reported connection means

`connect_rpc_socket` judges its loop by the last value of `socket_fd`.  That
value is a descriptor when some `connect` succeeded, but also when the last
`socket` succeeded and the `connect` on it did not.  The report is right for an
attempt unless all its addresses refuse and the last of them has a socket, and
the retries and the flag of the client are right unless such an attempt is made.
-/

namespace PpiwTrading.Network

/-- Some call of `connect` succeeded. -/
def Attempted.Connected (attempted : Attempted) : Prop :=
  ∃ call ∈ attempted.connects, call.result = 0

/-- Success is reported exactly when some `connect` succeeded, with the
descriptor of that call. -/
structure Attempted.Faithful (attempted : Attempted) : Prop where
  isOk_iff : attempted.status.isOk = true ↔ attempted.Connected
  socketFd_eq : ∀ call ∈ attempted.connects, call.result = 0 → attempted.socketFd = call.fd

namespace Attempt

/-- Some address of the attempt accepts a connection. -/
def Accepted : Attempt → Prop
  | none => False
  | some addrs => ∃ addr ∈ addrs, addr.Accepts

/-- Some address accepts, or no socket is left over from the last address. -/
def Judged : Attempt → Prop
  | none => True
  | some addrs => Accepted (some addrs) ∨ ∀ last ∈ addrs.getLast?, last.socket = none

theorem Accepted.judged {attempt : Attempt} (accepted : attempt.Accepted) : attempt.Judged := by
  cases attempt with
  | none => exact trivial
  | some addrs => exact Or.inl accepted

end Attempt

/-! ## One attempt -/

theorem AddrOutcome.socketFd_eq_neg_one {addr : AddrOutcome} :
    addr.socketFd = -1 ↔ addr.socket = none := by
  unfold socketFd
  cases addr.socket with
  | none => simp
  | some fd => simp only [reduceCtorEq]

theorem AddrOutcome.accepts_iff {addr : AddrOutcome} :
    addr.Accepts ↔ addr.socketFd ≠ -1 ∧ addr.connect = 0 := by
  rw [Accepts, ne_eq, socketFd_eq_neg_one, Option.isSome_iff_ne_none]

/-- The loop calls `connect` with success exactly when an address accepts. -/
theorem connectLoop_connected (addrs : List AddrOutcome) (socketFd : Int) :
    (∃ call ∈ (connectLoop addrs socketFd).2, call.result = 0) ↔
      ∃ addr ∈ addrs, addr.Accepts := by
  induction addrs generalizing socketFd with
  | nil => simp [connectLoop]
  | cons addr addrs inductionHypothesis =>
      have rest := inductionHypothesis addr.socketFd
      rw [connectLoop, List.exists_mem_cons_iff, AddrOutcome.accepts_iff, ← rest]
      by_cases noSocket : addr.socketFd = -1
      · simp [noSocket]
      · by_cases refused : addr.connect = 0
        · simp [noSocket, refused]
        · simp [noSocket, refused]

/-- After a successful `connect` the loop leaves its descriptor. -/
theorem connectLoop_socketFd {addrs : List AddrOutcome} {socketFd : Int} {call : ConnectCall}
    (member : call ∈ (connectLoop addrs socketFd).2) (success : call.result = 0) :
    (connectLoop addrs socketFd).1 = call.fd ∧ call.fd ≠ -1 := by
  induction addrs generalizing socketFd with
  | nil => simp [connectLoop] at member
  | cons addr addrs inductionHypothesis =>
      rw [connectLoop] at member ⊢
      by_cases noSocket : addr.socketFd = -1
      · rw [if_pos noSocket] at member ⊢
        exact inductionHypothesis member
      · rw [if_neg noSocket] at member ⊢
        by_cases refused : addr.connect = 0
        · rw [if_neg (not_not.mpr refused)] at member ⊢
          cases List.mem_singleton.mp member
          exact ⟨rfl, noSocket⟩
        · rw [if_pos refused] at member ⊢
          rcases List.mem_cons.mp member with rfl | later
          · exact absurd success refused
          · exact inductionHypothesis later

/-- When every address refuses, the loop leaves what the last `socket` gave. -/
theorem connectLoop_refused {addrs : List AddrOutcome} (socketFd : Int)
    (refused : ∀ addr ∈ addrs, ¬ addr.Accepts) :
    (connectLoop addrs socketFd).1 = (addrs.getLast?.map AddrOutcome.socketFd).getD socketFd := by
  induction addrs generalizing socketFd with
  | nil => rfl
  | cons addr addrs inductionHypothesis =>
      have rest := inductionHypothesis addr.socketFd
        fun other member => refused other (List.mem_cons_of_mem addr member)
      have last : ((addr :: addrs).getLast?.map AddrOutcome.socketFd).getD socketFd =
          (addrs.getLast?.map AddrOutcome.socketFd).getD addr.socketFd := by
        rw [List.getLast?_cons]
        cases addrs.getLast? <;> rfl
      rw [last, connectLoop]
      by_cases noSocket : addr.socketFd = -1
      · rw [if_pos noSocket, rest]
      · have failing : addr.connect ≠ 0 :=
          fun success => refused addr List.mem_cons_self
            (AddrOutcome.accepts_iff.mpr ⟨noSocket, success⟩)
        rw [if_neg noSocket, if_pos failing]
        exact rest

variable {host : String} {port : Nat}

section Resolved

variable (host port) (socketFd : Int) (addrs : List AddrOutcome)

theorem connects_connectRpcSocket :
    (connectRpcSocket host port socketFd (some addrs)).connects = (connectLoop addrs (-1)).2 := by
  rw [connectRpcSocket]
  split <;> rfl

theorem socketFd_connectRpcSocket :
    (connectRpcSocket host port socketFd (some addrs)).socketFd = (connectLoop addrs (-1)).1 := by
  rw [connectRpcSocket]
  split <;> rfl

theorem isOk_connectRpcSocket_some :
    (connectRpcSocket host port socketFd (some addrs)).status.isOk = true ↔
      (connectLoop addrs (-1)).1 ≠ -1 := by
  rw [connectRpcSocket]
  split
  case isTrue closed => simp [Status.isOk, Status.ioError, closed]
  case isFalse opened => simp [Status.isOk, Status.OK, opened]

end Resolved

theorem connected_connectRpcSocket {socketFd : Int} {attempt : Attempt} :
    (connectRpcSocket host port socketFd attempt).Connected ↔ attempt.Accepted := by
  cases attempt with
  | none => simp [connectRpcSocket, Attempted.Connected, Attempt.Accepted]
  | some addrs =>
      rw [Attempted.Connected, connects_connectRpcSocket]
      exact connectLoop_connected addrs (-1)

/-- The report is success exactly when an address accepts or the attempt is
misjudged. -/
theorem isOk_connectRpcSocket {socketFd : Int} {attempt : Attempt} :
    (connectRpcSocket host port socketFd attempt).status.isOk = true ↔
      attempt.Accepted ∨ ¬ attempt.Judged := by
  cases attempt with
  | none => simp [connectRpcSocket, Attempt.Accepted, Attempt.Judged, Status.isOk, Status.ioError]
  | some addrs =>
      rw [isOk_connectRpcSocket_some]
      by_cases accepted : Attempt.Accepted (some addrs)
      · rcases (connectLoop_connected addrs (-1)).mpr accepted with ⟨call, member, success⟩
        rcases connectLoop_socketFd member success with ⟨left, descriptor⟩
        simp only [left, accepted, true_or, iff_true]
        exact descriptor
      · have refused : ∀ addr ∈ addrs, ¬ addr.Accepts :=
          fun addr member accepts => accepted ⟨addr, member, accepts⟩
        rw [connectLoop_refused (-1) refused, Attempt.Judged, or_iff_right accepted,
          or_iff_right accepted]
        cases addrs.getLast? with
        | none => simp
        | some last => simp [AddrOutcome.socketFd_eq_neg_one]

theorem faithful_connectRpcSocket {socketFd : Int} {attempt : Attempt} :
    (connectRpcSocket host port socketFd attempt).Faithful ↔ attempt.Judged := by
  constructor
  · intro faithful
    have reports := faithful.isOk_iff
    rw [isOk_connectRpcSocket, connected_connectRpcSocket] at reports
    by_contra misjudged
    exact misjudged (reports.mp (Or.inr misjudged)).judged
  · intro judged
    constructor
    · rw [isOk_connectRpcSocket, connected_connectRpcSocket]
      exact or_iff_left (not_not.mpr judged)
    · intro call member success
      cases attempt with
      | none => cases member
      | some addrs =>
          rw [connects_connectRpcSocket] at member
          rw [socketFd_connectRpcSocket]
          exact (connectLoop_socketFd member success).1

/-! ## Retrying -/

/-- Of the attempts made with `retries` retries, each that did not connect is
followed by another one while retries are left. -/
def Retried (retries : Nat) (made : List Attempted) : Prop :=
  ∀ k < retries, ∀ attempted, made[k]? = some attempted → ¬ attempted.Connected →
    k + 1 < made.length

/-- Attempts that did not connect are followed by others, and the last of them
reports success only when one of them connected. -/
structure Reported (retries : Nat) (made : List Attempted) : Prop where
  retried : Retried retries made
  connected : ∀ last ∈ made.getLast?, last.status.isOk = true → ∃ attempted ∈ made,
    attempted.Connected

/-- No attempt up to number `retries` is misjudged, as long as none before it is
accepted. -/
def JudgedUntilAccepted (retries : Nat) (answers : Nat → Attempt) : Prop :=
  ∀ k ≤ retries, (∀ j < k, ¬ (answers j).Accepted) → (answers k).Judged

section Judgement

variable {retries : Nat} {answers : Nat → Attempt}

theorem JudgedUntilAccepted.first (judged : JudgedUntilAccepted retries answers) :
    (answers 0).Judged :=
  judged 0 (Nat.zero_le retries) fun j below => absurd below (Nat.not_lt_zero j)

theorem judgedUntilAccepted_zero : JudgedUntilAccepted 0 answers ↔ (answers 0).Judged := by
  constructor
  · exact JudgedUntilAccepted.first
  · rintro judged k bound -
    obtain rfl := Nat.le_zero.mp bound
    exact judged

theorem judgedUntilAccepted_of_accepted (accepted : (answers 0).Accepted) :
    JudgedUntilAccepted retries answers := by
  intro k _ refused
  cases k with
  | zero => exact accepted.judged
  | succ k => exact absurd accepted (refused 0 (Nat.succ_pos k))

theorem judgedUntilAccepted_succ (refused : ¬ (answers 0).Accepted) :
    JudgedUntilAccepted (retries + 1) answers ↔
      (answers 0).Judged ∧ JudgedUntilAccepted retries fun k => answers (k + 1) := by
  constructor
  · intro judged
    constructor
    · exact judged.first
    · intro k bound earlier
      apply judged (k + 1) (Nat.succ_le_succ bound)
      intro j below
      cases j with
      | zero => exact refused
      | succ j => exact earlier j (Nat.lt_of_succ_lt_succ below)
  · rintro ⟨first, rest⟩ k bound earlier
    cases k with
    | zero => exact first
    | succ k =>
        apply rest k (Nat.le_of_succ_le_succ bound)
        exact fun j below => earlier (j + 1) (Nat.succ_lt_succ below)

end Judgement

theorem retryLoop_of_isOk {last : Attempted} (success : last.status.isOk = true)
    (answers : Nat → Attempt) (retries next : Nat) :
    retryLoop host port answers retries next last = [last] := by
  cases retries with
  | zero => rfl
  | succ retries => rw [retryLoop, if_pos success]

theorem retryLoop_ne_nil (answers : Nat → Attempt) (retries next : Nat) (last : Attempted) :
    retryLoop host port answers retries next last ≠ [] := by
  cases retries with
  | zero => exact List.cons_ne_nil _ _
  | succ retries =>
      rw [retryLoop]
      split <;> exact List.cons_ne_nil _ _

theorem reported_singleton {retries : Nat} {attempted : Attempted} :
    Reported retries [attempted] ↔
      (0 < retries → attempted.Connected) ∧
        (attempted.status.isOk = true → attempted.Connected) := by
  constructor
  · intro reported
    constructor
    · intro positive
      by_contra failed
      exact absurd (reported.retried 0 positive attempted rfl failed) (Nat.lt_irrefl 1)
    · intro success
      rcases reported.connected attempted rfl success with ⟨other, member, connected⟩
      exact List.mem_singleton.mp member ▸ connected
  · rintro ⟨retried, connected⟩
    constructor
    · intro k bound other found failed
      obtain rfl := List.mem_singleton.mp (List.mem_of_getElem? found)
      exact absurd (retried (Nat.zero_lt_of_lt bound)) failed
    · rintro last member success
      cases member
      exact ⟨attempted, List.mem_singleton_self _, connected success⟩

/-- An attempt that did not connect leaves it to the later ones. -/
theorem reported_cons {retries : Nat} {attempted : Attempted} {rest : List Attempted}
    (failed : ¬ attempted.Connected) (nonempty : rest ≠ []) :
    Reported (retries + 1) (attempted :: rest) ↔ Reported retries rest := by
  have last : (attempted :: rest).getLast? = rest.getLast? := by
    rw [List.getLast?_eq_some_getLast nonempty,
      List.getLast?_eq_some_getLast (List.cons_ne_nil attempted rest), List.getLast_cons nonempty]
  constructor
  · intro whole
    constructor
    · intro k bound other found refused
      have later := whole.retried (k + 1) (Nat.succ_lt_succ bound) other found refused
      exact Nat.lt_of_succ_lt_succ later
    · intro final member success
      rcases whole.connected final (last ▸ member) success with ⟨other, made, connected⟩
      rcases List.mem_cons.mp made with rfl | later
      · exact absurd connected failed
      · exact ⟨other, later, connected⟩
  · intro others
    constructor
    · intro k bound other found refused
      cases k with
      | zero => exact Nat.succ_lt_succ (List.length_pos_of_ne_nil nonempty)
      | succ k =>
          apply Nat.succ_lt_succ
          exact others.retried k (Nat.lt_of_succ_lt_succ bound) other found refused
    · intro final member success
      rcases others.connected final (last ▸ member) success with ⟨other, made, connected⟩
      exact ⟨other, List.mem_cons_of_mem _ made, connected⟩

/-- The retry loop reports as it should exactly when none of its attempts is
misjudged before one is accepted. -/
theorem reported_retryLoop (answers : Nat → Attempt) (retries next : Nat) (socketFd : Int) :
    Reported retries (retryLoop host port answers retries (next + 1)
        (connectRpcSocket host port socketFd (answers next))) ↔
      JudgedUntilAccepted retries fun k => answers (next + k) := by
  induction retries generalizing next socketFd with
  | zero =>
      rw [judgedUntilAccepted_zero, retryLoop, reported_singleton, isOk_connectRpcSocket,
        connected_connectRpcSocket, Nat.add_zero]
      constructor
      · rintro ⟨-, right⟩
        by_contra misjudged
        exact misjudged (right (Or.inr misjudged)).judged
      · intro judged
        exact ⟨fun positive => absurd positive (Nat.lt_irrefl 0),
          (or_iff_left (not_not.mpr judged)).mp⟩
  | succ retries inductionHypothesis =>
      by_cases success : (connectRpcSocket host port socketFd (answers next)).status.isOk = true
      · rw [retryLoop_of_isOk success, reported_singleton, connected_connectRpcSocket]
        rcases isOk_connectRpcSocket.mp success with accepted | misjudged
        · exact iff_of_true ⟨fun _ => accepted, fun _ => accepted⟩
            (judgedUntilAccepted_of_accepted accepted)
        · apply iff_of_false
          · rintro ⟨-, right⟩
            exact misjudged (right success).judged
          · exact fun judged => misjudged judged.first
      · have failed := mt isOk_connectRpcSocket.mpr success
        rw [not_or, not_not] at failed
        rcases failed with ⟨refused, judged⟩
        have later := inductionHypothesis (next + 1)
          (connectRpcSocket host port socketFd (answers next)).socketFd
        have shift : (fun k => answers (next + 1 + k)) = fun k => answers (next + (k + 1)) := by
          funext k
          rw [Nat.add_right_comm, Nat.add_assoc]
        rw [retryLoop, if_neg success,
          reported_cons (mt connected_connectRpcSocket.mp refused) (retryLoop_ne_nil _ _ _ _),
          later, shift, judgedUntilAccepted_succ refused]
        exact (and_iff_right judged).symm

/-! ## The flag of the client -/

/-- After a call of `connect_to_server` by a client that was not connected, the
flag is set only when one of its calls of `connect` succeeded. -/
def ConnectedOnlyIf (client : SocketClient) (host : String) (port : Nat)
    (answers : Nat → Attempt) : Prop :=
  ∀ status after, client.connectToServer host port answers = some (status, after) →
    after.isConnected = true →
      ∃ attempted ∈ connectAttempts host port client.socketFd answers, attempted.Connected

theorem isOk_connectRpcSocketRetry {socketFd : Int} {answers : Nat → Attempt} :
    (connectRpcSocketRetry host port socketFd answers).1.isOk = true ↔
      ∃ last ∈ (connectAttempts host port socketFd answers).getLast?,
        last.status.isOk = true := by
  unfold connectRpcSocketRetry
  cases (connectAttempts host port socketFd answers).getLast? with
  | none => simp [Status.isOk, Status.connectionFailed]
  | some last =>
      by_cases success : last.status.isOk = true
      · simp [success]
      · simp only [Option.mem_some_iff, exists_eq_left', success]
        simp [Status.isOk, Status.connectionFailed]

theorem isConnected_connectToServer {client after : SocketClient} {status : Status}
    {answers : Nat → Attempt} (closed : client.isConnected = false)
    (returned : client.connectToServer host port answers = some (status, after)) :
    after.isConnected = (connectRpcSocketRetry host port client.socketFd answers).1.isOk := by
  simp only [SocketClient.connectToServer, closed, Bool.false_eq_true, false_and, if_false]
    at returned
  split at returned
  case isTrue success =>
    cases returned
    exact success.symm
  case isFalse failed =>
    cases returned
    exact (Bool.eq_false_iff.mpr failed).symm

/-- A client that is not connected returns from every call. -/
theorem connectToServer_isSome {client : SocketClient} {answers : Nat → Attempt}
    (closed : client.isConnected = false) :
    ∃ status after, client.connectToServer host port answers = some (status, after) := by
  simp only [SocketClient.connectToServer, closed, Bool.false_eq_true, false_and, if_false]
  split
  · exact ⟨_, _, rfl⟩
  · exact ⟨_, _, rfl⟩

theorem connectedOnlyIf_iff {client : SocketClient} {answers : Nat → Attempt}
    (closed : client.isConnected = false) :
    ConnectedOnlyIf client host port answers ↔
      ∀ last ∈ (connectAttempts host port client.socketFd answers).getLast?,
        last.status.isOk = true →
          ∃ attempted ∈ connectAttempts host port client.socketFd answers,
            attempted.Connected := by
  constructor
  · rintro only last member success
    rcases @connectToServer_isSome host port client answers closed with
      ⟨status, after, returned⟩
    apply only status after returned
    rw [isConnected_connectToServer closed returned]
    exact isOk_connectRpcSocketRetry.mpr ⟨last, member, success⟩
  · rintro reported status after returned connected
    rw [isConnected_connectToServer closed returned] at connected
    rcases isOk_connectRpcSocketRetry.mp connected with ⟨last, member, success⟩
    exact reported last member success

/-- An attempt is reported faithfully exactly when it is not misjudged, and a
client that is not connected retries after refusals and sets its flag only after
a successful `connect` exactly when no attempt is misjudged before one is
accepted. -/
theorem connecting_iff_judged (host : String) (port : Nat) :
    (∀ socketFd attempt,
      (connectRpcSocket host port socketFd attempt).Faithful ↔ attempt.Judged) ∧
    ∀ rpcEndpoint socketFd answers,
      (Retried kNumConnectAttempts (connectAttempts host port socketFd answers) ∧
        ConnectedOnlyIf ⟨false, rpcEndpoint, socketFd⟩ host port answers) ↔
      JudgedUntilAccepted kNumConnectAttempts answers := by
  constructor
  · intro socketFd attempt
    exact faithful_connectRpcSocket
  · intro rpcEndpoint socketFd answers
    have reported := @reported_retryLoop host port answers kNumConnectAttempts 0 socketFd
    simp only [Nat.zero_add] at reported
    rw [← reported, connectedOnlyIf_iff rfl]
    constructor
    · rintro ⟨retried, connected⟩
      exact ⟨retried, connected⟩
    · rintro ⟨retried, connected⟩
      exact ⟨retried, connected⟩

/-- One address with a socket and a refused `connect` is reported as success and
sets the flag. -/
theorem refused_connect_reported :
    ¬ (connectRpcSocket "localhost" 11235 0 (some [⟨some 3, -1⟩])).Faithful ∧
      ¬ ConnectedOnlyIf SocketClient.new "localhost" 11235 fun _ => some [⟨some 3, -1⟩] := by
  constructor
  · intro faithful
    rcases faithful.isOk_iff.mp (by decide) with ⟨call, member, success⟩
    cases List.mem_singleton.mp member
    exact absurd success (by decide)
  · intro only
    rcases only .OK ⟨true, "localhost:11235", 3⟩ (by decide) rfl with
      ⟨attempted, member, call, made, success⟩
    cases List.mem_singleton.mp member
    cases List.mem_singleton.mp made
    exact absurd success (by decide)

end PpiwTrading.Network
