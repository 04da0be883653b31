import PpiwTrading.Network.SocketServer

/-!
# What the pool of connections holds

Every connection is given the port the server listens on as its key, so the pool
has room for one connection, and a connection that ends removes whichever is
there.  The pool is exact as long as connections come one at a time, handlers of
ended connections do not end again while there is another, and no connection is
closed by its port; each of these conditions is needed.
-/

namespace PpiwTrading.Network

open PpiwTrading.Transition

/-- The handler of a completion stops its connection. -/
def Connection.Ends (conn : Connection) : Completion → Prop
  | .header failed readMsgHeader =>
      failed = true ∨ conn.running = false ∨
        SocketConnection.bufferLimit < SocketConnection.msgSize readMsgHeader
  | .body ec _ =>
      ec = .failed ∨ conn.running = false ∨ ec = .eof ∨ conn.reading = .body EXIT_RPC
  | .write failed => failed = true

/-! ## Handlers -/

section Handlers

variable {conn : Connection} {completion : Completion} {result : Connection × Bool}

/-- What a handler leaves: it keeps the key, and it closes the connection when
it has it removed. -/
structure Handled (conn : Connection) (ends : Prop) (result : Connection × Bool) : Prop where
  connId_eq : result.1.connId = conn.connId
  closed_eq : result.1.closed = (conn.closed || result.2)
  ends_iff : result.2 = true ↔ ends

theorem handled_endReading {ends : Prop} (ended : ends) : Handled conn ends conn.endReading := by
  constructor
  · rfl
  · exact (Bool.or_true _).symm
  · exact iff_of_true rfl ended

theorem handled_headerRead (failed : Bool) (readMsgHeader : Nat) :
    Handled conn (conn.Ends (.header failed readMsgHeader))
      (conn.headerRead failed readMsgHeader) := by
  unfold Connection.headerRead
  split
  case isTrue going =>
    rcases going with ⟨rfl, running⟩
    unfold Connection.doReadBody
    split
    case isTrue oversize => exact handled_endReading (Or.inr (Or.inr oversize))
    case isFalse fits =>
      constructor
      · rfl
      · exact (Bool.or_false _).symm
      · simp [Connection.Ends, running, fits]
  case isFalse stopped =>
    apply handled_endReading
    rcases not_and_or.mp stopped with error | still
    · exact Or.inl (Bool.not_eq_false _ ▸ error)
    · exact Or.inr (Or.inl (Bool.eq_false_iff.mpr still))

theorem handled_bodyRead {code : MsgCode} (reading : conn.reading = .body code) (ec : ReadCode)
    (msg : List UInt8) :
    Handled conn (conn.Ends (.body ec msg)) (conn.bodyRead code ec msg) := by
  have exits := SocketServer.processMessage_exits code msg
  have ends : conn.Ends (.body ec msg) ↔
      ec = .failed ∨ conn.running = false ∨ ec = .eof ∨ code = EXIT_RPC := by
    rw [Connection.Ends, reading, Reading.body.injEq]
  have connId : (conn.processMessage code msg).2.connId = conn.connId := by
    unfold Connection.processMessage
    dsimp only
    split <;> rfl
  have closed : (conn.processMessage code msg).2.closed = conn.closed := by
    unfold Connection.processMessage
    dsimp only
    split <;> rfl
  rw [ends, ← exits]
  unfold Connection.bodyRead
  split
  case isTrue going =>
    dsimp only
    split
    case isTrue last =>
      constructor
      · exact connId
      · exact (Bool.or_true _).symm
      · apply iff_of_true rfl
        exact Or.inr (Or.inr last.symm)
    case isFalse more =>
      rcases not_or.mp more with ⟨stays, notEof⟩
      constructor
      · exact connId
      · exact closed.trans (Bool.or_false _).symm
      · apply iff_of_false Bool.false_ne_true
        rintro (failed | stopped | eof | exit)
        · rcases going.1 with success | eof
          · cases failed.symm.trans success
          · exact notEof eof
        · cases stopped.symm.trans going.2
        · exact notEof eof
        · exact stays exit
  case isFalse stopped =>
    apply handled_endReading
    rcases not_and_or.mp stopped with error | still
    · cases ec with
      | success => exact absurd (Or.inl rfl) error
      | eof => exact absurd (Or.inr rfl) error
      | failed => exact Or.inl rfl
    · exact Or.inr (Or.inl (Bool.eq_false_iff.mpr still))

theorem handled_written (failed : Bool) :
    Handled conn (conn.Ends (.write failed)) (conn.written failed) := by
  cases failed with
  | false => exact ⟨rfl, (Bool.or_false _).symm, Iff.rfl⟩
  | true => exact ⟨rfl, (Bool.or_true _).symm, Iff.rfl⟩

theorem handled_handle (handling : conn.handle completion = some result) :
    Handled conn (conn.Ends completion) result := by
  cases completion with
  | header failed readMsgHeader =>
      rw [Connection.handle] at handling
      split at handling
      · cases handling
        exact handled_headerRead failed readMsgHeader
      · cases handling
  | body ec msg =>
      rw [Connection.handle] at handling
      split at handling
      case h_1 code reading =>
        cases handling
        exact handled_bodyRead reading ec msg
      · cases handling
      · cases handling
  | write failed =>
      rw [Connection.handle] at handling
      split at handling
      · cases handling
        exact handled_written failed
      · cases handling

end Handlers

namespace SocketServer

variable {server server' : SocketServer} {action : ServerAction}

/-! ## Live and pooled connections -/

/-- Connection `number` has been accepted and has not terminated. -/
def Live (server : SocketServer) (number : Nat) : Prop :=
  ∃ conn, server.accepted[number]? = some conn ∧ conn.closed = false

/-- Connection `number` is in the pool. -/
def Pooled (server : SocketServer) (number : Nat) : Prop :=
  ∃ key, server.connections.lookup key = some number

/-- The pool holds exactly the live connections. -/
def Exact (server : SocketServer) : Prop :=
  ∀ number, server.Pooled number ↔ server.Live number

/-- Every key is the port of the server. -/
structure Keyed (server : SocketServer) : Prop where
  connId_eq : ∀ conn ∈ server.accepted, conn.connId = server.port
  key_eq : ∀ key ∈ server.connections, key = server.port

theorem Keyed.pooled_iff (keyed : server.Keyed) {number : Nat} :
    server.Pooled number ↔ server.connections.lookup server.port = some number := by
  constructor
  · rintro ⟨key, found⟩
    have member : key ∈ server.connections := by
      rw [← AList.lookup_isSome, found]
      rfl
    rw [← keyed.key_eq key member]
    exact found
  · exact fun found => ⟨server.port, found⟩

/-- The pool has room for one connection. -/
theorem Keyed.pooled_unique (keyed : server.Keyed) {first second : Nat}
    (pooledFirst : server.Pooled first) (pooledSecond : server.Pooled second) :
    first = second := by
  rw [keyed.pooled_iff] at pooledFirst pooledSecond
  exact Option.some.inj (pooledFirst.symm.trans pooledSecond)

/-! ## The updates of the server -/

theorem live_accept {number : Nat} :
    (server.accept false).Live number ↔
      server.Live number ∨ number = server.accepted.length := by
  simp only [Live, accept, Bool.false_eq_true, if_false]
  rcases lt_trichotomy number server.accepted.length with old | rfl | beyond
  · rw [List.getElem?_append_left old, or_iff_left (Nat.ne_of_lt old)]
  · rw [List.getElem?_concat_length]
    exact iff_of_true ⟨_, rfl, rfl⟩ (Or.inr rfl)
  · rw [List.getElem?_eq_none (by rw [List.length_append, List.length_singleton]; exact beyond),
      List.getElem?_eq_none (Nat.le_of_lt beyond), or_iff_left (Nat.ne_of_gt beyond)]

theorem Keyed.accept (keyed : server.Keyed) (failed : Bool) : (server.accept failed).Keyed := by
  cases failed with
  | true => exact keyed
  | false =>
      constructor
      · intro conn member
        rcases List.mem_append.mp member with old | new
        · exact keyed.connId_eq conn old
        · rw [List.mem_singleton.mp new]
          rfl
      · intro key member
        simp only [SocketServer.accept, emplace, Bool.false_eq_true, if_false] at member
        split at member
        · exact keyed.key_eq key member
        · rcases (AList.mem_insert _).mp member with rfl | old
          · rfl
          · exact keyed.key_eq key old

theorem Keyed.pooled_accept (keyed : server.Keyed) {number : Nat} :
    (server.accept false).Pooled number ↔
      server.Pooled number ∨
        number = server.accepted.length ∧ ∀ other, ¬ server.Pooled other := by
  have connections : (server.accept false).connections =
      emplace server.connections server.port server.accepted.length := rfl
  have port : (server.accept false).port = server.port := rfl
  rw [(keyed.accept false).pooled_iff, keyed.pooled_iff, port, connections, emplace]
  simp only [keyed.pooled_iff]
  split
  case isTrue there =>
    rcases Option.isSome_iff_exists.mp (AList.lookup_isSome.mpr there) with ⟨other, found⟩
    simp [found]
  case isFalse room =>
    have free := AList.lookup_eq_none.mpr room
    rw [AList.lookup_insert, free]
    simp [eq_comm]

theorem Keyed.completed (keyed : server.Keyed) {number : Nat} {conn : Connection} {ends : Prop}
    {result : Connection × Bool} (at_number : server.accepted[number]? = some conn)
    (handled : Handled conn ends result) : (server.completed number result).Keyed := by
  have connIds : ∀ other ∈ server.accepted.set number result.1, other.connId = server.port := by
    intro other member
    rcases List.mem_or_eq_of_mem_set member with old | rfl
    · exact keyed.connId_eq other old
    · rw [handled.connId_eq]
      exact keyed.connId_eq conn (List.mem_of_getElem? at_number)
  unfold SocketServer.completed
  dsimp only
  split
  · constructor
    · exact connIds
    · exact fun key member => keyed.key_eq key (AList.mem_erase.mp member).2
  · exact ⟨connIds, keyed.key_eq⟩

theorem live_completed {number other : Nat} {conn : Connection} {ends : Prop}
    {result : Connection × Bool} (at_number : server.accepted[number]? = some conn)
    (handled : Handled conn ends result) :
    (server.completed number result).Live other ↔
      server.Live other ∧ ¬ (other = number ∧ ends) := by
  have bound : number < server.accepted.length := (List.getElem?_eq_some_iff.mp at_number).1
  have accepted : (server.completed number result).accepted =
      server.accepted.set number result.1 := by
    unfold SocketServer.completed
    dsimp only
    split <;> rfl
  rw [Live, accepted, ← handled.ends_iff]
  by_cases same : other = number
  · subst same
    rw [List.getElem?_set_self bound, Live, at_number]
    simp [handled.closed_eq]
  · rw [List.getElem?_set_ne (Ne.symm same), Live]
    simp [same]

theorem Keyed.pooled_completed (keyed : server.Keyed) {number other : Nat} {conn : Connection}
    {ends : Prop} {result : Connection × Bool} (at_number : server.accepted[number]? = some conn)
    (handled : Handled conn ends result) :
    (server.completed number result).Pooled other ↔ server.Pooled other ∧ ¬ ends := by
  have key : result.1.connId = server.port :=
    handled.connId_eq.trans (keyed.connId_eq conn (List.mem_of_getElem? at_number))
  have port : (server.completed number result).port = server.port := by
    unfold SocketServer.completed
    dsimp only
    split <;> rfl
  rw [(keyed.completed at_number handled).pooled_iff, keyed.pooled_iff, ← handled.ends_iff, port]
  unfold SocketServer.completed
  dsimp only
  split
  case isTrue ended => simp [removeConnection, key, ended, AList.lookup_erase]
  case isFalse goes => simp [goes]

/-! ## Administrative calls -/

theorem pooled_iff_mem_entries {number : Nat} :
    server.Pooled number ↔ ∃ entry ∈ server.connections.entries, entry.2 = number := by
  constructor
  · rintro ⟨key, found⟩
    exact ⟨⟨key, number⟩, AList.mem_lookup_iff.mp found, rfl⟩
  · rintro ⟨⟨key, number⟩, member, rfl⟩
    exact ⟨key, AList.mem_lookup_iff.mpr member⟩

/-- The loop of `stop` stops the connections whose numbers it comes by, and no
other. -/
theorem getElem?_foldl_stop (entries : List (Sigma fun _ : Nat => Nat))
    (accepted : List Connection) (number : Nat) :
    (entries.foldl (fun accepted entry =>
      accepted.modify entry.2 Connection.stop) accepted)[number]? =
      accepted[number]?.map fun conn =>
        if ∃ entry ∈ entries, entry.2 = number then conn.stop else conn := by
  induction entries generalizing accepted with
  | nil => simp
  | cons entry entries inductionHypothesis =>
      rw [List.foldl_cons, inductionHypothesis, List.getElem?_modify]
      simp only [List.exists_mem_cons_iff]
      cases accepted[number]? with
      | none => rfl
      | some conn =>
          by_cases later : ∃ entry ∈ entries, entry.2 = number
          · by_cases first : entry.2 = number
            · simp [first, Connection.stop, Connection.doStop]
            · simp [first, later]
          · simp [later]

theorem getElem?_accepted_stop (number : Nat) :
    server.stop.accepted[number]? = server.accepted[number]?.map fun conn =>
      if ∃ entry ∈ server.connections.entries, entry.2 = number then conn.stop else conn :=
  getElem?_foldl_stop server.connections.entries server.accepted number

theorem live_stop {number : Nat} :
    server.stop.Live number ↔ server.Live number ∧ ¬ server.Pooled number := by
  rw [Live, getElem?_accepted_stop, Live, pooled_iff_mem_entries]
  cases server.accepted[number]? with
  | none => simp
  | some conn =>
      by_cases pooled : ∃ entry ∈ server.connections.entries, entry.2 = number
      · simp [pooled, Connection.stop, Connection.doStop]
      · simp [pooled]

theorem not_pooled_stop {number : Nat} : ¬ server.stop.Pooled number := by
  rintro ⟨key, found⟩
  cases found

/-- `stop` reaches every connection in the pool. -/
theorem stopped_of_pooled {number : Nat} {conn : Connection}
    (at_number : server.accepted[number]? = some conn) (pooled : server.Pooled number) :
    server.stop.accepted[number]? = some conn.stop := by
  rw [getElem?_accepted_stop, at_number, Option.map_some,
    if_pos (pooled_iff_mem_entries.mp pooled)]

theorem Keyed.stop (keyed : server.Keyed) : server.stop.Keyed := by
  constructor
  · intro conn member
    rcases List.getElem?_of_mem member with ⟨number, found⟩
    rw [getElem?_accepted_stop] at found
    rcases Option.map_eq_some_iff.mp found with ⟨before, at_number, rfl⟩
    have connId := keyed.connId_eq before (List.mem_of_getElem? at_number)
    split <;> exact connId
  · rintro key member
    cases member

theorem Keyed.closeConnection (keyed : server.Keyed) (port : Nat) :
    (server.closeConnection port).Keyed := by
  unfold SocketServer.closeConnection
  split
  · exact keyed
  case h_2 number found =>
    constructor
    · intro conn member
      rcases List.getElem?_of_mem member with ⟨other, at_other⟩
      rw [List.getElem?_modify] at at_other
      rcases Option.map_eq_some_iff.mp at_other with ⟨before, at_before, rfl⟩
      have connId := keyed.connId_eq before (List.mem_of_getElem? at_before)
      split <;> exact connId
    · exact keyed.key_eq

/-- A connection that is closed by its port is stopped and stays in the pool. -/
theorem closeConnection_found {port number : Nat}
    (found : server.connections.lookup port = some number) :
    (server.closeConnection port).Pooled number ∧
      ¬ (server.closeConnection port).Live number := by
  unfold SocketServer.closeConnection
  rw [found]
  constructor
  · exact ⟨port, found⟩
  · rintro ⟨conn, at_number, opened⟩
    rw [List.getElem?_modify_eq] at at_number
    rcases Option.map_eq_some_iff.mp at_number with ⟨before, -, rfl⟩
    cases opened

/-! ## Exactness -/

/-- Connection `number` is terminated by the action. -/
def Terminates (server : SocketServer) (number : Nat) : ServerAction → Prop
  | .completion other completion => number = other ∧
      ∃ conn, server.accepted[other]? = some conn ∧ conn.Ends completion
  | .closeConnection port => server.connections.lookup port = some number
  | .accept _ | .stop => False

/-- What a step should do: it leaves the pool exact, it takes no connection out
of the pool but the one that it terminates, and `stop` stops every connection
that was live. -/
structure Good (server : SocketServer) (action : ServerAction) (server' : SocketServer) :
    Prop where
  exact : server'.Exact
  others : action ≠ .stop → ∀ number, server.Pooled number →
    ¬ server.Terminates number action → server'.Pooled number
  reached : action = .stop → ∀ number, server.Live number → ∃ conn,
    server'.accepted[number]? = some conn ∧ conn.closed = true ∧ conn.running = false

/-- When a step does so: a connection is accepted only while none is live, a
handler ends a connection that has terminated before only while none is live,
and no connection is closed by its port. -/
def Allowed (server : SocketServer) : ServerAction → Prop
  | .accept failed => failed = true ∨ ∀ number, ¬ server.Live number
  | .completion number completion =>
      (∃ conn, server.accepted[number]? = some conn ∧ conn.Ends completion) →
        server.Live number ∨ ∀ other, ¬ server.Live other
  | .closeConnection port => server.connections.lookup port = none
  | .stop => True

/-- What a step of the server does. -/
def Performs (server : SocketServer) (action : ServerAction) (server' : SocketServer) : Prop :=
  match action with
  | .accept failed => server' = server.accept failed
  | .completion number completion => ∃ conn result, server.accepted[number]? = some conn ∧
      Handled conn (conn.Ends completion) result ∧ server' = server.completed number result
  | .closeConnection port => server' = server.closeConnection port
  | .stop => server' = server.stop

theorem performs_of_next (step : next action server = some server') :
    server.Performs action server' := by
  cases deadlocked : server.deadlocked with
  | true => simp [SocketServer.next, deadlocked] at step
  | false =>
    simp only [SocketServer.next, deadlocked, Bool.false_eq_true, if_false] at step
    cases action with
    | accept failed => exact (Option.some.inj step).symm
    | completion number completion =>
        rcases Option.bind_eq_some_iff.mp step with ⟨conn, at_number, continued⟩
        rcases Option.bind_eq_some_iff.mp continued with ⟨result, handling, performed⟩
        exact ⟨conn, result, at_number, handled_handle handling, (Option.some.inj performed).symm⟩
    | closeConnection port => exact (Option.some.inj step).symm
    | stop => exact (Option.some.inj step).symm

theorem Keyed.next (keyed : server.Keyed) (step : next action server = some server') :
    server'.Keyed := by
  have performs := performs_of_next step
  cases action with
  | accept failed =>
      obtain rfl := performs
      exact keyed.accept failed
  | completion number completion =>
      rcases performs with ⟨conn, result, at_number, handled, rfl⟩
      exact keyed.completed at_number handled
  | closeConnection port =>
      obtain rfl := performs
      exact keyed.closeConnection port
  | stop =>
      obtain rfl := performs
      exact keyed.stop

/-- An accept keeps the pool exact when no connection is live. -/
theorem exact_accept (keyed : server.Keyed) (exact : server.Exact) :
    (server.accept false).Exact ↔ ∀ number, ¬ server.Live number := by
  constructor
  · intro after number live
    have new := (after server.accepted.length).mpr (live_accept.mpr (Or.inr rfl))
    rcases keyed.pooled_accept.mp new with old | ⟨-, none⟩
    · rcases (exact _).mp old with ⟨conn, found, -⟩
      exact absurd (List.getElem?_eq_some_iff.mp found).1 (Nat.lt_irrefl _)
    · exact none number ((exact number).mpr live)
  · intro none number
    have noPooled : ∀ other, ¬ server.Pooled other := fun other => mt (exact other).mp (none other)
    rw [keyed.pooled_accept, live_accept, exact number]
    exact or_congr Iff.rfl (and_iff_left noPooled)

/-- A handler that ends keeps the pool exact when its own connection is live or
none is. -/
theorem exact_completed (keyed : server.Keyed) (exact : server.Exact) {number : Nat}
    {conn : Connection} {ends : Prop} {result : Connection × Bool}
    (at_number : server.accepted[number]? = some conn) (handled : Handled conn ends result) :
    (server.completed number result).Exact ↔
      (ends → server.Live number ∨ ∀ other, ¬ server.Live other) := by
  constructor
  · intro after ended
    by_cases live : server.Live number
    · exact Or.inl live
    · apply Or.inr
      intro other liveOther
      have still : (server.completed number result).Live other := by
        rw [live_completed at_number handled]
        exact ⟨liveOther, fun same => live (same.1 ▸ liveOther)⟩
      exact ((keyed.pooled_completed at_number handled).mp ((after other).mpr still)).2 ended
  · intro allowed other
    rw [keyed.pooled_completed at_number handled, live_completed at_number handled, exact other]
    apply and_congr_right
    intro liveOther
    apply not_congr
    constructor
    · intro ended
      rcases allowed ended with live | none
      · exact ⟨keyed.pooled_unique ((exact other).mpr liveOther) ((exact number).mpr live), ended⟩
      · exact absurd liveOther (none other)
    · exact And.right

theorem exact_stop : server.Exact → server.stop.Exact := by
  intro exact number
  rw [live_stop, exact number]
  exact iff_of_false not_pooled_stop fun both => both.2 both.1

section Steps

variable (keyed : server.Keyed) (exact : server.Exact)

include keyed exact in
theorem good_accept_iff (failed : Bool) :
    Good server (.accept failed) (server.accept failed) ↔ server.Allowed (.accept failed) := by
  cases failed with
  | true =>
      apply iff_of_true _ (Or.inl rfl)
      exact ⟨exact, fun _ number pooled _ => pooled, fun stopping => by cases stopping⟩
  | false =>
      rw [Allowed, or_iff_right Bool.false_ne_true, ← exact_accept keyed exact]
      constructor
      · exact Good.exact
      · intro after
        constructor
        · exact after
        · exact fun _ number pooled _ => keyed.pooled_accept.mpr (Or.inl pooled)
        · exact fun stopping => by cases stopping

include keyed exact in
theorem good_completed_iff {number : Nat} {completion : Completion} {conn : Connection}
    {result : Connection × Bool} (at_number : server.accepted[number]? = some conn)
    (handled : Handled conn (conn.Ends completion) result) :
    Good server (.completion number completion) (server.completed number result) ↔
      server.Allowed (.completion number completion) := by
  have ends : (∃ conn, server.accepted[number]? = some conn ∧ conn.Ends completion) ↔
      conn.Ends completion := by
    simp [at_number]
  rw [Allowed, ends, ← exact_completed keyed exact at_number handled]
  constructor
  · exact Good.exact
  · intro after
    constructor
    · exact after
    · intro _ other pooled stays
      rw [after other, live_completed at_number handled]
      constructor
      · exact (exact other).mp pooled
      · rintro ⟨same, ended⟩
        exact stays ⟨same, conn, at_number, ended⟩
    · exact fun stopping => by cases stopping

include exact in
theorem good_closeConnection_iff (port : Nat) :
    Good server (.closeConnection port) (server.closeConnection port) ↔
      server.Allowed (.closeConnection port) := by
  constructor
  · intro good
    rw [Allowed, Option.eq_none_iff_forall_ne_some]
    intro number found
    rcases closeConnection_found found with ⟨pooled, dead⟩
    exact dead ((good.exact number).mp pooled)
  · intro absent
    have unchanged : server.closeConnection port = server := by
      rw [SocketServer.closeConnection, absent]
    rw [unchanged]
    exact ⟨exact, fun _ number pooled _ => pooled, fun stopping => by cases stopping⟩

include exact in
theorem good_stop : Good server .stop server.stop := by
  constructor
  · exact exact_stop exact
  · exact fun going => absurd rfl going
  · rintro - number live
    rcases live with ⟨conn, at_number, opened⟩
    have pooled := (exact number).mpr ⟨conn, at_number, opened⟩
    exact ⟨conn.stop, stopped_of_pooled at_number pooled, rfl, rfl⟩

include keyed exact in
/-- From an exact pool, a step is good exactly when it is allowed. -/
theorem good_iff_allowed (step : next action server = some server') :
    Good server action server' ↔ server.Allowed action := by
  have performs := performs_of_next step
  cases action with
  | accept failed =>
      obtain rfl := performs
      exact good_accept_iff keyed exact failed
  | completion number completion =>
      rcases performs with ⟨conn, result, at_number, handled, rfl⟩
      exact good_completed_iff keyed exact at_number handled
  | closeConnection port =>
      obtain rfl := performs
      exact good_closeConnection_iff exact port
  | stop =>
      obtain rfl := performs
      exact iff_of_true (good_stop exact) trivial

end Steps

theorem keyed_new : new.Keyed := by
  constructor
  · exact fun conn member => absurd member List.not_mem_nil
  · exact fun key member => absurd member (AList.notMem_empty key)

theorem exact_new : new.Exact := by
  intro number
  apply iff_of_false
  · rintro ⟨key, found⟩
    cases found
  · rintro ⟨conn, found, -⟩
    cases found

/-- Every step of a run of the server is good exactly when every step is
allowed. -/
theorem pool_exact_iff (actions : List ServerAction) :
    Along next Good actions new ↔
      Along next (fun server action _ => server.Allowed action) actions new := by
  apply along_iff_of_step fun server => server.Keyed ∧ server.Exact
  · exact fun invariant step => good_iff_allowed invariant.1 invariant.2 step
  · exact fun invariant step good => ⟨invariant.1.next step, good.exact⟩
  · exact ⟨keyed_new, exact_new⟩

/-- A second connection is not put into the pool while the first is there. -/
theorem two_accepts_not_good :
    ¬ Along next Good [.accept false, .accept false] new := by
  intro along
  rcases along _ rfl with ⟨-, second⟩
  rcases second _ rfl with ⟨good, -⟩
  have live : Live ((new.accept false).accept false) 1 := ⟨Connection.start 11235, rfl, rfl⟩
  have pooled := (good.exact 1).mpr live
  rw [((keyed_new.accept false).accept false).pooled_iff] at pooled
  exact absurd pooled (by decide)

/-- While the pool is exact, a connection is found under the port exactly when
one is live. -/
theorem existsConnection_iff (keyed : server.Keyed) (exact : server.Exact) :
    server.existsConnection server.port = true ↔ ∃ number, server.Live number := by
  rw [existsConnection, Option.isSome_iff_exists]
  apply exists_congr
  intro number
  rw [← keyed.pooled_iff, exact number]

end SocketServer

end PpiwTrading.Network
