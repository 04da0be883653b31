import PpiwTrading.Network.SocketConnection

/-!
# Requests and replies on a stream

The client writes the length and the code of a request as two words of four
bytes; the server reads one word of eight bytes and takes it apart.  Both agree
on the frame, so the server processes the requests that were sent, however the
writes of the client were cut.

A reply is framed with its length alone.  The server copies eight bytes of the
length before it copies the reply over the last four of them, which leaves the
buffer when the reply has fewer than four bytes.
-/

namespace PpiwTrading.Network

open PpiwTrading.Bytes

variable (strerror : Errno → String)

/-! ## Sending -/

/-- A call that writes a prefix of `bytes`, and the whole of it exactly when it
reports success. -/
def Writes (bytes : List UInt8) (call : List (Outcome Errno) → Option Moved) : Prop :=
  ∀ outcomes sent, call outcomes = some sent →
    sent.bytes <+: bytes ∧ (sent.status.isOk = true ↔ sent.bytes = bytes)

theorem isOk_transferStatus (failure : String) (ending : Ending Errno) :
    (transferStatus strerror failure ending).isOk = true ↔ ending = .complete := by
  cases ending with
  | complete => simp [transferStatus, Status.isOk, Status.OK]
  | nothingMoved => simp [transferStatus, Status.isOk, Status.ioError]
  | failed errno => simp [transferStatus, Status.isOk, Status.ioError]

theorem writes_sendBytes (data : List UInt8) :
    Writes data (sendBytes strerror data data.length) := by
  intro outcomes sent returned
  rcases Option.map_eq_some_iff.mp returned with ⟨result, finished, rfl⟩
  have moves := transfer_moves finished
  constructor
  · exact moves.moved_isPrefix
  · rw [Moved.ofTransfer, isOk_transferStatus, moves.complete_iff]
    constructor
    · exact moves.moved_isPrefix.eq_of_length
    · exact congrArg List.length

theorem Writes.returnOnError {first second : List UInt8}
    {call next : List (Outcome Errno) → Option Moved} (writesFirst : Writes first call)
    (writesSecond : Writes second next) :
    Writes (first ++ second) fun outcomes =>
      (call outcomes).bind fun done => done.returnOnError next := by
  intro outcomes sent returned
  rcases Option.bind_eq_some_iff.mp returned with ⟨done, called, continued⟩
  rcases writesFirst outcomes done called with ⟨donePrefix, doneIff⟩
  unfold Moved.returnOnError at continued
  split at continued
  case isTrue success =>
    rcases Option.map_eq_some_iff.mp continued with ⟨more, called, rfl⟩
    rcases writesSecond done.outcomes more called with ⟨morePrefix, moreIff⟩
    rw [doneIff.mp success]
    constructor
    · exact (List.prefix_append_right_inj first).mpr morePrefix
    · rw [moreIff]
      exact (List.append_cancel_left_eq first more.bytes second).symm.to_iff
  case isFalse failed =>
    cases continued
    constructor
    · exact donePrefix.trans (List.prefix_append first second)
    · apply iff_of_false failed
      intro whole
      -- a prefix of the first part that is the whole of both parts is the first part
      apply failed
      rw [doneIff]
      apply donePrefix.eq_of_length
      have short := donePrefix.length_le
      rw [whole, List.length_append] at short ⊢
      exact Nat.le_antisymm short (Nat.le_add_right _ _)

/-- The bytes of a request. -/
def frame (code : MsgCode) (msg : List UInt8) : List UInt8 :=
  natBytes 4 msg.length ++ (natBytes 4 code.toNat ++ msg)

theorem writes_sendMessage (code : MsgCode) {msg : List UInt8} (bounded : msg.length < 2 ^ 32) :
    Writes (frame code msg) (sendMessage strerror code msg) := by
  have whole := (writes_sendBytes strerror (natBytes 4 msg.length)).returnOnError
    ((writes_sendBytes strerror (natBytes 4 code.toNat)).returnOnError
      (writes_sendBytes strerror msg))
  simp only [length_natBytes] at whole
  intro outcomes sent returned
  apply whole outcomes sent
  rw [← returned, sendMessage, Nat.mod_eq_of_lt bounded]
  rfl

/-- Requests sent one after another on one connection, with what each of them
wrote. -/
def sendMessages : List (MsgCode × List UInt8) → List (Outcome Errno) → Option (List Moved)
  | [], _ => some []
  | message :: messages, outcomes => do
      let sent ← sendMessage strerror message.1 message.2 outcomes
      let others ← sendMessages messages sent.outcomes
      some (sent :: others)

/-! ## Reading requests -/

namespace SocketConnection

theorem msgSize_eq (readMsgHeader : Nat) : msgSize readMsgHeader = readMsgHeader % 2 ^ 32 :=
  Nat.and_two_pow_sub_one_eq_mod readMsgHeader 32

theorem msgCode_eq (readMsgHeader : Nat) :
    msgCode readMsgHeader = UInt32.ofNat (readMsgHeader / 2 ^ 32) := by
  rw [msgCode, Nat.shiftRight_eq_div_pow]

/-- The server finds in the eight bytes of the header what the client wrote. -/
theorem header_frame (code : MsgCode) {length : Nat} (bounded : length < 2 ^ 32) :
    msgSize (bytesNat (natBytes 4 length ++ natBytes 4 code.toNat)) = length ∧
      msgCode (bytesNat (natBytes 4 length ++ natBytes 4 code.toNat)) = code := by
  have word : bytesNat (natBytes 4 length ++ natBytes 4 code.toNat) =
      length + 2 ^ 32 * code.toNat := by
    have low : length % 256 ^ 4 = length := Nat.mod_eq_of_lt bounded
    have high : code.toNat % 256 ^ 4 = code.toNat := Nat.mod_eq_of_lt code.toNat_lt
    rw [bytesNat_append, bytesNat_natBytes, bytesNat_natBytes, length_natBytes, low, high]
    norm_num
  rw [word, msgSize_eq, msgCode_eq]
  constructor
  · rw [Nat.add_mul_mod_self_left, Nat.mod_eq_of_lt bounded]
  · rw [Nat.add_mul_div_left _ _ (by norm_num), Nat.div_eq_of_lt bounded, Nat.zero_add,
      UInt32.ofNat_toNat]

theorem length_resize (msg : List UInt8) (length : Nat) : (resize msg length).length = length := by
  rw [resize, List.length_append, List.length_take, List.length_replicate]
  omega

/-- A connection processes the request at the front of its stream. -/
theorem doReadHeader_frame (streamClosed : Bool) (readMsgBody : List UInt8) (code : MsgCode)
    {msg : List UInt8} (bounded : msg.length ≤ bufferLimit) (later : List UInt8) :
    doReadHeader streamClosed readMsgBody (frame code msg ++ later) =
      if (SocketServer.processMessage code msg).1 then ⟨[(code, msg)], [], true⟩
      else (doReadHeader streamClosed msg later).after code msg
        (SocketServer.processMessage code msg).2 := by
  have short : msg.length < 2 ^ 32 := Nat.lt_of_le_of_lt bounded (by decide)
  rcases header_frame code short with ⟨size, codeEq⟩
  have split : frame code msg ++ later =
      (natBytes 4 msg.length ++ natBytes 4 code.toNat) ++ (msg ++ later) := by
    simp only [frame, List.append_assoc]
  have headerLength : (natBytes 4 msg.length ++ natBytes 4 code.toNat).length = 8 := by
    rw [List.length_append, length_natBytes, length_natBytes]
  have long : 8 ≤ (frame code msg ++ later).length := by
    rw [split, List.length_append, headerLength]
    exact Nat.le_add_right _ _
  have headerBytes : (frame code msg ++ later).take 8 =
      natBytes 4 msg.length ++ natBytes 4 code.toNat := by
    rw [split]
    exact List.take_left' headerLength
  have others : (frame code msg ++ later).drop 8 = msg ++ later := by
    rw [split]
    exact List.drop_left' headerLength
  have body : msg ++ (resize readMsgBody msg.length).drop msg.length = msg := by
    rw [List.drop_of_length_le (length_resize _ _).le, List.append_nil]
  rw [doReadHeader]
  simp only [if_pos long, headerBytes, size, codeEq, others, List.take_left, body,
    if_neg (Nat.not_lt.mpr bounded), if_true, ← List.drop_drop, List.drop_left]

/-- The requests up to the first one that asks the connection to exit. -/
def upToExit : List (MsgCode × List UInt8) → List (MsgCode × List UInt8)
  | [] => []
  | message :: messages =>
      if message.1 = EXIT_RPC then [message] else message :: upToExit messages

/-- A connection processes the requests whose frames are on its stream. -/
theorem processed_frames (streamClosed : Bool) (readMsgBody : List UInt8)
    {messages : List (MsgCode × List UInt8)}
    (bounded : ∀ message ∈ messages, message.2.length ≤ bufferLimit) :
    (doReadHeader streamClosed readMsgBody
      (messages.flatMap fun message => frame message.1 message.2)).processed =
        upToExit messages := by
  induction messages generalizing readMsgBody with
  | nil =>
      rw [List.flatMap_nil, doReadHeader]
      rfl
  | cons message messages inductionHypothesis =>
      have rest := inductionHypothesis message.2
        fun other member => bounded other (List.mem_cons_of_mem message member)
      rw [List.flatMap_cons,
        doReadHeader_frame _ _ _ (bounded message List.mem_cons_self), upToExit]
      by_cases exits : message.1 = EXIT_RPC
      · rw [if_pos ((SocketServer.processMessage_exits _ _).mpr exits), if_pos exits]
      · rw [if_neg (mt (SocketServer.processMessage_exits _ _).mp exits), if_neg exits, ← rest]
        rfl

end SocketConnection

/-! ## Requests arrive as they were sent -/

theorem sendMessages_getElem? {messages : List (MsgCode × List UInt8)}
    {outcomes : List (Outcome Errno)} {sends : List Moved}
    (returned : sendMessages strerror messages outcomes = some sends) {k : Nat} {sent : Moved}
    {message : MsgCode × List UInt8} (sentAt : sends[k]? = some sent)
    (messageAt : messages[k]? = some message) :
    ∃ before, sendMessage strerror message.1 message.2 before = some sent := by
  induction messages generalizing outcomes sends k with
  | nil => simp at messageAt
  | cons first messages inductionHypothesis =>
      rcases Option.bind_eq_some_iff.mp returned with ⟨firstSent, sentFirst, continued⟩
      rcases Option.bind_eq_some_iff.mp continued with ⟨others, sentOthers, listed⟩
      cases listed
      cases k with
      | zero =>
          cases sentAt
          cases messageAt
          exact ⟨outcomes, sentFirst⟩
      | succ k => exact inductionHypothesis sentOthers sentAt messageAt

/-- When every send reports success, the stream holds the frames. -/
theorem sendMessages_bytes {messages : List (MsgCode × List UInt8)}
    (bounded : ∀ message ∈ messages, message.2.length < 2 ^ 32)
    {outcomes : List (Outcome Errno)} {sends : List Moved}
    (returned : sendMessages strerror messages outcomes = some sends)
    (success : ∀ sent ∈ sends, sent.status.isOk = true) :
    sends.flatMap Moved.bytes = messages.flatMap fun message => frame message.1 message.2 := by
  induction messages generalizing outcomes sends with
  | nil =>
      cases returned
      rfl
  | cons first messages inductionHypothesis =>
      rcases Option.bind_eq_some_iff.mp returned with ⟨sent, sentFirst, continued⟩
      rcases Option.bind_eq_some_iff.mp continued with ⟨others, sentOthers, listed⟩
      cases listed
      have whole := writes_sendMessage strerror first.1 (bounded first List.mem_cons_self)
        outcomes sent sentFirst
      have rest := inductionHypothesis
        (fun other member => bounded other (List.mem_cons_of_mem first member)) sentOthers
        fun other member => success other (List.mem_cons_of_mem sent member)
      rw [List.flatMap_cons, List.flatMap_cons, rest,
        whole.2.mp (success sent List.mem_cons_self)]

/-- However the writes are cut, requests that are all sent with success are
processed as they were sent up to the first exit, and a send that fails has
written less than its frame. -/
theorem requests_framed (messages : List (MsgCode × List UInt8))
    (outcomes : List (Outcome Errno)) (sends : List Moved) (streamClosed : Bool)
    (readMsgBody : List UInt8)
    (bounded : ∀ message ∈ messages, message.2.length ≤ 64 * 1024 * 1024)
    (returned : sendMessages strerror messages outcomes = some sends) :
    ((∀ sent ∈ sends, sent.status.isOk = true) →
      (SocketConnection.doReadHeader streamClosed readMsgBody
        (sends.flatMap Moved.bytes)).processed = SocketConnection.upToExit messages) ∧
    ∀ (k : Nat) (sent : Moved) (message : MsgCode × List UInt8), sends[k]? = some sent →
      messages[k]? = some message → sent.status.isOk = false →
        sent.bytes <+: frame message.1 message.2 ∧ sent.bytes ≠ frame message.1 message.2 := by
  have short : ∀ message ∈ messages, message.2.length < 2 ^ 32 :=
    fun message member => Nat.lt_of_le_of_lt (bounded message member) (by norm_num)
  constructor
  · intro success
    rw [sendMessages_bytes strerror short returned success]
    exact SocketConnection.processed_frames streamClosed readMsgBody bounded
  · intro k sent message sentAt messageAt failed
    rcases sendMessages_getElem? strerror returned sentAt messageAt with ⟨before, sending⟩
    have writes := writes_sendMessage strerror message.1
      (short message (List.mem_of_getElem? messageAt)) before sent sending
    constructor
    · exact writes.1
    · exact fun whole => absurd (writes.2.mpr whole) (Bool.eq_false_iff.mp failed)

/-- Two requests, written three bytes at a time after an interruption. -/
theorem requests_framed_cut :
    (SocketConnection.doReadHeader false []
      (frame INFO_RPC [116, 101, 115, 116] ++ frame EXIT_RPC [])).processed =
        [(INFO_RPC, [116, 101, 115, 116]), (EXIT_RPC, [])] := by
  have framed := requests_framed (fun _ => "")
    [(INFO_RPC, [116, 101, 115, 116]), (EXIT_RPC, [])]
    (.failed .interrupted :: List.replicate 10 (.upTo 3))
    [⟨.OK, frame INFO_RPC [116, 101, 115, 116], List.replicate 4 (.upTo 3)⟩,
      ⟨.OK, frame EXIT_RPC [], []⟩] false [] (by decide) (by decide)
  exact framed.1 (by decide)

/-! ## Replies -/

namespace SocketConnection

/-- The copy of the eight bytes of the length leaves the buffer of a reply with
fewer than four bytes. -/
theorem doWrite_short {buf : List UInt8} (short : buf.length < 4) : doWrite buf = none := by
  have outside : (resize [] (buf.length + 4)).length < 0 + (natBytes 8 buf.length).length := by
    rw [length_resize, length_natBytes]
    omega
  rw [doWrite, memcpy_eq_none outside]
  rfl

/-- The reply is copied over the upper half of the length. -/
theorem doWrite_long {buf : List UInt8} (long : 4 ≤ buf.length) :
    doWrite buf = some (natBytes 4 buf.length ++ buf) := by
  have buffer : resize [] (buf.length + 4) =
      List.replicate 8 0 ++ List.replicate (buf.length - 4) 0 := by
    rw [resize, List.take_nil, List.nil_append, List.length_nil, Nat.sub_zero,
      ← List.replicate_add]
    congr 1
    omega
  have first : memcpy (resize [] (buf.length + 4)) 0 (natBytes 8 buf.length) =
      some (natBytes 8 buf.length ++ List.replicate (buf.length - 4) 0) := by
    rw [buffer]
    exact @memcpy_append [] (List.replicate 8 0) _ _ (by simp)
  have halves : natBytes 8 buf.length ++ List.replicate (buf.length - 4) 0 =
      natBytes 4 buf.length ++
        ((natBytes 8 buf.length).drop 4 ++ List.replicate (buf.length - 4) 0) := by
    rw [← List.append_assoc, ← take_natBytes 4 4, List.take_append_drop]
  have second := @memcpy_append (natBytes 4 buf.length)
    ((natBytes 8 buf.length).drop 4 ++ List.replicate (buf.length - 4) 0) buf [] (by
      simp only [List.length_append, List.length_drop, length_natBytes, List.length_replicate]
      omega)
  rw [length_natBytes, List.append_nil, List.append_nil, ← halves] at second
  rw [doWrite, first]
  exact second

end SocketConnection

/-- `recv_bytes` on a stream that holds enough bytes, with patient reads. -/
theorem recvBytes_of_patient {stream : List UInt8} {length : Nat}
    {outcomes : List (Outcome Errno)} (patient : Patient Errno.retried outcomes)
    (within : length ≤ stream.length) (enough : length ≤ movingCalls outcomes) :
    ∃ rest, recvBytes strerror stream length outcomes = some ⟨.OK, stream.take length, rest⟩ ∧
      Patient Errno.retried rest ∧ movingCalls outcomes ≤ movingCalls rest + length := by
  rcases transfer_of_patient patient within enough with ⟨rest, finished, patientRest, used⟩
  use rest
  constructor
  · rw [recvBytes, finished]
    rfl
  · exact ⟨patientRest, used⟩

/-- The bytes of a reply. -/
def replyFrame (buf : List UInt8) : List UInt8 :=
  natBytes 4 buf.length ++ buf

/-- A framed reply is read whatever the reads are cut into, and nothing after
it is touched. -/
theorem recvMessage_replyFrame {buf : List UInt8} (bounded : buf.length < 2 ^ 32)
    (msg later : List UInt8) {outcomes : List (Outcome Errno)}
    (patient : Patient Errno.retried outcomes)
    (enough : (replyFrame buf).length ≤ movingCalls outcomes) :
    ∃ rest, recvMessage strerror msg (replyFrame buf ++ later) outcomes =
      some ⟨.OK, buf, later, rest⟩ := by
  rw [replyFrame, List.length_append, length_natBytes] at enough
  have split : replyFrame buf ++ later = natBytes 4 buf.length ++ (buf ++ later) :=
    List.append_assoc _ _ _
  have headerBytes : (natBytes 4 buf.length ++ (buf ++ later)).take 4 = natBytes 4 buf.length :=
    List.take_left' (length_natBytes 4 _)
  have others : (natBytes 4 buf.length ++ (buf ++ later)).drop 4 = buf ++ later :=
    List.drop_left' (length_natBytes 4 _)
  have length : bytesNat (natBytes 4 buf.length) = buf.length := by
    rw [bytesNat_natBytes]
    exact Nat.mod_eq_of_lt bounded
  rcases @recvBytes_of_patient strerror (natBytes 4 buf.length ++ (buf ++ later)) 4 outcomes patient
      (by rw [List.length_append, length_natBytes]; exact Nat.le_add_right _ _)
      ((Nat.le_add_right _ _).trans enough) with
    ⟨middle, header, patientMiddle, used⟩
  rcases @recvBytes_of_patient strerror (buf ++ later) buf.length middle patientMiddle
      (by rw [List.length_append]; exact Nat.le_add_right _ _) (by omega) with
    ⟨rest, body, -, -⟩
  use rest
  have resized : (resize msg buf.length).drop buf.length = [] :=
    List.drop_of_length_le (SocketConnection.length_resize msg buf.length).le
  rw [split, recvMessage, header, headerBytes]
  simp only [Option.bind_eq_bind, Option.bind_some, length_natBytes, others, length, body,
    List.take_left, List.drop_left, resized, List.append_nil]
  rfl

/-- What a reply should come to: the copies of `do_write` stay inside its buffer
and leave the frame of the reply there, and the client reads the reply back from
it and nothing more. -/
structure ReplyFramed (buf : List UInt8) : Prop where
  written : SocketConnection.doWrite buf = some (replyFrame buf)
  read : ∀ msg later outcomes, Patient Errno.retried outcomes →
    (replyFrame buf).length ≤ movingCalls outcomes →
      ∃ rest, recvMessage strerror msg (replyFrame buf ++ later) outcomes =
        some ⟨.OK, buf, later, rest⟩

/-- A reply comes to what it should exactly when it has at least four bytes. -/
theorem replyFramed_iff (buf : List UInt8) (bounded : buf.length < 2 ^ 32) :
    ReplyFramed strerror buf ↔ 4 ≤ buf.length := by
  constructor
  · intro framed
    by_contra short
    have outside := SocketConnection.doWrite_short (Nat.lt_of_not_le short)
    cases outside.symm.trans framed.written
  · intro long
    constructor
    · exact SocketConnection.doWrite_long long
    · intro msg later outcomes patient enough
      exact recvMessage_replyFrame strerror bounded msg later patient enough

theorem replyFramed_four_bytes : ReplyFramed (fun _ => "") [114, 101, 112, 108] :=
  (replyFramed_iff (fun _ => "") [114, 101, 112, 108] (by decide)).mpr (by decide)

/-- The reply of the server to every request, the empty string, is copied beyond
its buffer. -/
theorem empty_reply_outside : ¬ ReplyFramed (fun _ => "") [] := by
  intro framed
  cases framed.written

end PpiwTrading.Network
