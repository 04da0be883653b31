import PpiwTrading.Network.SocketClient

/-!
# A connection of the socket server

A connection reads a header of eight bytes, whose low half is the size of the
body and whose high half is the code of the message, then the body, and goes on
until a message asks it to exit.  Its replies carry their length in front.
-/

namespace PpiwTrading.Network

open PpiwTrading.Bytes

/-- `SocketServer::process_message`: whether to exit, and the reply.  Codes that
are no enumerators fall out of the switch. -/
def SocketServer.processMessage (code : MsgCode) (_messageIn : List UInt8) :
    Bool × List UInt8 :=
  if code = INFO_RPC then (false, [])
  else if code = EXIT_RPC then (true, [])
  else (false, [])

theorem SocketServer.processMessage_exits (code : MsgCode) (msg : List UInt8) :
    (SocketServer.processMessage code msg).1 = true ↔ code = EXIT_RPC := by
  unfold SocketServer.processMessage
  split
  case isTrue info => simp [info, INFO_RPC, EXIT_RPC]
  case isFalse => split <;> simp_all

namespace SocketConnection

/-! ## Reading -/

/-- What a connection does with the bytes it is given: the messages it hands to
`process_message`, the replies it writes, and whether it has removed itself
from the server. -/
structure Session where
  processed : List (MsgCode × List UInt8)
  replies : List (List UInt8)
  removed : Bool
deriving DecidableEq, Repr

/-- A session in which a message is processed and answered before the others. -/
def Session.after (code : MsgCode) (message reply : List UInt8) (rest : Session) : Session :=
  { rest with processed := (code, message) :: rest.processed, replies := reply :: rest.replies }

/-- `read_msg_header & 0xffffffff`. -/
def msgSize (readMsgHeader : Nat) : Nat :=
  readMsgHeader &&& 0xffffffff

/-- `static_cast<MSG_CODE>(read_msg_header >> 32)`. -/
def msgCode (readMsgHeader : Nat) : MsgCode :=
  UInt32.ofNat (readMsgHeader >>> 32)

/-- The hard limit for the message buffer, 64M bytes. -/
def bufferLimit : Nat := 64 * 1024 * 1024

/-- The loop of `do_read_header` and `do_read_body` of a running connection on
the bytes `stream`, with the string `read_msg_body` as the last message has left
it.  A read for which bytes are missing ends when the client has closed the
stream, and is still waiting otherwise. -/
def doReadHeader (streamClosed : Bool) (readMsgBody stream : List UInt8) : Session :=
  if 8 ≤ stream.length then
    let readMsgHeader := bytesNat (stream.take 8)
    let size := msgSize readMsgHeader
    let code := msgCode readMsgHeader
    if bufferLimit < size then ⟨[], [], true⟩
    else
      let bytes := (stream.drop 8).take size
      let body := bytes ++ (resize readMsgBody size).drop bytes.length
      let result := SocketServer.processMessage code body
      if bytes.length = size then
        if result.1 then ⟨[(code, body)], [], true⟩
        else (doReadHeader streamClosed body (stream.drop (8 + size))).after code body result.2
      else if streamClosed then
        -- an end of file is let through with the bytes that came before it
        ⟨[(code, body)], if result.1 then [] else [result.2], true⟩
      else ⟨[], [], false⟩
  else ⟨[], [], streamClosed⟩
termination_by stream.length
decreasing_by
  rw [List.length_drop]
  omega

/-! ## Writing -/

/-- `SocketConnection::do_write`: the buffer it hands to the asynchronous
write.  The first `memcpy` copies a `size_t`. -/
def doWrite (buf : List UInt8) : Option (List UInt8) := do
  let length := buf.length
  let toSend := resize [] (length + 4)
  let toSend ← memcpy toSend 0 (natBytes 8 length)
  memcpy toSend 4 buf

end SocketConnection

end PpiwTrading.Network
