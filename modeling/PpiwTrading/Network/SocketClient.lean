import PpiwTrading.Bytes.FixedWidth
import PpiwTrading.Bytes.Transfer

/-!
# The socket client

The client resolves the address of a server, tries the addresses it is given one
by one, and tries all of them again some times; then it sends requests and reads
replies, each with its length in front.  The answers of the system calls are
inputs of these functions.
-/

namespace PpiwTrading.Network

open PpiwTrading.Bytes

/-- `MSG_CODE`, an enumeration whose underlying type is `uint32_t`. -/
abbrev MsgCode := UInt32

def INFO_RPC : MsgCode := 0

def EXIT_RPC : MsgCode := 1

inductive StatusCode where
  | ok
  | ioError
  | connectionFailed
deriving DecidableEq, Repr

structure Status where
  code : StatusCode
  msg : String
deriving DecidableEq, Repr

namespace Status

def OK : Status := ⟨.ok, ""⟩

def ioError (msg : String) : Status := ⟨.ioError, msg⟩

def connectionFailed (message : String) : Status :=
  ⟨.connectionFailed, "Failed to connect to exchange: " ++ message⟩

/-- `Status::ok`. -/
def isOk (status : Status) : Bool :=
  status.code = .ok

end Status

/-! ## Connecting -/

/-- How the system answers for one address of the list: the descriptor that
`socket` gives, unless it fails, and the result of `connect` on it. -/
structure AddrOutcome where
  socket : Option Nat
  connect : Int
deriving DecidableEq, Repr

namespace AddrOutcome

/-- The value that `socket` returns. -/
def socketFd (addr : AddrOutcome) : Int :=
  match addr.socket with
  | some fd => fd
  | none => -1

/-- A `connect` on this address succeeds. -/
def Accepts (addr : AddrOutcome) : Prop :=
  addr.socket.isSome ∧ addr.connect = 0

instance (addr : AddrOutcome) : Decidable addr.Accepts :=
  inferInstanceAs (Decidable (_ ∧ _))

end AddrOutcome

/-- A call of `connect`, with its descriptor and its result. -/
structure ConnectCall where
  fd : Int
  result : Int
deriving DecidableEq, Repr

/-- The loop of `connect_rpc_socket` over the addresses, from the value
`socket_fd` has before it: the value after it and the calls of `connect`. -/
def connectLoop : List AddrOutcome → Int → Int × List ConnectCall
  | [], socketFd => (socketFd, [])
  | addr :: addrs, _ =>
      if addr.socketFd = -1 then connectLoop addrs addr.socketFd
      else if addr.connect ≠ 0 then
        let rest := connectLoop addrs addr.socketFd
        (rest.1, ⟨addr.socketFd, addr.connect⟩ :: rest.2)
      else (addr.socketFd, [⟨addr.socketFd, addr.connect⟩])

/-- What a call of `connect_rpc_socket` leaves. -/
structure Attempted where
  status : Status
  socketFd : Int
  connects : List ConnectCall
deriving DecidableEq, Repr

/-- The answers to one call of `connect_rpc_socket`: the addresses that
`getaddrinfo` gives, unless it fails. -/
abbrev Attempt := Option (List AddrOutcome)

/-- `SocketClient::connect_rpc_socket`. -/
def connectRpcSocket (host : String) (port : Nat) (socketFd : Int) : Attempt → Attempted
  | none =>
      ⟨.ioError ("getaddrinfo() failed for endpoint " ++ host ++ ":" ++ toString port),
        socketFd, []⟩
  | some addrs =>
      let looped := connectLoop addrs (-1)
      if looped.1 = -1 then
        ⟨.ioError ("socket/connect failed for endpoint " ++ host ++ ":" ++ toString port),
          looped.1, looped.2⟩
      else ⟨.OK, looped.1, looped.2⟩

def kNumConnectAttempts : Nat := 5

/-- The loop of `connect_rpc_socket_retry` after a call that left `last`; the
calls it makes are answered by `answers` from number `next` on.  The result
lists what each call left. -/
def retryLoop (host : String) (port : Nat) (answers : Nat → Attempt) :
    Nat → Nat → Attempted → List Attempted
  | 0, _, last => [last]
  | retries + 1, next, last =>
      if last.status.isOk then [last]
      else last :: retryLoop host port answers retries (next + 1)
        (connectRpcSocket host port last.socketFd (answers next))

/-- `SocketClient::connect_rpc_socket_retry` with the calls it makes. -/
def connectAttempts (host : String) (port : Nat) (socketFd : Int) (answers : Nat → Attempt) :
    List Attempted :=
  retryLoop host port answers kNumConnectAttempts 1
    (connectRpcSocket host port socketFd (answers 0))

/-- The status and the descriptor that `connect_rpc_socket_retry` gives back. -/
def connectRpcSocketRetry (host : String) (port : Nat) (socketFd : Int)
    (answers : Nat → Attempt) : Status × Int :=
  match (connectAttempts host port socketFd answers).getLast? with
  | some last => (if last.status.isOk then last.status else .connectionFailed "", last.socketFd)
  | none => (.connectionFailed "", socketFd)

structure SocketClient where
  isConnected : Bool
  rpcEndpoint : String
  socketFd : Int
deriving DecidableEq, Repr

namespace SocketClient

def new : SocketClient := ⟨false, "", 0⟩

/-- `SocketClient::connect_to_server`; there is no result when its assertion
throws. -/
def connectToServer (client : SocketClient) (host : String) (port : Nat)
    (answers : Nat → Attempt) : Option (Status × SocketClient) :=
  let connectRpcEndpoint := host ++ ":" ++ toString port
  if client.isConnected ∧ connectRpcEndpoint ≠ client.rpcEndpoint then none
  else if client.isConnected then some (.OK, client)
  else
    let retried := connectRpcSocketRetry host port client.socketFd answers
    let tried := { client with rpcEndpoint := connectRpcEndpoint, socketFd := retried.2 }
    if retried.1.isOk then some (.OK, { tried with isConnected := true })
    else some (retried.1, tried)

end SocketClient

/-! ## Sending and receiving -/

/-- The errors of `read` and `write` that the client tells apart. -/
inductive Errno where
  | again
  | wouldBlock
  | interrupted
  | other (number : Nat)
deriving DecidableEq, Repr

/-- The errors after which `send_bytes` and `recv_bytes` make the call again. -/
def Errno.retried : Errno → Bool
  | .again | .wouldBlock | .interrupted => true
  | .other _ => false

section Transfers

variable (strerror : Errno → String)

/-- The status for the end of the loop of `send_bytes` or `recv_bytes`. -/
def transferStatus (failure : String) : Ending Errno → Status
  | .complete => .OK
  | .nothingMoved => .ioError (failure ++ "encountered unexpected EOF")
  | .failed errno => .ioError (failure ++ strerror errno)

/-- What `send_bytes` or `recv_bytes` leaves: its status, the bytes it moved and
the outcomes of later calls. -/
structure Moved where
  status : Status
  bytes : List UInt8
  outcomes : List (Outcome Errno)
deriving DecidableEq, Repr

def Moved.ofTransfer (failure : String) (result : Transfer Errno UInt8) : Moved :=
  ⟨transferStatus strerror failure result.ending, result.moved, result.outcomes⟩

/-- `RETURN_ON_ERROR` between two calls. -/
def Moved.returnOnError (done : Moved) (next : List (Outcome Errno) → Option Moved) :
    Option Moved :=
  if done.status.isOk then
    (next done.outcomes).map fun more => { more with bytes := done.bytes ++ more.bytes }
  else some done

/-- `SocketClient::send_bytes`. -/
def sendBytes (data : List UInt8) (length : Nat) (outcomes : List (Outcome Errno)) :
    Option Moved :=
  (transfer Errno.retried outcomes length data).map
    (Moved.ofTransfer strerror "Send message failed: ")

/-- `SocketClient::send_message`: the bytes it writes to the stream. -/
def sendMessage (code : MsgCode) (msg : List UInt8) (outcomes : List (Outcome Errno)) :
    Option Moved := do
  let length := msg.length % 2 ^ 32
  let lengthSent ← sendBytes strerror (natBytes 4 length) 4 outcomes
  lengthSent.returnOnError fun outcomes => do
    let codeSent ← sendBytes strerror (natBytes 4 code.toNat) 4 outcomes
    codeSent.returnOnError (sendBytes strerror msg length)

/-- `SocketClient::recv_bytes` on a stream that holds `stream`. -/
def recvBytes (stream : List UInt8) (length : Nat) (outcomes : List (Outcome Errno)) :
    Option Moved :=
  (transfer Errno.retried outcomes length stream).map
    (Moved.ofTransfer strerror "Receive message failed: ")

/-- `std::string::resize`. -/
def resize (msg : List UInt8) (length : Nat) : List UInt8 :=
  msg.take length ++ List.replicate (length - msg.length) 0

/-- What `recv_message` leaves: its status, the message, the bytes still on the
stream and the outcomes of later calls. -/
structure Received where
  status : Status
  msg : List UInt8
  stream : List UInt8
  outcomes : List (Outcome Errno)
deriving DecidableEq, Repr

/-- `SocketClient::recv_message` into the string `msg`. -/
def recvMessage (msg stream : List UInt8) (outcomes : List (Outcome Errno)) :
    Option Received := do
  let header ← recvBytes strerror stream 4 outcomes
  let stream := stream.drop header.bytes.length
  if header.status.isOk then
    let length := bytesNat header.bytes
    let body ← recvBytes strerror stream length header.outcomes
    let resized := resize msg length
    some ⟨body.status, body.bytes ++ resized.drop body.bytes.length,
      stream.drop body.bytes.length, body.outcomes⟩
  else some ⟨header.status, msg, stream, header.outcomes⟩

end Transfers

end PpiwTrading.Network
