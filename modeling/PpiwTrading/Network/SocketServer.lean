import PpiwTrading.Network.SocketConnection
import PpiwTrading.Transition.Labelled

/-!
# The socket server and its pool of connections

The server accepts connections and keeps them in a pool, under a key that the
connection carries as its `conn_id`.  A connection has a read and some writes
outstanding, whose handlers run one at a time; a handler that stops its
connection removes the key of the connection from the pool.  The connections are
numbered in the order in which they were accepted, and a shared pointer to one
is its number.
-/

namespace PpiwTrading.Network

/-! ## Connections -/

/-- The read that a connection has outstanding. -/
inductive Reading where
  | header
  | body (code : MsgCode)
  | nothing
deriving DecidableEq, Repr

/-- `closed` holds once `do_stop` has closed the socket. -/
structure Connection where
  connId : Nat
  running : Bool
  closed : Bool
  reading : Reading
  writes : Nat
deriving DecidableEq, Repr

/-- The error code with which a read of a body completes. -/
inductive ReadCode where
  | success
  | eof
  | failed
deriving DecidableEq, Repr

/-- The completion of an asynchronous operation of a connection. -/
inductive Completion where
  | header (failed : Bool) (readMsgHeader : Nat)
  | body (ec : ReadCode) (msg : List UInt8)
  | write (failed : Bool)
deriving DecidableEq, Repr

namespace Connection

/-- A connection after its constructor and `start`. -/
def start (connId : Nat) : Connection :=
  ⟨connId, true, false, .header, 0⟩

/-- `SocketConnection::do_stop`. -/
def doStop (conn : Connection) : Connection :=
  { conn with closed := true }

/-- `SocketConnection::stop`. -/
def stop (conn : Connection) : Connection :=
  { conn.doStop with running := false }

/-- `do_stop` at the end of the handler of a read, which starts no other one.
Like the handlers below it says whether `remove_connection` is called. -/
def endReading (conn : Connection) : Connection × Bool :=
  ({ conn.doStop with reading := .nothing }, true)

/-- `SocketConnection::do_read_body` up to its asynchronous read. -/
def doReadBody (conn : Connection) (readMsgHeader : Nat) : Connection × Bool :=
  if SocketConnection.bufferLimit < SocketConnection.msgSize readMsgHeader then conn.endReading
  else ({ conn with reading := .body (SocketConnection.msgCode readMsgHeader) }, false)

/-- The handler of the read in `do_read_header`. -/
def headerRead (conn : Connection) (failed : Bool) (readMsgHeader : Nat) : Connection × Bool :=
  if failed = false ∧ conn.running = true then conn.doReadBody readMsgHeader
  else conn.endReading

/-- `SocketConnection::process_message`: whether to exit, and the connection with
the write of the reply. -/
def processMessage (conn : Connection) (code : MsgCode) (msg : List UInt8) : Bool × Connection :=
  let result := SocketServer.processMessage code msg
  (result.1, if result.1 then conn else { conn with writes := conn.writes + 1 })

/-- The handler of the read in `do_read_body`. -/
def bodyRead (conn : Connection) (code : MsgCode) (ec : ReadCode) (msg : List UInt8) :
    Connection × Bool :=
  if (ec = .success ∨ ec = .eof) ∧ conn.running = true then
    let processed := conn.processMessage code msg
    if processed.1 = true ∨ ec = .eof then processed.2.endReading
    else ({ processed.2 with reading := .header }, false)
  else conn.endReading

/-- The handler of the write in `do_async_write`. -/
def written (conn : Connection) (failed : Bool) : Connection × Bool :=
  let conn := { conn with writes := conn.writes - 1 }
  if failed then (conn.doStop, true) else (conn, false)

/-- The handler of a completion, when its operation is outstanding. -/
def handle (conn : Connection) : Completion → Option (Connection × Bool)
  | .header failed readMsgHeader =>
      if conn.reading = .header then some (conn.headerRead failed readMsgHeader) else none
  | .body ec msg =>
      match conn.reading with
      | .body code => some (conn.bodyRead code ec msg)
      | .header | .nothing => none
  | .write failed => if 0 < conn.writes then some (conn.written failed) else none

end Connection

/-! ## The server -/

/-- `connections` maps a key to the number of a connection.  `deadlocked` holds
once a thread waits for `connections_mutx` while it holds it; nothing that comes
after that is modelled. -/
structure SocketServer where
  port : Nat
  accepted : List Connection
  connections : AList fun _ : Nat => Nat
  deadlocked : Bool

/-- What happens to a server: an accept completes, an operation of a connection
completes, or one of two administrative calls is made. -/
inductive ServerAction where
  | accept (failed : Bool)
  | completion (number : Nat) (completion : Completion)
  | closeConnection (port : Nat)
  | stop
deriving DecidableEq, Repr

namespace SocketServer

def new : SocketServer := ⟨11235, [], ∅, false⟩

/-- `unordered_map::emplace`, which leaves an entry that is there. -/
def emplace (connections : AList fun _ : Nat => Nat) (key number : Nat) :
    AList fun _ : Nat => Nat :=
  if key ∈ connections then connections else connections.insert key number

/-- `SocketServer::exists_connection`. -/
def existsConnection (server : SocketServer) (port : Nat) : Bool :=
  (server.connections.lookup port).isSome

/-- `SocketServer::remove_connection`. -/
def removeConnection (server : SocketServer) (port : Nat) : SocketServer :=
  { server with connections := server.connections.erase port }

/-- The handler of an accept. -/
def accept (server : SocketServer) (failed : Bool) : SocketServer :=
  if failed then server
  else
    { server with
      accepted := server.accepted ++ [Connection.start server.port]
      connections := emplace server.connections server.port server.accepted.length }

/-- `SocketServer::close_connection`.  `at` throws for a port that is not in the
pool; otherwise `remove_connection` waits for the mutex that is held here. -/
def closeConnection (server : SocketServer) (port : Nat) : SocketServer :=
  match server.connections.lookup port with
  | none => server
  | some number =>
      { server with
        accepted := server.accepted.modify number Connection.stop
        deadlocked := true }

/-- `SocketServer::stop`. -/
def stop (server : SocketServer) : SocketServer :=
  { server with
    accepted := server.connections.entries.foldl
      (fun accepted entry => accepted.modify entry.2 Connection.stop) server.accepted
    connections := ∅ }

/-- A handler of connection `number` has run. -/
def completed (server : SocketServer) (number : Nat) (result : Connection × Bool) :
    SocketServer :=
  let server := { server with accepted := server.accepted.set number result.1 }
  if result.2 then server.removeConnection result.1.connId else server

def next : ServerAction → SocketServer → Option SocketServer
  | action, server =>
      if server.deadlocked then none
      else
        match action with
        | .accept failed => some (server.accept failed)
        | .completion number completion => do
            let conn ← server.accepted[number]?
            let result ← conn.handle completion
            some (server.completed number result)
        | .closeConnection port => some (server.closeConnection port)
        | .stop => some server.stop

end SocketServer

end PpiwTrading.Network
