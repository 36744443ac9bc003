import Scripting.Machine

/-!
# Built-in functions and host classes

The functions and classes that every program finds. They never end in a fault: what fails is noted
in the log and gives `nil`.

A socket or a server that belongs to an abandoned instance is closed. That is made up for before the
first operation that would notice.
-/

namespace Scripting

namespace Builtin

/-- Log that something failed, and give `nil`. -/
def refuse (message : String) : Exec Value := do
  Exec.log .error .native message
  return .nil

/-- The time in seconds. -/
def readClock : Exec Value := do
  let now ← modifyGet fun m => (m.time, { m with time := m.time + 1 })
  return .number (now.toFloat / 1000.0)

/-- The next line of input without its end, or `nil`. -/
def readInput : Exec Value := do
  let read ← modifyGet fun m =>
    let (read, rest) := readLine m.input
    (read, { m with input := rest })
  match read with
  | .text line => return .text line
  | .ended =>
    Exec.log .debug .native "input: end of stream"
    return .nil
  | .undecodable => refuse "input: stream did not contain valid UTF-8"

/-- The displayed text of a value, backwards. -/
def reverseText (value : Value) : Exec Value := do
  let text := (← Exec.store).display value
  return .text (String.ofList text.toList.reverse)

/-- Run a built-in function. -/
def run : Builtin → List Value → Exec Value
  | .clock, _ => readClock
  | .input, _ => readInput
  | .reverse, arguments => reverseText (arguments.headD (.text ""))

end Builtin

/-- The port that a value names: a whole number below `2 ^ 16`. -/
def Value.port? : Value → Option Nat
  | .number x =>
    let port := x.toUInt16
    if port.toFloat == x then some port.toNat else none
  | _ => none

namespace HostClass

/-- A new instance that stands for something outside of the program. -/
def instantiate (classId : ClassId) (handle : Handle) : Exec Value := do
  let id ← Exec.updateStore (·.addInstance ⟨classId, [], some handle⟩)
  return .instanceRef id

/-- What a failure to connect adds to its message. -/
def failureSuffix : Network.ConnectFailure → String
  | .unknownName =>
    ": failed to lookup address information: Temporary failure in name resolution"
  | .unreachable => ""

/-- Connect to an address and a port. -/
def connect (classId : ClassId) (address : String) (port : Nat) : Exec Value := do
  modify (·.releaseAbandoned [])
  let place := address ++ ":" ++ toString port
  match (← get).network.connect address port with
  | .error failure =>
    Builtin.refuse ("Socket: cannot connect to " ++ place ++ failureSuffix failure)
  | .ok (endpoint, network) =>
    modify ({ · with network })
    Exec.log .debug .native ("Socket: connected to " ++ place)
    instantiate classId (.socket endpoint)

/-- Listen on a port. -/
def listen (classId : ClassId) (port : Nat) : Exec Value := do
  if (← get).network.isTaken port then
    modify (·.releaseAbandoned [])
  match (← get).network.listen port with
  | none => Builtin.refuse ("ServerSocket: cannot listen on port " ++ toString port)
  | some (listener, network) =>
    modify ({ · with network })
    Exec.log .debug .native ("ServerSocket: listening on port " ++ toString port)
    instantiate classId (.server listener)

/-- Construct an instance of a host class. -/
def construct (host : HostClass) (classId : ClassId) (arguments : List Value) : Exec Value := do
  match host with
  | .socket =>
    match arguments with
    | [.text address, port] =>
      if let some port := port.port? then
        return ← connect classId address port
    | _ => pure ()
    let shown := (← Exec.store).inspectList arguments
    Builtin.refuse ("Socket: expected an address string and a port number, got " ++ shown)
  | .serverSocket =>
    match arguments.head?.bind Value.port? with
    | some port => listen classId port
    | none =>
      let shown := (← Exec.store).inspectList arguments
      Builtin.refuse ("ServerSocket: expected a port number, got " ++ shown)

end HostClass

namespace HostMethod

/-- What an instance stands for. -/
def handle? (receiver : InstanceId) : Exec (Option Handle) := do
  return ((← Exec.store).instances[receiver]?).bind Instance.handle

/-- Send the displayed text of a value as a line. -/
def sendLine (receiver : InstanceId) (value : Value) : Exec Value := do
  modify (·.releaseAbandoned [.instanceRef receiver, value])
  let text := (← Exec.store).display value
  match ← handle? receiver with
  | some (.socket endpoint) =>
    let taken ← modifyGet fun m =>
      let (taken, network) := m.network.writeAll endpoint [text.toUTF8.toList, [lineFeed]]
      (taken, { m with network })
    if taken then return .nil else Builtin.refuse "Socket.send"
  | _ => Builtin.refuse "Socket.send: socket is closed"

/-- Receive a line. There is no waiting for one that has not arrived: the result is `nil` at
once. -/
def receiveLine (receiver : InstanceId) : Exec Value := do
  match ← handle? receiver with
  | some (.socket endpoint) =>
    let read ← modifyGet fun m =>
      let (read, network) := m.network.readLine endpoint
      (read, { m with network })
    match read with
    | .text line => return .text line
    | .ended => Builtin.refuse "Socket.receive: connection closed by peer"
    | .undecodable => Builtin.refuse "Socket.receive: stream did not contain valid UTF-8"
  | _ => Builtin.refuse "Socket.receive: socket is closed"

/-- Close a socket; closing it again does nothing. -/
def closeSocket (receiver : InstanceId) : Exec Value := do
  let handle ← handle? receiver
  Exec.changeStore (·.setHandle receiver none)
  match handle with
  | some (.socket endpoint) =>
    let connected ← modifyGet fun m =>
      let (connected, network) := m.network.close endpoint
      (connected, { m with network })
    if connected then return .nil else Builtin.refuse "Socket.close"
  | _ => return .nil

/-- Accept a connection. There is no waiting for one: if none has come, the result is `nil` at
once. -/
def acceptConnection (receiver : InstanceId) : Exec Value := do
  match ← handle? receiver with
  | some (.server listener) =>
    match (← get).network.accept listener with
    | some (endpoint, network) =>
      modify ({ · with network })
      HostClass.instantiate Machine.socketClass (.socket endpoint)
    | none => Builtin.refuse "ServerSocket.accept"
  | _ => Builtin.refuse "ServerSocket.accept: server socket is not listening"

/-- Run a host method. -/
def run (method : HostMethod) (receiver : InstanceId) (arguments : List Value) : Exec Value :=
  match method with
  | .send => sendLine receiver (arguments.headD (.text ""))
  | .receive => receiveLine receiver
  | .close => closeSocket receiver
  | .accept => acceptConnection receiver

end HostMethod

end Scripting
