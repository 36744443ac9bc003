import Scripting.Console

/-!
# The loopback network

Listeners and connections within one machine. A connection has two endpoints; bytes written at one
arrive at the other at once, in order. An endpoint is read line by line through a buffer that takes
over arrived bytes in pieces.

Closing an endpoint ends the stream of its peer: the peer still reads what has arrived. It also
resets the peer if arrived bytes had not been taken over. The first bytes written to an endpoint
that is closed are lost and reset the writer; a reset endpoint refuses further writes.

A machine that is cut off from every network, itself included, can take ports but makes no
connection.
-/

namespace Scripting

/-- One end of a connection. -/
structure Endpoint where
  /-- The other end. -/
  peer : Nat
  /-- The bytes that arrived and were not read yet. -/
  arrived : List UInt8
  /-- How many of them the buffer has taken over. -/
  buffered : Nat
  isClosed : Bool
  isReset : Bool

/-- A port that accepts connections. -/
structure Listener where
  port : Nat
  isOpen : Bool
  /-- The endpoints that wait to be accepted, the first come first. -/
  waiting : List Nat

/-- Listeners and endpoints, by place, in the order of creation. -/
structure Network where
  /-- The machine reaches its own addresses. -/
  hasLoopback : Bool
  listeners : Array Listener
  endpoints : Array Endpoint

namespace Network

/-- The network of a machine that reaches itself. -/
def loopback : Network :=
  ⟨true, #[], #[]⟩

/-- The network of a machine that is cut off. -/
def isolated : Network :=
  ⟨false, #[], #[]⟩

/-- The most bytes that a buffer takes over at once. -/
def bufferSize : Nat :=
  8192

/-- The listener on a port. -/
def listenerOn? (n : Network) (port : Nat) : Option Nat :=
  n.listeners.findIdx? fun l => l.isOpen && l.port = port

/-- A port has a listener already. Port zero stands for a free one that nobody knows, so it is never
taken. -/
def isTaken (n : Network) (port : Nat) : Bool :=
  port ≠ 0 && (n.listenerOn? port).isSome

/-- Listen on a port. -/
def listen (n : Network) (port : Nat) : Option (Nat × Network) :=
  if n.isTaken port then none
  else some (n.listeners.size, { n with listeners := n.listeners.push ⟨port, true, []⟩ })

/-- A text is a number below 256 in plain decimal digits. -/
def isByteText (part : String) : Bool :=
  match part.toList with
  | [] => false
  | c :: rest =>
    (c :: rest).all Char.isDigit && rest.length ≤ 2 && (c ≠ '0' || rest = [])
      && (c :: rest).foldl (fun value d => 10 * value + (d.toNat - '0'.toNat)) 0 ≤ 255

/-- An address that leads back to the same machine. -/
def isLoopback (address : String) : Bool :=
  address = "localhost" || address = "0.0.0.0" ||
    match address.splitOn "." with
    | [a, b, c, d] => a = "127" && isByteText b && isByteText c && isByteText d
    | _ => false

/-- An address in digits, or the name that every machine has for itself; other names have to be
looked up. -/
def isKnownAddress (address : String) : Bool :=
  isLoopback address ||
    (match address.splitOn "." with
    | [a, b, c, d] => [a, b, c, d].all isByteText
    | _ => false) ||
    (address.contains ':' &&
      address.all fun c =>
        c.isDigit || c = ':' || c = '.' || ('a' ≤ c && c ≤ 'f') || ('A' ≤ c && c ≤ 'F'))

/-- Why no connection is made. -/
inductive ConnectFailure where
  /-- The name of the address could not be looked up: there is nobody to ask. -/
  | unknownName
  /-- Nobody listens there, or there is no way there. -/
  | unreachable
deriving DecidableEq

/-- Connect to a listener; its end of the connection waits there to be accepted. -/
def connect (n : Network) (address : String) (port : Nat) :
    Except ConnectFailure (Nat × Network) :=
  if !isKnownAddress address then .error .unknownName
  else if port = 0 || !n.hasLoopback || !isLoopback address then .error .unreachable
  else
    match n.listenerOn? port with
    | none => .error .unreachable
    | some listener =>
      let near := n.endpoints.size
      let far := near + 1
      let endpoint (peer : Nat) : Endpoint := ⟨peer, [], 0, false, false⟩
      .ok (near,
        { n with
          listeners := n.listeners.modify listener fun l => { l with waiting := l.waiting ++ [far] }
          endpoints := (n.endpoints.push (endpoint far)).push (endpoint near) })

/-- Take the connection that has waited longest at a listener. A real listener waits until there is
one; here nobody else runs in the meantime, and it is told at once that there is none. -/
def accept (n : Network) (listener : Nat) : Option (Nat × Network) :=
  match (n.listeners[listener]?).map Listener.waiting with
  | some (endpoint :: rest) =>
    some (endpoint,
      { n with listeners := n.listeners.modify listener fun l => { l with waiting := rest } })
  | _ => none

/-- Write bytes at an endpoint, and whether they were taken. -/
def write (n : Network) (endpoint : Nat) (bytes : List UInt8) : Bool × Network :=
  match n.endpoints[endpoint]? with
  | none => (false, n)
  | some near =>
    if bytes = [] then (true, n)
    else if near.isReset then (false, n)
    else
      match n.endpoints[near.peer]? with
      | none => (false, n)
      | some far =>
        if far.isClosed then
          (true,
            { n with endpoints := n.endpoints.modify endpoint fun e => { e with isReset := true } })
        else
          (true,
            { n with
              endpoints := n.endpoints.modify near.peer fun e =>
                { e with arrived := e.arrived ++ bytes } })

/-- Write pieces one after the other, up to the first one that is refused. -/
def writeAll (n : Network) (endpoint : Nat) : List (List UInt8) → Bool × Network
  | [] => (true, n)
  | piece :: rest =>
    match n.write endpoint piece with
    | (true, n) => n.writeAll endpoint rest
    | (false, n) => (false, n)

/-- How many bytes are buffered when a line of the given length has been read, of `total` bytes that
had arrived. -/
def bufferedAfter (buffered length total : Nat) : Nat :=
  let refills := (length - buffered + (bufferSize - 1)) / bufferSize
  min total (buffered + refills * bufferSize) - length

/-- Read a line at an endpoint. Where a real one waits for more bytes, as long as its peer is open,
this one makes do at once with what has arrived: a line without its end, or nothing at all. -/
def readLine (n : Network) (endpoint : Nat) : LineRead × Network :=
  match n.endpoints[endpoint]? with
  | none => (.ended, n)
  | some near =>
    let (line, after) := splitLine near.arrived
    let buffered := bufferedAfter near.buffered line.length near.arrived.length
    let n :=
      { n with
        endpoints := n.endpoints.modify endpoint fun e => { e with arrived := after, buffered } }
    ((Scripting.readLine near.arrived).1, n)

/-- Close an endpoint, and whether it was still connected. -/
def close (n : Network) (endpoint : Nat) : Bool × Network :=
  match n.endpoints[endpoint]? with
  | none => (false, n)
  | some near =>
    let unread := near.buffered < near.arrived.length
    let closed := n.endpoints.modify endpoint fun e => { e with isClosed := true }
    let endpoints :=
      if unread && !near.isReset then
        closed.modify near.peer fun e => { e with isReset := true }
      else closed
    (!near.isReset, { n with endpoints })

/-- Stop listening: the port is free again, and the connections that wait there are closed. -/
def closeListener (n : Network) (listener : Nat) : Network :=
  let waiting := ((n.listeners[listener]?).map Listener.waiting).getD []
  let n := waiting.foldl (fun n endpoint => (n.close endpoint).2) n
  { n with
    listeners := n.listeners.modify listener fun l => { l with isOpen := false, waiting := [] } }

end Network

end Scripting
