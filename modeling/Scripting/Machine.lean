import Scripting.Console
import Scripting.Fault
import Scripting.Journal
import Scripting.Network
import Scripting.Resolution
import Scripting.Store.Members
import Scripting.Store.References
import Scripting.Store.Text

/-!
# The machine

The state that a program runs on, and the actions that programs are made of. An action changes the
machine and gives a result, ends in a fault, or runs out of the steps it was given; what it changed
before that stays changed.
-/

namespace Scripting

/-- The state that a program runs on. -/
structure Machine where
  store : Store
  /-- The frame that new variables go to. -/
  scope : FrameId
  /-- What is in use besides: the scopes that are to be come back to, and the values that
  expressions under way still need. -/
  held : List Reference
  /-- The distances of the local references in all programs so far. -/
  distances : Distances
  sink : Sink
  /-- The input that was not read yet. -/
  input : List UInt8
  network : Network
  /-- The time, in thousandths of a second; every look at the clock takes one. -/
  time : Nat
  journal : Journal

/-- Why an action gives no result. -/
inductive Stop where
  | fault (fault : Fault)
  /-- There were too few steps. -/
  | exhausted

/-- Actions on the machine. -/
abbrev Exec := EStateM Stop Machine

namespace Machine

/-- The frame of the global variables. -/
def globals : FrameId :=
  0

/-- The class of sockets. -/
def socketClass : ClassId :=
  0

/-- The class of server sockets. -/
def serverSocketClass : ClassId :=
  1

/-- The class that stands for a host class. -/
def classOfHost (host : HostClass) : Class :=
  ⟨host.name, [], [], [], some host⟩

/-- The store that every program finds: the built-in functions and classes as global variables. -/
def builtins : Store where
  frames := #[⟨.globals, [],
    [("clock", some (.callable 0)), ("input", some (.callable 1)), ("reverse", some (.callable 2)),
     ("Socket", some (.classRef socketClass)),
     ("ServerSocket", some (.classRef serverSocketClass))]⟩]
  callables := #[.builtin .clock, .builtin .input, .builtin .reverse]
  classes := #[classOfHost .socket, classOfHost .serverSocket]
  instances := #[]

/-- A machine on which nothing has run yet. -/
def start (sink : Sink) (input : List UInt8) (network : Network) (time : Nat) : Machine where
  store := builtins
  scope := globals
  held := []
  distances := .empty
  sink
  input
  network
  time
  journal := #[]

/-- Add a log message. -/
def log (m : Machine) (level : LogLevel) (target : LogTarget) (message : String) : Machine :=
  { m with journal := m.journal.push (.log level target message) }

/-- Report an error in the program. -/
def report (m : Machine) (line : String) : Machine :=
  { m with journal := m.journal.push (.report line) }

/-- Keep a distance that was found. -/
def recordDistance (m : Machine) (id : NodeId) (distance : Nat) : Machine :=
  let message := "resolved ExprId(" ++ toString id ++ ") at distance " ++ toString distance
  { m.log .trace .interpreter message with distances := m.distances.record id distance }

/-- Keep everything that resolving a program found. -/
def recordResolution (m : Machine) (r : Resolution) : Machine :=
  let m := r.found.foldl (fun m (id, distance) => m.recordDistance id distance) m
  m.log .debug .resolver
    ("resolver: " ++ toString r.found.size ++ " local references, " ++ toString r.errors.size
      ++ " errors")

/-- What is in use: the global variables, the current scope and what is held. -/
def roots (m : Machine) : List Reference :=
  .frame globals :: .frame m.scope :: m.held

/-- Take from an instance what it stands for, and close that. -/
def release (m : Machine) (i : InstanceId) (handle : Handle) : Machine :=
  let network :=
    match handle with
    | .socket endpoint => (m.network.close endpoint).2
    | .server listener => m.network.closeListener listener
  { m with store := m.store.setHandle i none, network }

/-- Release whatever belongs to abandoned instances; the given values are in use, too. -/
def releaseAbandoned (m : Machine) (values : List Value) : Machine :=
  let roots := values.flatMap Value.references ++ m.roots
  (m.store.abandonedHandles roots).foldl (fun m (i, handle) => m.release i handle) m

end Machine

namespace Exec

variable {α : Type}

/-- End in a fault. -/
def fail (cause : Cause) (line : Nat) : Exec α :=
  throw (.fault ⟨cause, line⟩)

/-- The result, or a fault on the given line. -/
def ofExcept (line : Nat) : Except Cause α → Exec α
  | .ok a => pure a
  | .error cause => fail cause line

/-- The store. -/
@[inline] def store : Exec Store := do
  return (← get).store

/-- Change the store. -/
@[inline] def changeStore (change : Store → Store) : Exec Unit :=
  modify fun ⟨store, scope, held, distances, sink, input, network, time, journal⟩ =>
    ⟨change store, scope, held, distances, sink, input, network, time, journal⟩

/-- Change the store and give what comes out of it. -/
@[inline] def updateStore (update : Store → α × Store) : Exec α :=
  modifyGet fun ⟨store, scope, held, distances, sink, input, network, time, journal⟩ =>
    let (a, store) := update store
    (a, ⟨store, scope, held, distances, sink, input, network, time, journal⟩)

/-- Add a log message. -/
def log (level : LogLevel) (target : LogTarget) (message : String) : Exec Unit :=
  modify (·.log level target message)

/-- Do something on a machine that was prepared for it; scope and what is held are as before
afterwards, however that ends. -/
@[inline] def bracket (prepare : Machine → Machine) (body : Exec α) : Exec α := fun m =>
  let scope := m.scope
  let held := m.held
  match body (prepare m) with
  | .ok a m => .ok a { m with scope, held }
  | .error stop m => .error stop { m with scope, held }

/-- Do something with another frame as the scope. -/
@[inline] def within (frame : FrameId) (body : Exec α) : Exec α :=
  bracket (fun m => { m with scope := frame, held := .frame m.scope :: m.held }) body

/-- Do something while a value is still needed. -/
@[inline] def holding (value : Value) (body : Exec α) : Exec α :=
  bracket (fun m => { m with held := value.references ++ m.held }) body

/-- Print a line; `line` is where the program says so. -/
def print (text : String) (line : Nat) : Exec Unit := do
  let taken ← modifyGet fun m =>
    let (taken, sink) := m.sink.writeLine text
    (taken, { m with sink })
  if taken then pure () else fail .outputFull line

end Exec

end Scripting
