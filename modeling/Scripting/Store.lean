import Scripting.Program
import Scripting.Record
import Scripting.Value

/-!
# The store

Everything that a running program creates and that outlives the expression that created it: the
frames that hold variables, and functions, classes and instances. Each kind has its own numbering,
in the order of creation, and nothing is ever removed.
-/

namespace Scripting

/-- A function, a method or a lambda together with the frame it was made in. -/
structure Function where
  declaration : FunctionDecl
  closure : FrameId
  isInitializer : Bool

/-- A getter together with the frame it was made in. -/
structure Getter where
  declaration : GetterDecl
  closure : FrameId

/-- The functions that are always there. -/
inductive Builtin where
  | clock | input | reverse
deriving DecidableEq

/-- The methods of instances that stand for something outside of the program. -/
inductive HostMethod where
  | send | receive | close | accept
deriving DecidableEq

/-- The classes whose instances stand for something outside of the program. -/
inductive HostClass where
  | socket | serverSocket
deriving DecidableEq

/-- What can be called, apart from classes. -/
inductive Callable where
  | function (function : Function)
  | getter (getter : Getter)
  | builtin (builtin : Builtin)
  | hostMethod (method : HostMethod) (receiver : InstanceId)

/-- A class. -/
structure Class where
  name : String
  /-- The superclass, its superclass, and so on. -/
  ancestors : List ClassId
  methods : Record Function
  getters : Record Getter
  host : Option HostClass

/-- What an instance stands for outside of the program. -/
inductive Handle where
  | socket (endpoint : Nat)
  | server (listener : Nat)
deriving DecidableEq

/-- An instance. -/
structure Instance where
  classId : ClassId
  fields : Record Value
  handle : Option Handle

/-- What a frame was opened for. -/
inductive FrameKind where
  | globals
  | block
  /-- A call of a function or a getter. -/
  | call
  /-- A method or a getter that is bound to an instance. -/
  | receiver
  /-- The members of a class that has a superclass. -/
  | superclass
deriving DecidableEq

/-- The variables of one scope. A variable without a value was declared and not assigned yet. -/
structure Frame where
  kind : FrameKind
  /-- The frames around this one, the nearest first. -/
  outer : List FrameId
  vars : Record (Option Value)

/-- Everything that a running program has created. -/
structure Store where
  frames : Array Frame
  callables : Array Callable
  classes : Array Class
  instances : Array Instance

namespace Builtin

/-- The name of a function that is always there. -/
def name : Builtin → String
  | .clock => "clock"
  | .input => "input"
  | .reverse => "reverse"

/-- The number of arguments that a built-in function takes. -/
def arity : Builtin → Nat
  | .clock => 0
  | .input => 0
  | .reverse => 1

end Builtin

namespace HostMethod

/-- The name of a host method. -/
def name : HostMethod → String
  | .send => "send"
  | .receive => "receive"
  | .close => "close"
  | .accept => "accept"

/-- The number of arguments that a host method takes. -/
def arity : HostMethod → Nat
  | .send => 1
  | .receive => 0
  | .close => 0
  | .accept => 0

end HostMethod

namespace HostClass

/-- The name of a host class. -/
def name : HostClass → String
  | .socket => "Socket"
  | .serverSocket => "ServerSocket"

/-- The number of arguments that a host class takes. -/
def arity : HostClass → Nat
  | .socket => 2
  | .serverSocket => 1

/-- The methods of the instances of a host class. -/
def methods : HostClass → List HostMethod
  | .socket => [.send, .receive, .close]
  | .serverSocket => [.accept]

/-- The method of a host class under a name. -/
def method? (host : HostClass) (name : String) : Option HostMethod :=
  host.methods.find? (·.name = name)

end HostClass

/-- The number of arguments that a callable takes. -/
def Callable.arity : Callable → Nat
  | .function f => f.declaration.params.length
  | .getter _ => 0
  | .builtin b => b.arity
  | .hostMethod m _ => m.arity

namespace Store

/-- A store without anything in it. -/
def empty : Store :=
  ⟨#[], #[], #[], #[]⟩

/-- The store with a new frame, and its place. -/
def addFrame (s : Store) (frame : Frame) : FrameId × Store :=
  (s.frames.size, { s with frames := s.frames.push frame })

/-- The store with a new callable, and its place. -/
def addCallable (s : Store) (callable : Callable) : CallableId × Store :=
  (s.callables.size, { s with callables := s.callables.push callable })

/-- The store with a new class, and its place. -/
def addClass (s : Store) (c : Class) : ClassId × Store :=
  (s.classes.size, { s with classes := s.classes.push c })

/-- The store with a new instance, and its place. -/
def addInstance (s : Store) (i : Instance) : InstanceId × Store :=
  (s.instances.size, { s with instances := s.instances.push i })

end Store

end Scripting
