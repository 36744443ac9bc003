import Scripting.Store.Frames

/-!
# Members of classes and instances

A property of an instance is a field, a getter, a method or a host method, looked for in this
order. Getters and methods are looked for from the class of the instance upwards and come bound to
the instance: they get a frame of their own that holds it as `this`.
-/

namespace Scripting

namespace Store

/-- A class and its ancestors, the most derived first. -/
def lineage (s : Store) (c : ClassId) : List ClassId :=
  c :: ((s.classes[c]?).map Class.ancestors).getD []

/-- The method of a name in the nearest class of a lineage that declares one. -/
def findMethod? (s : Store) (c : ClassId) (name : String) : Option Function :=
  (s.lineage c).findSome? fun k => (s.classes[k]?).bind fun cls => cls.methods.get? name

/-- The getter of a name in the nearest class of a lineage that declares one. -/
def findGetter? (s : Store) (c : ClassId) (name : String) : Option Getter :=
  (s.lineage c).findSome? fun k => (s.classes[k]?).bind fun cls => cls.getters.get? name

/-- The host method of a name; a class does not pass these on. -/
def findHostMethod? (s : Store) (c : ClassId) (name : String) : Option HostMethod :=
  (s.classes[c]?).bind fun cls => cls.host.bind (·.method? name)

/-- The name under which classes have their initializer. -/
def initializerName : String :=
  "init"

/-- The number of arguments that constructing an instance takes. -/
def classArity (s : Store) (c : ClassId) : Nat :=
  match (s.classes[c]?).bind Class.host with
  | some host => host.arity
  | none => ((s.findMethod? c initializerName).map (·.declaration.params.length)).getD 0

/-- Make a function a value. -/
def addFunction (s : Store) (f : Function) : Value × Store :=
  let (id, s) := s.addCallable (.function f)
  (.callable id, s)

/-- Make a getter a value. -/
def addGetter (s : Store) (g : Getter) : Value × Store :=
  let (id, s) := s.addCallable (.getter g)
  (.callable id, s)

/-- A frame inside of a closure that holds the receiver of a method. -/
def openReceiver (s : Store) (closure : FrameId) (receiver : Value) : FrameId × Store :=
  s.openFrame .receiver closure [("this", some receiver)]

/-- A method with its receiver. -/
def bindFunction (s : Store) (f : Function) (receiver : Value) : Function × Store :=
  let (frame, s) := s.openReceiver f.closure receiver
  ({ f with closure := frame }, s)

/-- A getter with its receiver. -/
def bindGetter (s : Store) (g : Getter) (receiver : Value) : Getter × Store :=
  let (frame, s) := s.openReceiver g.closure receiver
  ({ g with closure := frame }, s)

/-- The property of an instance under a name. -/
def property (s : Store) (i : InstanceId) (name : String) : Except Cause Value × Store :=
  match s.instances[i]? with
  | none => (.error (.undefinedProperty name), s)
  | some inst =>
    match inst.fields.get? name with
    | some value => (.ok value, s)
    | none =>
      match s.findGetter? inst.classId name with
      | some getter =>
        let (bound, s) := s.bindGetter getter (.instanceRef i)
        let (value, s) := s.addGetter bound
        (.ok value, s)
      | none =>
        match s.findMethod? inst.classId name with
        | some method =>
          let (bound, s) := s.bindFunction method (.instanceRef i)
          let (value, s) := s.addFunction bound
          (.ok value, s)
        | none =>
          match s.findHostMethod? inst.classId name with
          | some method =>
            let (id, s) := s.addCallable (.hostMethod method i)
            (.ok (.callable id), s)
          | none => (.error (.undefinedProperty name), s)

/-- Set a field of an instance. -/
def setField (s : Store) (i : InstanceId) (name : String) (value : Value) : Store :=
  { s with
    instances := s.instances.modify i fun inst =>
      { inst with fields := inst.fields.insert name value } }

/-- Set what an instance stands for outside of the program. -/
def setHandle (s : Store) (i : InstanceId) (handle : Option Handle) : Store :=
  { s with instances := s.instances.modify i fun inst => { inst with handle } }

/-- A value is a getter, which runs when it is read as a property. -/
def getter? (s : Store) : Value → Option Getter
  | .callable id =>
    match s.callables[id]? with
    | some (.getter g) => some g
    | _ => none
  | _ => none

end Store

end Scripting
