import Scripting.Store
import Scripting.Text.Quoted

/-!
# The text of values

How values are written: the display form that scripts print, and the inspect form, which shows what
a value is made of.
-/

namespace Scripting

/-- What a script prints for a callable. -/
def Callable.display : Callable → String
  | .function f => "<fn " ++ f.declaration.name.lexeme ++ ">"
  | .getter g => "<getter " ++ g.declaration.name.lexeme ++ ">"
  | .builtin b => "<native fn " ++ b.name ++ ">"
  | .hostMethod m _ => "<native fn " ++ m.name ++ ">"

/-- A name with its parts in braces. -/
def inspectParts (name : String) (parts : List (String × String)) : String :=
  let body := ", ".intercalate (parts.map fun (label, shown) => label ++ ": " ++ shown)
  name ++ " \x7b " ++ body ++ " \x7d"

/-- A record in braces, each name quoted. -/
def inspectRecord {α : Type} (inspect : α → String) (record : Record α) : String :=
  let entries := record.map fun (name, entry) => Text.quoted name ++ ": " ++ inspect entry
  "\x7b" ++ ", ".intercalate entries ++ "\x7d"

/-- What a function is made of. -/
def Function.inspect (f : Function) : String :=
  inspectParts "Function"
    [("name", Text.quoted f.declaration.name.lexeme),
     ("arity", toString f.declaration.params.length),
     ("is_initializer", if f.isInitializer then "true" else "false")]

/-- What a getter is made of. -/
def Getter.inspect (g : Getter) : String :=
  inspectParts "Getter" [("name", Text.quoted g.declaration.name.lexeme)]

/-- What a callable is made of. -/
def Callable.inspect : Callable → String
  | .function f => f.inspect
  | .getter g => g.inspect
  | .builtin .clock => "Clock"
  | .builtin .input => "Input"
  | .builtin .reverse => "Reverse"
  | .hostMethod m _ => inspectParts "BoundNativeMethod" [("name", Text.quoted m.name)]

/-- What a host class is made of. -/
def HostClass.inspect (host : HostClass) : String :=
  "Some(" ++ inspectParts "NativeClass" [("arity", toString host.arity)] ++ ")"

/-- What a class is made of, given what its superclass is made of. -/
def Class.inspect (c : Class) (superclass : String) : String :=
  inspectParts "Class"
    [("name", Text.quoted c.name),
     ("superclass", superclass),
     ("methods", inspectRecord Function.inspect c.methods),
     ("getters", inspectRecord Getter.inspect c.getters),
     ("native", (c.host.map HostClass.inspect).getD "None")]

namespace Store

/-- The name of a class. -/
def className (s : Store) (c : ClassId) : String :=
  ((s.classes[c]?).map Class.name).getD ""

/-- What a script prints for a value. -/
def display (s : Store) : Value → String
  | .nil => Literal.nil.display
  | .bool b => (Literal.bool b).display
  | .number x => (Literal.number x).display
  | .text t => t
  | .callable id => ((s.callables[id]?).map Callable.display).getD ""
  | .classRef c => s.className c
  | .instanceRef i =>
    ((s.instances[i]?).map fun inst => s.className inst.classId).getD "" ++ " instance"

/-- What the classes of a lineage are made of, the first one with the others inside it. -/
def inspectLineage (s : Store) : List ClassId → Option String
  | [] => none
  | c :: rest =>
    let superclass :=
      match inspectLineage s rest with
      | none => "None"
      | some shown => "Some(" ++ shown ++ ")"
    (s.classes[c]?).map (·.inspect superclass)

/-- What a class is made of. -/
def inspectClass (s : Store) (c : ClassId) : String :=
  (s.inspectLineage (c :: ((s.classes[c]?).map Class.ancestors).getD [])).getD ""

/-- What an instance is made of: its class and the names of its fields. -/
def inspectInstance (s : Store) (i : Instance) : String :=
  let fields := ", ".intercalate (i.fields.names.map Text.quoted)
  let inner := inspectParts "Instance"
    [("class", Text.quoted (s.className i.classId)), ("fields", "[" ++ fields ++ "]")]
  inspectParts "RefCell" [("value", inner)]

/-- A value with its kind and what it is made of. -/
def inspect (s : Store) : Value → String
  | .nil => Literal.nil.inspect
  | .bool b => (Literal.bool b).inspect
  | .number x => (Literal.number x).inspect
  | .text t => (Literal.text t).inspect
  | .callable id => "Callable(" ++ ((s.callables[id]?).map Callable.inspect).getD "" ++ ")"
  | .classRef c => "Class(" ++ s.inspectClass c ++ ")"
  | .instanceRef i => "Instance(" ++ ((s.instances[i]?).map s.inspectInstance).getD "" ++ ")"

/-- Values in brackets. -/
def inspectList (s : Store) (values : List Value) : String :=
  "[" ++ ", ".intercalate (values.map s.inspect) ++ "]"

end Store

end Scripting
