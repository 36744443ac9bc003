import Scripting.Literal

/-!
# Values

What expressions evaluate to. Functions, classes and instances live in a store; a value names them
by where they are in it, so two of them are the same value exactly if they were created at the same
moment.
-/

namespace Scripting

/-- The place of a frame in a store. -/
abbrev FrameId := Nat

/-- The place of a callable in a store. -/
abbrev CallableId := Nat

/-- The place of a class in a store. -/
abbrev ClassId := Nat

/-- The place of an instance in a store. -/
abbrev InstanceId := Nat

/-- The values of the language. -/
inductive Value where
  | nil
  | bool (b : Bool)
  | number (x : Float)
  | text (s : String)
  | callable (id : CallableId)
  | classRef (id : ClassId)
  | instanceRef (id : InstanceId)

instance : Inhabited Value := ⟨.nil⟩

/-- The value of a literal. -/
def Literal.toValue : Literal → Value
  | .nil => .nil
  | .bool b => .bool b
  | .number x => .number x
  | .text s => .text s

namespace Value

/-- Everything but `nil` and `false` counts as true. -/
def isTruthy : Value → Bool
  | .nil => false
  | .bool b => b
  | _ => true

/-- The equality of the language. Numbers are equal if they have the same bits, so that a number
that is none equals itself and the two zeros differ. -/
def same : Value → Value → Bool
  | .nil, .nil => true
  | .bool a, .bool b => a == b
  | .number a, .number b => a.toBits == b.toBits
  | .text a, .text b => a == b
  | .callable a, .callable b => a == b
  | .classRef a, .classRef b => a == b
  | .instanceRef a, .instanceRef b => a == b
  | _, _ => false

end Value

end Scripting
