/-!
# Faults

What can go wrong while a program runs. A fault has a cause and the line it is blamed on; the cause
alone decides the wording.
-/

namespace Scripting

/-- The causes of faults. -/
inductive Cause where
  | operandNotNumber
  | operandsNotNumbers
  | operandsNotOrdered
  | operandsNotAddable
  | zeroDivision
  | unknownUnary
  | unknownBinary
  | undefinedVariable (name : String)
  | undefinedProperty (name : String)
  | uninitialized
  | notCallable
  | arityMismatch (expected got : Nat)
  | noProperties
  | noFields
  | superclassNotClass
  | strayBreak
  | outputFull
  /-- A local name is not where its distance says. -/
  | noBinding (name : String) (distance : Nat)
  /-- A `super` has no distance. -/
  | superUnresolved
  /-- A `super` is bound to something that is shown so, and is no class. -/
  | superNotClass (shown : String)
deriving DecidableEq

/-- The wording of a cause. -/
def Cause.text : Cause → String
  | .operandNotNumber => "Operand must be a number."
  | .operandsNotNumbers => "Operands must be numbers."
  | .operandsNotOrdered => "Both operands must be numbers, strings or booleans."
  | .operandsNotAddable => "Operands must be two numbers or two strings."
  | .zeroDivision => "Zero division error"
  | .unknownUnary => "Unknown unary operator."
  | .unknownBinary => "Unknown binary operator."
  | .undefinedVariable name => "Undefined variable '" ++ name ++ "'."
  | .undefinedProperty name => "Undefined property '" ++ name ++ "'."
  | .uninitialized => "Accessing undefined value."
  | .notCallable => "Can only call functions and classes."
  | .arityMismatch expected got =>
    "Expected " ++ toString expected ++ " arguments but got " ++ toString got ++ "."
  | .noProperties => "Only instances have properties."
  | .noFields => "Only instances have fields."
  | .superclassNotClass => "Superclass must be a class."
  | .strayBreak => "Unexpected break statement"
  | .outputFull => "Failed to write output: output is full"
  | .noBinding name distance =>
    "Internal error: No binding for '" ++ name ++ "' at distance " ++ toString distance
  | .superUnresolved => "Internal error: 'super' was not resolved"
  | .superNotClass shown => "Internal error: 'super' is bound to " ++ shown ++ ", not a class"

/-- A cause with the line it is blamed on. -/
structure Fault where
  cause : Cause
  line : Nat
deriving DecidableEq

/-- The line that reports a fault. -/
def Fault.report (fault : Fault) : String :=
  "[line " ++ toString fault.line ++ "] " ++ fault.cause.text

end Scripting
