import Scripting.Text.Quoted
import Scripting.Decimal.Style

/-!
# Literals

The values that can be written down in a script: `nil`, booleans, numbers and texts. Each has two
written forms. The *display* form is what a script prints. The *inspect* form shows the kind of the
value as well, and quotes texts.
-/

namespace Scripting

/-- A value that can be written down in a script. -/
inductive Literal where
  | nil
  | bool (b : Bool)
  | number (x : Float)
  | text (s : String)

namespace Literal

/-- Printed numbers are positional from a thousandth up to below ten million, whole numbers without
a fraction, and otherwise have one digit before the point and at least one after it. -/
def displayStyle : Decimal.Style where
  positionalFrom := -3
  positionalBelow := 7
  wholeFraction := false
  powerFraction := true
  powerMark := 'E'
  infinity := "Infinity"

/-- Inspected numbers are positional from a ten-thousandth up to below `10 ^ 16`, always with a
fraction, and otherwise have no more digits than needed. -/
def inspectStyle : Decimal.Style where
  positionalFrom := -4
  positionalBelow := 16
  wholeFraction := true
  powerFraction := false
  powerMark := 'e'
  infinity := "inf"

/-- What a script prints for a literal. -/
def display : Literal → String
  | .nil => "nil"
  | .bool b => if b then "true" else "false"
  | .number x => displayStyle.text x
  | .text s => s

/-- A literal with its kind. -/
def inspect : Literal → String
  | .nil => "Null"
  | .bool b => "Boolean(" ++ (if b then "true" else "false") ++ ")"
  | .number x => "Number(" ++ inspectStyle.text x ++ ")"
  | .text s => "String(" ++ Text.quoted s ++ ")"

end Literal

end Scripting
