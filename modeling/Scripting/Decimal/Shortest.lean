import Scripting.Decimal.Binary

/-!
# Shortest decimals

The decimal with the fewest digits that reads back as a given double. The reals that round to a
double form an interval around it, whose ends lie halfway to its neighbours and belong to it when
its code is even. For one digit, then two, and so on, the two multiples of the digit's place that
enclose the double are tried; the first place with a hit wins, the nearer of two hits is taken, and
a tie goes upwards.
-/

namespace Scripting

/-- A decimal `digits * 10 ^ place`. -/
structure Decimal where
  digits : Nat
  place : Int
deriving DecidableEq

namespace Decimal

/-- Ten to the power of a place, as a fraction of natural numbers. -/
def placeValue (place : Int) : Nat × Nat :=
  (Nat.pow 10 place.toNat, Nat.pow 10 (-place).toNat)

/-- A decimal lies in the interval of the reals that round to the code. -/
def readsBack (code : Nat) (d : Decimal) : Bool :=
  let (num, den) := placeValue d.place
  let twice := 2 * d.digits * num * unitsPerOne
  let low := (units (code - 1) + units code) * den
  let high := (units code + units (code + 1)) * den
  if code % 2 = 0 then low ≤ twice && twice ≤ high else low < twice && twice < high

/-- The best of the two multiples of a place that enclose the code's magnitude, if one of them
reads back. -/
def atPlace (code : Nat) (place : Int) : Option Decimal :=
  let (num, den) := placeValue place
  let value := units code * den
  let step := unitsPerOne * num
  let below : Decimal := ⟨value / step, place⟩
  let above : Decimal := ⟨value / step + 1, place⟩
  match readsBack code below, readsBack code above with
  | true, true => if 2 * (value % step) < step then some below else some above
  | true, false => some below
  | false, true => some above
  | false, false => none

/-- The least number of factors ten, among the next `fuel` ones, that bring a fraction to one. -/
def raiseToOne (num den : Nat) : Nat → Nat → Nat
  | 0, count => count
  | fuel + 1, count =>
    if den ≤ num then count else raiseToOne (10 * num) den fuel (count + 1)

/-- The place of the leading decimal digit of a code's magnitude. -/
def leadingPlace (code : Nat) : Int :=
  let whole := units code / unitsPerOne
  if whole = 0 then -(raiseToOne (units code) unitsPerOne 325 0 : Nat)
  else ((Nat.toDigits 10 whole).length - 1 : Nat)

/-- Digits past the seventeenth are never needed to tell two doubles apart. -/
def maxDigits : Nat :=
  17

/-- A decimal without the zeros at its end, up to a number of them. -/
def dropZeros : Nat → Decimal → Decimal
  | 0, d => d
  | fuel + 1, d =>
    if d.digits ≠ 0 ∧ d.digits % 10 = 0 then dropZeros fuel ⟨d.digits / 10, d.place + 1⟩ else d

/-- The decimal with the fewest digits that reads back as the code, the nearest of those. -/
def shortest (code : Nat) : Decimal :=
  let lead := leadingPlace code
  let places := (List.range maxDigits).map fun (k : Nat) => lead - (k : Int)
  dropZeros maxDigits ((places.findSome? (atPlace code)).getD ⟨0, 0⟩)

end Decimal

end Scripting
