/-!
# Binary doubles as natural numbers

Every finite double is a whole multiple of `2 ^ (-1074)`. A magnitude is therefore a natural
number of such *units*, and the bits of a double below its sign bit, its *code*, list the
magnitudes in increasing order. Everything here is exact arithmetic on natural numbers: the units
of a code, and the code nearest to a fraction.
-/

namespace Scripting.Decimal

/-- How many units make one. -/
def unitsPerOne : Nat :=
  Nat.pow 2 1074

/-- The leading bit of the significand of a normal double, which its code leaves unwritten. -/
def hiddenBit : Nat :=
  Nat.pow 2 52

/-- The sign bit of a double, above its code. -/
def signBit : Nat :=
  Nat.pow 2 63

/-- The code of infinity; the codes below it are the finite magnitudes, in increasing order. -/
def infinityCode : Nat :=
  2047 * hiddenBit

/-- The whole significand of a code, with the hidden bit of normal codes. -/
def significand (code : Nat) : Nat :=
  if code < hiddenBit then code else hiddenBit + code % hiddenBit

/-- The magnitude of a code, in units. -/
def units (code : Nat) : Nat :=
  significand code * Nat.pow 2 (code / hiddenBit - 1)

/-- A quotient rounded to the nearest natural number, a half going to the even neighbour. -/
def roundHalfEven (num den : Nat) : Nat :=
  let low := num / den
  let twice := 2 * (num % den)
  if twice < den then low
  else if den < twice then low + 1
  else low + low % 2

/-- The code nearest to `num / den`; between two equally near ones the even code is taken, and
magnitudes beyond the largest finite one give infinity. -/
def nearestCode (num den : Nat) : Nat :=
  let scaled := num * unitsPerOne
  let shift := (scaled / den).log2 - 52
  min infinityCode (shift * hiddenBit + roundHalfEven scaled (den * Nat.pow 2 shift))

/-- The double of a code, with the sign left positive. -/
def floatOfCode (code : Nat) : Float :=
  Float.ofBits (UInt64.ofNat code)

/-- The code of a double: its bits without the sign. -/
def codeOfFloat (x : Float) : Nat :=
  x.toBits.toNat % signBit

/-- A double has the sign bit set. -/
def isNegative (x : Float) : Bool :=
  signBit ≤ x.toBits.toNat

/-- The value of a list of decimal digits. -/
def digitsValue (digits : List Char) : Nat :=
  digits.foldl (fun value digit => 10 * value + (digit.toNat - '0'.toNat)) 0

/-- The double nearest to a decimal with the given digits before and after the point. -/
def ofDigits (whole fraction : List Char) : Float :=
  floatOfCode (nearestCode (digitsValue (whole ++ fraction)) (Nat.pow 10 fraction.length))

end Scripting.Decimal
