import Scripting.Decimal.Shortest

/-!
# Writing numbers

A number is written with its shortest digits, either positionally or as one leading digit with a
power of ten. A style says for which powers of ten the positional form is used and how the details
are spelled.
-/

namespace Scripting.Decimal

/-- The spelling of numbers. -/
structure Style where
  /-- The least power of ten of a leading digit that is written positionally. -/
  positionalFrom : Int
  /-- The least power of ten of a leading digit that is too large for the positional form. -/
  positionalBelow : Int
  /-- A whole number in positional form keeps a fraction of one zero. -/
  wholeFraction : Bool
  /-- A single digit before a power of ten is followed by a fraction of one zero. -/
  powerFraction : Bool
  /-- What stands before the power of ten. -/
  powerMark : Char
  /-- The text of infinity. -/
  infinity : String

/-- Digits in positional form, `power` being the power of ten of the first one. -/
def positional (style : Style) (digits : List Char) (power : Int) : List Char :=
  if power < 0 then
    ['0', '.'] ++ List.replicate ((-power).toNat - 1) '0' ++ digits
  else
    let wholeLength := power.toNat + 1
    let whole := digits.take wholeLength ++ List.replicate (wholeLength - digits.length) '0'
    match digits.drop wholeLength with
    | [] => if style.wholeFraction then whole ++ ['.', '0'] else whole
    | fraction => whole ++ '.' :: fraction

/-- Digits as one leading digit with a power of ten. -/
def withPower (style : Style) (digits : List Char) (power : Int) : List Char :=
  let fraction := digits.drop 1
  let point :=
    if fraction = [] then (if style.powerFraction then ['.', '0'] else []) else '.' :: fraction
  digits.take 1 ++ point ++ style.powerMark :: (toString power).toList

/-- The text of a finite magnitude. -/
def Style.magnitude (style : Style) (code : Nat) : List Char :=
  if code = 0 then positional style ['0'] 0
  else
    let d := shortest code
    let digits := Nat.toDigits 10 d.digits
    let power := d.place + (digits.length - 1 : Nat)
    if style.positionalFrom ≤ power ∧ power < style.positionalBelow then
      positional style digits power
    else withPower style digits power

/-- The text of a number. -/
def Style.text (style : Style) (x : Float) : String :=
  let code := codeOfFloat x
  if infinityCode < code then "NaN"
  else
    let sign := if isNegative x then ['-'] else []
    let body := if code = infinityCode then style.infinity.toList else style.magnitude code
    String.ofList (sign ++ body)

end Scripting.Decimal
