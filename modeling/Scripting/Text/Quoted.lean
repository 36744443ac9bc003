import Scripting.Text.Printable

/-!
# Quoted text

A text in double quotes, with every character that could break the quoting or would leave no mark
written as an escape. Tab, line feed, carriage return, NUL, the backslash and the double quote have
short escapes; other unprintable characters are written by their code point in hexadecimal.
-/

namespace Scripting.Text

/-- The lower-case hexadecimal digits of a number, without leading zeros. -/
def hexDigits (n : Nat) : List Char :=
  Nat.toDigits 16 n

/-- How one character stands inside double quotes. -/
def escapeChar (c : Char) : List Char :=
  if c = '"' then ['\\', '"']
  else if c = '\\' then ['\\', '\\']
  else if c = '\t' then ['\\', 't']
  else if c = '\n' then ['\\', 'n']
  else if c = '\r' then ['\\', 'r']
  else if c.toNat = 0 then ['\\', '0']
  else if isPrintable c then [c]
  else ['\\', 'u', '{'] ++ hexDigits c.toNat ++ ['}']

/-- The inside of a quoted text. -/
def escape (text : List Char) : List Char :=
  text.flatMap escapeChar

/-- A text in double quotes. -/
def quoted (text : String) : String :=
  String.ofList ('"' :: (escape text.toList ++ ['"']))

end Scripting.Text
