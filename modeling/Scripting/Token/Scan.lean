import Scripting.Token

/-!
# Scanning

A text is cut into tokens from left to right. `itemAt` reads the longest item that starts with a
given character: a token, a stretch without meaning, or something that is no part of the language.
Every item takes at least one character, so `scanFrom`, which repeats this and counts the lines,
ends. Faults do not stop the scan; when there are any, they are the whole result.
-/

namespace Scripting

/-- What is wrong with a piece of text. -/
inductive ScanFault where
  | unexpectedCharacter
  | unterminatedText
deriving DecidableEq

/-- The wording of a scan fault. -/
def ScanFault.message : ScanFault → String
  | .unexpectedCharacter => "Unexpected character."
  | .unterminatedText => "Unterminated string."

/-- A fault with the line on which it was found. -/
structure ScanError where
  fault : ScanFault
  line : Nat
deriving DecidableEq

/-- The line that reports a scan error. -/
def ScanError.report (e : ScanError) : String :=
  complaint e.line "" e.fault.message

namespace Scan

/-- What can stand at the head of a text. -/
inductive Item where
  /-- A token with its lexeme. -/
  | token (kind : TokenKind) (lexeme : List Char) (literal : Option Literal)
  /-- A stretch without meaning, such as a blank, a line break or a comment. -/
  | gap (skipped : List Char)
  /-- Text that is no part of the language. -/
  | fault (fault : ScanFault) (skipped : List Char)

/-- A character that can start a word. -/
def isWordStart (c : Char) : Bool :=
  c.isAlpha || c = '_'

/-- A character that can go on a word. -/
def isWordRest (c : Char) : Bool :=
  isWordStart c || c.isDigit

/-- The item that consists of one symbol and nothing after it. -/
def symbol (kind : TokenKind) (c : Char) (rest : List Char) : Item × List Char :=
  (.token kind [c] none, rest)

/-- A symbol that a second character makes longer. -/
def symbolOr (second : Char) (long short : TokenKind) (c : Char) :
    List Char → Item × List Char
  | [] => (.token short [c] none, [])
  | d :: rest =>
    if d = second then (.token long [c, d] none, rest) else (.token short [c] none, d :: rest)

/-- A question mark, alone or with the colon or the dot after it. -/
def question (c : Char) : List Char → Item × List Char
  | ':' :: rest => (.token .elvis [c, ':'] none, rest)
  | '.' :: rest => (.token .questionDot [c, '.'] none, rest)
  | rest => (.token .question [c] none, rest)

/-- A division sign, or a comment up to the end of its line. -/
def slash (c : Char) : List Char → Item × List Char
  | '/' :: rest =>
    (.gap (c :: '/' :: rest.takeWhile (· ≠ '\n')), rest.dropWhile (· ≠ '\n'))
  | rest => (.token .slash [c] none, rest)

/-- A text up to its closing quote, which may be on a later line. -/
def quote (c : Char) (rest : List Char) : Item × List Char :=
  let body := rest.takeWhile (· ≠ '"')
  match rest.dropWhile (· ≠ '"') with
  | [] => (.fault .unterminatedText (c :: body), [])
  | close :: after =>
    (.token .textLiteral (c :: (body ++ [close])) (some (.text (String.ofList body))), after)

/-- A number: digits, and a fraction if a point with a digit follows. -/
def number (c : Char) (rest : List Char) : Item × List Char :=
  let whole := c :: rest.takeWhile Char.isDigit
  let plain (after : List Char) : Item × List Char :=
    (.token .number whole (some (.number (Decimal.ofDigits whole []))), after)
  match rest.dropWhile Char.isDigit with
  | '.' :: d :: after =>
    if d.isDigit then
      let fraction := d :: after.takeWhile Char.isDigit
      (.token .number (whole ++ '.' :: fraction)
        (some (.number (Decimal.ofDigits whole fraction))), after.dropWhile Char.isDigit)
    else plain ('.' :: d :: after)
  | after => plain after

/-- A word: a reserved one or an identifier. -/
def word (c : Char) (rest : List Char) : Item × List Char :=
  let lexeme := c :: rest.takeWhile isWordRest
  (.token (.ofWord (String.ofList lexeme)) lexeme none, rest.dropWhile isWordRest)

/-- The longest item that starts with `c`, and the text after it. -/
def itemAt (c : Char) (rest : List Char) : Item × List Char :=
  match c with
  | '(' => symbol .leftParen c rest
  | ')' => symbol .rightParen c rest
  | '{' => symbol .leftBrace c rest
  | '}' => symbol .rightBrace c rest
  | ',' => symbol .comma c rest
  | '.' => symbol .dot c rest
  | '-' => symbol .minus c rest
  | '+' => symbol .plus c rest
  | ';' => symbol .semicolon c rest
  | '*' => symbol .star c rest
  | ':' => symbol .colon c rest
  | '?' => question c rest
  | '!' => symbolOr '=' .bangEqual .bang c rest
  | '=' => symbolOr '=' .equalEqual .equal c rest
  | '<' => symbolOr '=' .lessEqual .less c rest
  | '>' => symbolOr '=' .greaterEqual .greater c rest
  | '/' => slash c rest
  | ' ' => (.gap [c], rest)
  | '\r' => (.gap [c], rest)
  | '\t' => (.gap [c], rest)
  | '\n' => (.gap [c], rest)
  | '"' => quote c rest
  | _ =>
    if c.isDigit then number c rest
    else if isWordStart c then word c rest
    else (.fault .unexpectedCharacter [c], rest)

theorem length_dropWhile_le (p : Char → Bool) (text : List Char) :
    (text.dropWhile p).length ≤ text.length := by
  induction text with
  | nil => simp
  | cons c rest ih =>
    rw [List.dropWhile_cons]
    split
    · exact Nat.le_succ_of_le ih
    · exact Nat.le_refl _

/-- An item leaves no more text than stood after its first character. -/
theorem length_itemAt_le (c : Char) (rest : List Char) :
    (itemAt c rest).2.length ≤ rest.length := by
  have drop := length_dropWhile_le
  have hOr : ∀ second long short, (symbolOr second long short c rest).2.length ≤ rest.length := by
    intro second long short
    unfold symbolOr
    split
    · simp
    · split <;> simp
  have hQuestion : (question c rest).2.length ≤ rest.length := by
    unfold question
    split <;> simp
  have hSlash : (slash c rest).2.length ≤ rest.length := by
    unfold slash
    split
    · exact Nat.le_succ_of_le (drop _ _)
    · exact Nat.le_refl _
  have hQuote : (quote c rest).2.length ≤ rest.length := by
    unfold quote
    split
    · simp
    · next h =>
      have := drop (· ≠ '"') rest
      rw [h] at this
      exact Nat.le_of_succ_le this
  have hNumber : (number c rest).2.length ≤ rest.length := by
    have := drop Char.isDigit rest
    unfold number
    split
    · next d after h =>
      rw [h] at this
      split
      · have step := drop Char.isDigit after
        simp only [List.length_cons] at this ⊢
        omega
      · exact this
    · exact this
  have hWord : (word c rest).2.length ≤ rest.length := drop _ _
  unfold itemAt
  split <;> first
    | exact Nat.le_refl _
    | exact hOr _ _ _
    | assumption
    | skip
  split
  · exact hNumber
  · split
    · exact hWord
    · exact Nat.le_refl _

/-- How many lines end inside a text. -/
def lineBreaks (text : List Char) : Nat :=
  text.count '\n'

/-- Scan a text that starts on the given line, after what was found before it. -/
def scanFrom (line : Nat) (text : List Char) (tokens : Array Token) (errors : Array ScanError) :
    Array Token × Array ScanError :=
  match text with
  | [] => (tokens.push (.endAt line), errors)
  | c :: rest =>
    match _read : itemAt c rest with
    | (.token kind lexeme literal, after) =>
      let line := line + lineBreaks lexeme
      scanFrom line after (tokens.push ⟨kind, String.ofList lexeme, literal, line⟩) errors
    | (.gap skipped, after) => scanFrom (line + lineBreaks skipped) after tokens errors
    | (.fault fault skipped, after) =>
      let line := line + lineBreaks skipped
      scanFrom line after tokens (errors.push ⟨fault, line⟩)
termination_by text.length
decreasing_by
  all_goals
    have := length_itemAt_le c rest
    rw [_read] at this
    exact Nat.lt_succ_of_le this

end Scan

/-- The tokens of a script, with the end of the text as the last one, or everything that is no part
of the language. -/
def scan (source : String) : Except (List ScanError) (List Token) :=
  let (tokens, errors) := Scan.scanFrom 1 source.toList #[] #[]
  if errors.isEmpty then .ok tokens.toList else .error errors.toList

end Scripting
