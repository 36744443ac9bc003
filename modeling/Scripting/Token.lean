import Scripting.Literal

/-!
# Tokens

The words of a script. A token keeps the text it was read from, the line on which that text ends
and, for numbers and texts, the literal it denotes.
-/

namespace Scripting

/-- The kinds of tokens. -/
inductive TokenKind where
  | leftParen | rightParen | leftBrace | rightBrace
  | comma | dot | minus | plus | semicolon | slash | star | question | colon
  | bang | bangEqual | equal | equalEqual | greater | greaterEqual | less | lessEqual
  | elvis | questionDot
  | identifier | textLiteral | number
  | kwAnd | kwBreak | kwClass | kwElse | kwFalse | kwFun | kwFor | kwIf | kwNil | kwOr | kwPrint
  | kwReturn | kwSuper | kwThis | kwTrue | kwVar | kwWhile
  | endOfText
deriving DecidableEq

/-- The name of a kind, as token listings show it. -/
def TokenKind.name : TokenKind → String
  | .leftParen => "LeftParen"
  | .rightParen => "RightParen"
  | .leftBrace => "LeftBrace"
  | .rightBrace => "RightBrace"
  | .comma => "Comma"
  | .dot => "Dot"
  | .minus => "Minus"
  | .plus => "Plus"
  | .semicolon => "Semicolon"
  | .slash => "Slash"
  | .star => "Star"
  | .question => "Question"
  | .colon => "Colon"
  | .bang => "Bang"
  | .bangEqual => "BangEqual"
  | .equal => "Equal"
  | .equalEqual => "EqualEqual"
  | .greater => "Greater"
  | .greaterEqual => "GreaterEqual"
  | .less => "Less"
  | .lessEqual => "LessEqual"
  | .elvis => "Elvis"
  | .questionDot => "QuestionDot"
  | .identifier => "Identifier"
  | .textLiteral => "StringLiteral"
  | .number => "Number"
  | .kwAnd => "And"
  | .kwBreak => "Break"
  | .kwClass => "Class"
  | .kwElse => "Else"
  | .kwFalse => "False"
  | .kwFun => "Fun"
  | .kwFor => "For"
  | .kwIf => "If"
  | .kwNil => "Nil"
  | .kwOr => "Or"
  | .kwPrint => "Print"
  | .kwReturn => "Return"
  | .kwSuper => "Super"
  | .kwThis => "This"
  | .kwTrue => "True"
  | .kwVar => "Var"
  | .kwWhile => "While"
  | .endOfText => "EOF"

/-- The reserved words. -/
def keywords : List (String × TokenKind) :=
  [("and", .kwAnd), ("break", .kwBreak), ("class", .kwClass), ("else", .kwElse),
   ("false", .kwFalse), ("for", .kwFor), ("fun", .kwFun), ("if", .kwIf), ("nil", .kwNil),
   ("or", .kwOr), ("print", .kwPrint), ("return", .kwReturn), ("super", .kwSuper),
   ("this", .kwThis), ("true", .kwTrue), ("var", .kwVar), ("while", .kwWhile)]

/-- The kind of a word: reserved, or an identifier. -/
def TokenKind.ofWord (word : String) : TokenKind :=
  (keywords.lookup word).getD .identifier

/-- A token of a script. -/
structure Token where
  kind : TokenKind
  /-- The text the token was read from. -/
  lexeme : String
  /-- The value of a number or a text. -/
  literal : Option Literal
  /-- The line on which the lexeme ends, counted from one. -/
  line : Nat

namespace Token

/-- The token that stands at the end of a script. -/
def endAt (line : Nat) : Token :=
  ⟨.endOfText, "", none, line⟩

/-- How token listings show a token. -/
def listing (t : Token) : String :=
  let value :=
    match t.literal with
    | none => "None"
    | some l => "Some(" ++ l.inspect ++ ")"
  t.kind.name ++ " " ++ t.lexeme ++ " " ++ value

/-- Where a complaint about a token points: its lexeme, or the end of the script. -/
def place (t : Token) : String :=
  if t.kind = .endOfText then "at end" else "at '" ++ t.lexeme ++ "'"

end Token

/-- The line of a complaint: `[line N] Error`, the place if there is one, and what is wrong. -/
def complaint (line : Nat) (place : String) (message : String) : String :=
  let gap := if place.isEmpty then "" else " "
  "[line " ++ toString line ++ "] Error" ++ gap ++ place ++ ": " ++ message

end Scripting
