import Scripting.Program

/-!
# The tokens of programs

A program is written down as tokens, with a semicolon behind every simple statement and with
parentheses only where the tree has them.
-/

namespace Scripting

namespace Token

/-- A token with the one spelling that its kind has. -/
def mark (kind : TokenKind) (lexeme : String) : Token :=
  ⟨kind, lexeme, none, 0⟩

def comma : Token := mark .comma ","
def dot : Token := mark .dot "."
def equals : Token := mark .equal "="
def semicolon : Token := mark .semicolon ";"
def openParen : Token := mark .leftParen "("
def closeParen : Token := mark .rightParen ")"
def openBrace : Token := mark .leftBrace "\x7b"
def closeBrace : Token := mark .rightBrace "\x7d"

end Token

/-- The token of a literal. -/
def Literal.token : Literal → Token
  | .nil => .mark .kwNil "nil"
  | .bool false => .mark .kwFalse "false"
  | .bool true => .mark .kwTrue "true"
  | .number x => ⟨.number, (Literal.number x).display, some (.number x), 0⟩
  | .text s => ⟨.textLiteral, "\"" ++ s ++ "\"", some (.text s), 0⟩

mutual

/-- The tokens of an expression. -/
def Expr.tokens : Expr → List Token
  | .literal value => [value.token]
  | .grouping inner => .openParen :: (inner.tokens ++ [.closeParen])
  | .unary operator operand => operator :: operand.tokens
  | .binary left operator right => left.tokens ++ operator :: right.tokens
  | .logical left operator right => left.tokens ++ operator :: right.tokens
  | .ternary condition first second =>
    condition.tokens ++ .mark .question "?" :: (first.tokens ++ .mark .colon ":" :: second.tokens)
  | .name _ name => [name]
  | .assign _ name value => name :: .equals :: value.tokens
  | .call callee paren arguments =>
    callee.tokens ++ .openParen :: (listingTokens arguments ++ [paren])
  | .get object name => object.tokens ++ [.dot, name]
  | .nilGet object name => object.tokens ++ [.mark .questionDot "?.", name]
  | .set object name value => object.tokens ++ .dot :: name :: .equals :: value.tokens
  | .this _ keyword => [keyword]
  | .super _ keyword method => [keyword, .dot, method]
  | .lambda (.mk name params body) =>
    ⟨.kwFun, "fun", none, name.line⟩ :: .openParen :: (params.intersperse .comma ++
      .closeParen :: .openBrace :: (stmtsTokens body ++ [.closeBrace]))

/-- The tokens of expressions with commas between them. -/
def listingTokens : List Expr → List Token
  | [] => []
  | [e] => e.tokens
  | e :: es => e.tokens ++ .comma :: listingTokens es

/-- The tokens of a function with its name. -/
def FunctionDecl.tokens : FunctionDecl → List Token
  | .mk name params body =>
    name :: .openParen :: (params.intersperse .comma ++
      .closeParen :: .openBrace :: (stmtsTokens body ++ [.closeBrace]))

/-- The tokens of methods. -/
def functionsTokens : List FunctionDecl → List Token
  | [] => []
  | f :: fs => f.tokens ++ functionsTokens fs

/-- The tokens of a getter with its name. -/
def GetterDecl.tokens : GetterDecl → List Token
  | .mk name body => name :: .openBrace :: (stmtsTokens body ++ [.closeBrace])

/-- The tokens of getters. -/
def gettersTokens : List GetterDecl → List Token
  | [] => []
  | g :: gs => g.tokens ++ gettersTokens gs

/-- The tokens of a statement. -/
def Stmt.tokens : Stmt → List Token
  | .expression value => value.tokens ++ [.semicolon]
  | .print keyword value => keyword :: (value.tokens ++ [.semicolon])
  | .var name none => [.mark .kwVar "var", name, .semicolon]
  | .var name (some value) =>
    .mark .kwVar "var" :: name :: .equals :: (value.tokens ++ [.semicolon])
  | .block body => .openBrace :: (stmtsTokens body ++ [.closeBrace])
  | .function declaration => .mark .kwFun "fun" :: declaration.tokens
  | .getter declaration => .mark .kwFun "fun" :: declaration.tokens
  | .classDecl name none methods getters =>
    .mark .kwClass "class" :: name :: .openBrace ::
      (functionsTokens methods ++ gettersTokens getters ++ [.closeBrace])
  | .classDecl name (some superclass) methods getters =>
    .mark .kwClass "class" :: name :: .mark .less "<" :: (superclass.tokens ++ .openBrace ::
      (functionsTokens methods ++ gettersTokens getters ++ [.closeBrace]))
  | .ifStmt condition consequent none =>
    .mark .kwIf "if" :: .openParen :: (condition.tokens ++ .closeParen :: consequent.tokens)
  | .ifStmt condition consequent (some alternative) =>
    .mark .kwIf "if" :: .openParen :: (condition.tokens ++ .closeParen ::
      (consequent.tokens ++ .mark .kwElse "else" :: alternative.tokens))
  | .whileStmt condition body =>
    .mark .kwWhile "while" :: .openParen :: (condition.tokens ++ .closeParen :: body.tokens)
  | .breakStmt keyword => [keyword, .semicolon]
  | .returnStmt keyword none => [keyword, .semicolon]
  | .returnStmt keyword (some value) => keyword :: (value.tokens ++ [.semicolon])

/-- The tokens of statements. -/
def stmtsTokens : List Stmt → List Token
  | [] => []
  | s :: ss => s.tokens ++ stmtsTokens ss

end

/-- The tokens of a program, without the end of the text. -/
abbrev Program.tokens (p : Program) : List Token :=
  stmtsTokens p

end Scripting
