import Scripting.Program

/-!
# Printing programs

A program in prefix form: every compound expression and statement stands in parentheses behind the
word or operator it is made with, and a block stands in braces. A statement takes one line.
-/

namespace Scripting

/-- Texts with a blank between them. -/
def spaced (parts : List String) : String :=
  " ".intercalate parts

/-- Parts in parentheses, with a blank between them. -/
def parenthesized (parts : List String) : String :=
  "(" ++ spaced parts ++ ")"

/-- Parts in braces, with a blank between them. -/
def braced (parts : List String) : String :=
  "\x7b" ++ spaced parts ++ "\x7d"

/-- The parameters of a function in parentheses. -/
def parameterList (params : List Token) : String :=
  parenthesized (params.map Token.lexeme)

mutual

/-- An expression in prefix form. -/
def Expr.render : Expr → String
  | .literal (.text s) => Text.quoted s
  | .literal value => value.display
  | .grouping inner => parenthesized ["group", inner.render]
  | .unary operator operand => parenthesized [operator.lexeme, operand.render]
  | .binary left operator right => parenthesized [operator.lexeme, left.render, right.render]
  | .logical left operator right => parenthesized [operator.lexeme, left.render, right.render]
  | .ternary condition first second =>
    parenthesized ["?", condition.render, first.render, second.render]
  | .name _ name => name.lexeme
  | .assign _ name value => parenthesized ["=", name.lexeme, value.render]
  | .call callee _ arguments => parenthesized ("call" :: callee.render :: renderExprs arguments)
  | .get object name => parenthesized [".", object.render, name.lexeme]
  | .nilGet object name => parenthesized ["?.", object.render, name.lexeme]
  | .set object name value => parenthesized [".=", object.render, name.lexeme, value.render]
  | .this _ _ => "this"
  | .super _ _ method => parenthesized ["super", method.lexeme]
  | .lambda (.mk _ params body) =>
    parenthesized ["lambda", parameterList params, braced (renderStmts body)]

/-- Expressions in prefix form, in order. -/
def renderExprs : List Expr → List String
  | [] => []
  | e :: es => e.render :: renderExprs es

/-- A function or a method in prefix form. -/
def FunctionDecl.render : FunctionDecl → String
  | .mk name params body =>
    parenthesized ["fun", name.lexeme, parameterList params, braced (renderStmts body)]

/-- Methods in prefix form, in order. -/
def renderFunctions : List FunctionDecl → List String
  | [] => []
  | f :: fs => f.render :: renderFunctions fs

/-- A getter in prefix form. -/
def GetterDecl.render : GetterDecl → String
  | .mk name body => parenthesized ["getter", name.lexeme, braced (renderStmts body)]

/-- Getters in prefix form, in order. -/
def renderGetters : List GetterDecl → List String
  | [] => []
  | g :: gs => g.render :: renderGetters gs

/-- A statement in prefix form. -/
def Stmt.render : Stmt → String
  | .expression value => parenthesized [";", value.render]
  | .print _ value => parenthesized ["print", value.render]
  | .var name none => parenthesized ["var", name.lexeme]
  | .var name (some value) => parenthesized ["var", name.lexeme, value.render]
  | .block body => braced (renderStmts body)
  | .function declaration => declaration.render
  | .getter declaration => declaration.render
  | .classDecl name none methods getters =>
    parenthesized ("class" :: name.lexeme :: (renderFunctions methods ++ renderGetters getters))
  | .classDecl name (some superclass) methods getters =>
    parenthesized ("class" :: name.lexeme :: "<" :: superclass.render ::
      (renderFunctions methods ++ renderGetters getters))
  | .ifStmt condition consequent none =>
    parenthesized ["if", condition.render, consequent.render]
  | .ifStmt condition consequent (some alternative) =>
    parenthesized ["if", condition.render, consequent.render, alternative.render]
  | .whileStmt condition body => parenthesized ["while", condition.render, body.render]
  | .breakStmt _ => "(break)"
  | .returnStmt _ none => "(return)"
  | .returnStmt _ (some value) => parenthesized ["return", value.render]

/-- Statements in prefix form, in order. -/
def renderStmts : List Stmt → List String
  | [] => []
  | s :: ss => s.render :: renderStmts ss

end

end Scripting
