import Scripting.Token

/-!
# Programs

The tree of a script. Every node whose meaning depends on where a name is declared carries an
identity of its own, so that what is found out about it can be kept apart from the tree. Tokens are
kept where their text or their line can show up later.
-/

namespace Scripting

/-- The identity of a node that refers to a name. -/
abbrev NodeId := Nat

mutual

/-- Expressions. -/
inductive Expr where
  | literal (value : Literal)
  | grouping (inner : Expr)
  | unary (operator : Token) (operand : Expr)
  | binary (left : Expr) (operator : Token) (right : Expr)
  | logical (left : Expr) (operator : Token) (right : Expr)
  | ternary (condition first second : Expr)
  | name (id : NodeId) (name : Token)
  | assign (id : NodeId) (name : Token) (value : Expr)
  | call (callee : Expr) (paren : Token) (arguments : List Expr)
  /-- A property of an instance. -/
  | get (object : Expr) (name : Token)
  /-- A property of an instance, or `nil` of `nil`. -/
  | nilGet (object : Expr) (name : Token)
  | set (object : Expr) (name : Token) (value : Expr)
  | this (id : NodeId) (keyword : Token)
  | super (id : NodeId) (keyword : Token) (method : Token)
  | lambda (declaration : FunctionDecl)

/-- A function, a method or a lambda, as it is written. -/
inductive FunctionDecl where
  | mk (name : Token) (params : List Token) (body : List Stmt)

/-- A getter, as it is written. -/
inductive GetterDecl where
  | mk (name : Token) (body : List Stmt)

/-- Statements. -/
inductive Stmt where
  | expression (value : Expr)
  | print (keyword : Token) (value : Expr)
  | var (name : Token) (initializer : Option Expr)
  | block (body : List Stmt)
  | function (declaration : FunctionDecl)
  | getter (declaration : GetterDecl)
  | classDecl (name : Token) (superclass : Option Expr) (methods : List FunctionDecl)
      (getters : List GetterDecl)
  | ifStmt (condition : Expr) (consequent : Stmt) (alternative : Option Stmt)
  | whileStmt (condition : Expr) (body : Stmt)
  | breakStmt (keyword : Token)
  | returnStmt (keyword : Token) (value : Option Expr)

end

/-- The statements of a script, in order. -/
abbrev Program := List Stmt

namespace FunctionDecl

/-- The name of a function. -/
def name : FunctionDecl → Token
  | .mk name _ _ => name

/-- The parameters of a function. -/
def params : FunctionDecl → List Token
  | .mk _ params _ => params

/-- The statements of a function. -/
def body : FunctionDecl → List Stmt
  | .mk _ _ body => body

end FunctionDecl

namespace GetterDecl

/-- The name of a getter. -/
def name : GetterDecl → Token
  | .mk name _ => name

/-- The statements of a getter. -/
def body : GetterDecl → List Stmt
  | .mk _ body => body

end GetterDecl

/-- The identity of the outermost node of an expression, if it has one. -/
def Expr.nodeId? : Expr → Option NodeId
  | .name id _ => some id
  | .assign id _ _ => some id
  | .this id _ => some id
  | .super id _ _ => some id
  | _ => none

end Scripting
