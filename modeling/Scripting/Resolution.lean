import Scripting.Program
import Scripting.Record

/-!
# Resolving names

Before a program runs, every reference to a local name is given its *distance*: the number of
scopes between the reference and the innermost scope around it that declares the name. References
to other names are left alone; they mean global names. On the way, misplaced `return`, `break`,
`this` and `super` and a few other mistakes are found. A mistake does not stop the walk.
-/

namespace Scripting

/-- What is wrong with where something stands in a program. -/
inductive StaticFault where
  | returnAtTop
  | breakOutsideLoop
  | readInOwnInitializer
  | thisOutsideClass
  | superOutsideClass
  | superWithoutSuperclass
  | inheritsFromItself
deriving DecidableEq

/-- The wording of a static fault. -/
def StaticFault.message : StaticFault → String
  | .returnAtTop => "Can't return from top-level code."
  | .breakOutsideLoop => "Can't break outside of a loop."
  | .readInOwnInitializer => "Can't read local variable in its own initializer."
  | .thisOutsideClass => "Can't use 'this' outside of a class."
  | .superOutsideClass => "Can't use 'super' outside of a class."
  | .superWithoutSuperclass => "Can't use 'super' in a class with no superclass."
  | .inheritsFromItself => "A class can't inherit from itself."

/-- A fault with the token it was found at. -/
structure StaticError where
  fault : StaticFault
  token : Token

/-- The line that reports a static error. -/
def StaticError.report (e : StaticError) : String :=
  complaint e.token.line e.token.place e.fault.message

/-- The names of one scope, each with whether its declaration is complete. -/
abbrev Scope := Record Bool

/-- The kind of class around a place in a program. -/
inductive ClassContext where
  | outside | plain | derived
deriving DecidableEq

/-- The state of the walk through a program. -/
structure Resolution where
  /-- The open scopes, the innermost first. -/
  scopes : List Scope
  /-- The walk is inside a function. -/
  inFunction : Bool
  /-- The class that the walk is inside of. -/
  classContext : ClassContext
  /-- The number of loops around the walk, within the function. -/
  loopDepth : Nat
  /-- The distances found so far, in order. -/
  found : Array (NodeId × Nat)
  /-- The mistakes found so far, in order. -/
  errors : Array StaticError

namespace Resolution

/-- Outside of everything, with nothing found. -/
def start : Resolution where
  scopes := []
  inFunction := false
  classContext := .outside
  loopDepth := 0
  found := #[]
  errors := #[]

/-- Open a scope. -/
def openScope (r : Resolution) : Resolution :=
  { r with scopes := [] :: r.scopes }

/-- Close the innermost scope. -/
def closeScope (r : Resolution) : Resolution :=
  { r with scopes := r.scopes.tail }

/-- Enter a name into the innermost scope; global names are not kept. -/
def enter (r : Resolution) (name : String) (complete : Bool) : Resolution :=
  match r.scopes with
  | [] => r
  | scope :: rest => { r with scopes := scope.insert name complete :: rest }

/-- Begin the declaration of a name. -/
def declare (r : Resolution) (name : Token) : Resolution :=
  r.enter name.lexeme false

/-- Complete the declaration of a name. -/
def define (r : Resolution) (name : Token) : Resolution :=
  r.enter name.lexeme true

/-- Declare a name that is complete at once. -/
def introduce (r : Resolution) (name : Token) : Resolution :=
  (r.declare name).define name

/-- Note a mistake. -/
def fail (r : Resolution) (fault : StaticFault) (token : Token) : Resolution :=
  { r with errors := r.errors.push ⟨fault, token⟩ }

/-- Note a mistake if there is one. -/
def failIf (r : Resolution) (mistaken : Bool) (fault : StaticFault) (token : Token) : Resolution :=
  if mistaken then r.fail fault token else r

/-- The number of scopes that separate the walk from the innermost one that declares a name. -/
def distance? (r : Resolution) (name : String) : Option Nat :=
  r.scopes.findIdx? (Record.has · name)

/-- Give a node its distance, if its name is local. -/
def link (r : Resolution) (id : NodeId) (name : Token) : Resolution :=
  match r.distance? name.lexeme with
  | some distance => { r with found := r.found.push (id, distance) }
  | none => r

/-- The innermost scope has begun to declare a name and not completed it. -/
def isIncomplete (r : Resolution) (name : String) : Bool :=
  r.scopes.head?.bind (Record.get? · name) = some false

/-- Enter a function: a scope with its parameters, in which the loops around it do not count. -/
def enterFunction (r : Resolution) (params : List Token) : Resolution :=
  params.foldl introduce (openScope { r with inFunction := true, loopDepth := 0 })

/-- Leave a function that was entered from `outer`. -/
def leaveFunction (r outer : Resolution) : Resolution :=
  { r.closeScope with inFunction := outer.inFunction, loopDepth := outer.loopDepth }

end Resolution

open Resolution

mutual

/-- Walk through an expression. -/
def Expr.resolve : Expr → Resolution → Resolution
  | .literal _, r => r
  | .grouping inner, r => inner.resolve r
  | .unary _ operand, r => operand.resolve r
  | .binary left _ right, r => right.resolve (left.resolve r)
  | .logical left _ right, r => right.resolve (left.resolve r)
  | .ternary condition first second, r => second.resolve (first.resolve (condition.resolve r))
  | .name id name, r =>
    (r.failIf (r.isIncomplete name.lexeme) .readInOwnInitializer name).link id name
  | .assign id name value, r => (value.resolve r).link id name
  | .call callee _ arguments, r => resolveExprs arguments (callee.resolve r)
  | .get object _, r => object.resolve r
  | .nilGet object _, r => object.resolve r
  | .set object _ value, r => value.resolve (object.resolve r)
  | .this id keyword, r =>
    match r.classContext with
    | .outside => r.fail .thisOutsideClass keyword
    | _ => r.link id keyword
  | .super id keyword _, r =>
    match r.classContext with
    | .outside => r.fail .superOutsideClass keyword
    | .plain => r.fail .superWithoutSuperclass keyword
    | .derived => r.link id keyword
  | .lambda declaration, r => declaration.resolve r

/-- Walk through expressions, in order. -/
def resolveExprs : List Expr → Resolution → Resolution
  | [], r => r
  | e :: es, r => resolveExprs es (e.resolve r)

/-- Walk through the parameters and the body of a function. -/
def FunctionDecl.resolve : FunctionDecl → Resolution → Resolution
  | .mk _ params body, r => (resolveStmts body (r.enterFunction params)).leaveFunction r

/-- Walk through methods, in order. -/
def resolveFunctions : List FunctionDecl → Resolution → Resolution
  | [], r => r
  | f :: fs, r => resolveFunctions fs (f.resolve r)

/-- Walk through the body of a getter. -/
def GetterDecl.resolve : GetterDecl → Resolution → Resolution
  | .mk _ body, r => (resolveStmts body (r.enterFunction [])).leaveFunction r

/-- Walk through getters, in order. -/
def resolveGetters : List GetterDecl → Resolution → Resolution
  | [], r => r
  | g :: gs, r => resolveGetters gs (g.resolve r)

/-- Walk through a statement. -/
def Stmt.resolve : Stmt → Resolution → Resolution
  | .expression value, r => value.resolve r
  | .print _ value, r => value.resolve r
  | .var name none, r => r.introduce name
  | .var name (some value), r => (value.resolve (r.declare name)).define name
  | .block body, r => (resolveStmts body r.openScope).closeScope
  | .function declaration, r => declaration.resolve (r.introduce declaration.name)
  | .getter declaration, r => declaration.resolve (r.introduce declaration.name)
  | .classDecl name none methods getters, r =>
    let inside := { r.introduce name with classContext := .plain }
    let members := inside.openScope.enter "this" true
    let done := resolveGetters getters (resolveFunctions methods members)
    { done.closeScope with classContext := r.classContext }
  | .classDecl name (some superclass) methods getters, r =>
    let inside := { r.introduce name with classContext := .derived }
    let checked :=
      match superclass with
      | .name _ superName =>
        inside.failIf (superName.lexeme = name.lexeme) .inheritsFromItself superName
      | _ => inside
    let above := (superclass.resolve checked).openScope.enter "super" true
    let members := above.openScope.enter "this" true
    let done := resolveGetters getters (resolveFunctions methods members)
    { done.closeScope.closeScope with classContext := r.classContext }
  | .ifStmt condition consequent none, r => consequent.resolve (condition.resolve r)
  | .ifStmt condition consequent (some alternative), r =>
    alternative.resolve (consequent.resolve (condition.resolve r))
  | .whileStmt condition body, r =>
    let inside := condition.resolve r
    let done := body.resolve { inside with loopDepth := inside.loopDepth + 1 }
    { done with loopDepth := done.loopDepth - 1 }
  | .breakStmt keyword, r => r.failIf (r.loopDepth = 0) .breakOutsideLoop keyword
  | .returnStmt keyword none, r => r.failIf (!r.inFunction) .returnAtTop keyword
  | .returnStmt keyword (some value), r =>
    value.resolve (r.failIf (!r.inFunction) .returnAtTop keyword)

/-- Walk through statements, in order. -/
def resolveStmts : List Stmt → Resolution → Resolution
  | [], r => r
  | s :: ss, r => resolveStmts ss (s.resolve r)

end

/-- What resolving a program finds: distances in the order of the walk, and mistakes. -/
def Program.resolve (program : Program) : Resolution :=
  resolveStmts program .start

/-- The distances of the nodes seen so far; nodes that refer to global names have none. -/
structure Distances where
  entries : Array (Option Nat)

namespace Distances

/-- No distances. -/
def empty : Distances :=
  ⟨#[]⟩

/-- The distance of a node. -/
def get? (table : Distances) (id : NodeId) : Option Nat :=
  table.entries[id]?.join

/-- The table with the distance of a node. -/
def record (table : Distances) (id : NodeId) (distance : Nat) : Distances :=
  if id < table.entries.size then ⟨table.entries.setIfInBounds id (some distance)⟩
  else
    ⟨(table.entries ++ Array.replicate (id - table.entries.size) none).push (some distance)⟩

end Distances

end Scripting
