import Scripting.Proofs.Resolution.Walk

/-!
# Traversals

What resolving comes by on its walk can be read off the tree, without any state but the kind of
class around a place: scopes that begin and end, names that are declared, and nodes. A variable is
declared before its initializer, a function, a getter and a class before what is in it, parameters
before the body, and the value of an assignment stands before the assignment itself. Every node is
come by exactly once.
-/

namespace Scripting

/-- What is come by on a walk through a program. -/
inductive Event where
  /-- A scope begins. -/
  | opened
  /-- The innermost scope ends. -/
  | closed
  /-- A name is declared in the innermost scope. -/
  | declared (name : String)
  /-- A node, with the name that it refers to unless it is misplaced. -/
  | visited (id : NodeId) (name? : Option String)
deriving DecidableEq

/-- What is come by, in order. -/
abbrev Traversal := List Event

namespace Traversal

/-- The nodes that are come by, in order. -/
def ids (t : Traversal) : List NodeId :=
  t.filterMap fun
    | .visited id _ => some id
    | _ => none

@[simp] lemma ids_nil : ids [] = [] := rfl

@[simp] lemma ids_opened (t : Traversal) : ids (.opened :: t) = ids t := rfl

@[simp] lemma ids_closed (t : Traversal) : ids (.closed :: t) = ids t := rfl

@[simp] lemma ids_declared (name : String) (t : Traversal) :
    ids (.declared name :: t) = ids t := rfl

@[simp] lemma ids_visited (id : NodeId) (name? : Option String) (t : Traversal) :
    ids (.visited id name? :: t) = id :: ids t := rfl

@[simp] lemma ids_append (t t' : Traversal) : ids (t ++ t') = ids t ++ ids t' :=
  List.filterMap_append

end Traversal

/-- The names of parameters are declared. -/
def parameterEvents (params : List Token) : Traversal :=
  params.map fun param => .declared param.lexeme

mutual

/-- What is come by in an expression, inside of a kind of class. -/
def Expr.events (c : ClassContext) : Expr → Traversal
  | .literal _ => []
  | .grouping inner => inner.events c
  | .unary _ operand => operand.events c
  | .binary left _ right => left.events c ++ right.events c
  | .logical left _ right => left.events c ++ right.events c
  | .ternary condition first second => condition.events c ++ (first.events c ++ second.events c)
  | .name id name => [.visited id (some name.lexeme)]
  | .assign id name value => value.events c ++ [.visited id (some name.lexeme)]
  | .call callee _ arguments => callee.events c ++ exprsEvents c arguments
  | .get object _ => object.events c
  | .nilGet object _ => object.events c
  | .set object _ value => object.events c ++ value.events c
  | .this id keyword => [.visited id (if c = .outside then none else some keyword.lexeme)]
  | .super id keyword _ => [.visited id (if c = .derived then some keyword.lexeme else none)]
  | .lambda declaration => declaration.events c

/-- What is come by in expressions. -/
def exprsEvents (c : ClassContext) : List Expr → Traversal
  | [] => []
  | e :: es => e.events c ++ exprsEvents c es

/-- What is come by in a function: a scope with the parameters and the body. -/
def FunctionDecl.events (c : ClassContext) : FunctionDecl → Traversal
  | .mk _ params body =>
    .opened :: (parameterEvents params ++ (stmtsEvents c body ++ [.closed]))

/-- What is come by in methods. -/
def functionsEvents (c : ClassContext) : List FunctionDecl → Traversal
  | [] => []
  | f :: fs => f.events c ++ functionsEvents c fs

/-- What is come by in a getter. -/
def GetterDecl.events (c : ClassContext) : GetterDecl → Traversal
  | .mk _ body => .opened :: (stmtsEvents c body ++ [.closed])

/-- What is come by in getters. -/
def gettersEvents (c : ClassContext) : List GetterDecl → Traversal
  | [] => []
  | g :: gs => g.events c ++ gettersEvents c gs

/-- What is come by in a statement. Around the members of a class are a scope with its superclass,
if it has one, and a scope with the receiver. -/
def Stmt.events (c : ClassContext) : Stmt → Traversal
  | .expression value => value.events c
  | .print _ value => value.events c
  | .var name none => [.declared name.lexeme]
  | .var name (some value) => .declared name.lexeme :: value.events c
  | .block body => .opened :: (stmtsEvents c body ++ [.closed])
  | .function declaration => .declared declaration.name.lexeme :: declaration.events c
  | .getter declaration => .declared declaration.name.lexeme :: declaration.events c
  | .classDecl name none methods getters =>
    [.declared name.lexeme, .opened, .declared "this"] ++
      (functionsEvents .plain methods ++ gettersEvents .plain getters ++ [.closed])
  | .classDecl name (some superclass) methods getters =>
    .declared name.lexeme :: (superclass.events .derived ++
      ([.opened, .declared "super", .opened, .declared "this"] ++
        (functionsEvents .derived methods ++ gettersEvents .derived getters ++
          [.closed, .closed])))
  | .ifStmt condition consequent none => condition.events c ++ consequent.events c
  | .ifStmt condition consequent (some alternative) =>
    condition.events c ++ (consequent.events c ++ alternative.events c)
  | .whileStmt condition body => condition.events c ++ body.events c
  | .breakStmt _ => []
  | .returnStmt _ none => []
  | .returnStmt _ (some value) => value.events c

/-- What is come by in statements. -/
def stmtsEvents (c : ClassContext) : List Stmt → Traversal
  | [] => []
  | s :: ss => s.events c ++ stmtsEvents c ss

end

/-- What is come by in a program. -/
abbrev Program.events (p : Program) : Traversal :=
  stmtsEvents .outside p

/-! ### Every node once -/

@[simp] lemma ids_parameterEvents (params : List Token) : (parameterEvents params).ids = [] := by
  simp [parameterEvents, Traversal.ids]

mutual

lemma Expr.ids_events (c : ClassContext) : (e : Expr) → (e.events c).ids = e.ids
  | .literal _ => rfl
  | .grouping inner => inner.ids_events c
  | .unary _ operand => operand.ids_events c
  | .binary left _ right => by simp [Expr.events, Expr.ids, left.ids_events, right.ids_events]
  | .logical left _ right => by simp [Expr.events, Expr.ids, left.ids_events, right.ids_events]
  | .ternary condition first second => by
    simp [Expr.events, Expr.ids, condition.ids_events, first.ids_events, second.ids_events]
  | .name _ _ => rfl
  | .assign _ _ value => by simp [Expr.events, Expr.ids, value.ids_events]
  | .call callee _ arguments => by
    simp [Expr.events, Expr.ids, callee.ids_events, exprs_ids_events c arguments]
  | .get object _ => object.ids_events c
  | .nilGet object _ => object.ids_events c
  | .set object _ value => by simp [Expr.events, Expr.ids, object.ids_events, value.ids_events]
  | .this _ _ => rfl
  | .super _ _ _ => rfl
  | .lambda declaration => declaration.ids_events c

lemma exprs_ids_events (c : ClassContext) :
    (es : List Expr) → Traversal.ids (exprsEvents c es) = exprsIds es
  | [] => rfl
  | e :: es => by simp [exprsEvents, exprsIds, e.ids_events, exprs_ids_events c es]

lemma FunctionDecl.ids_events (c : ClassContext) : (d : FunctionDecl) → (d.events c).ids = d.ids
  | .mk _ _ body => by simp [FunctionDecl.events, FunctionDecl.ids, stmts_ids_events c body]

lemma functions_ids_events (c : ClassContext) :
    (ds : List FunctionDecl) → Traversal.ids (functionsEvents c ds) = functionsIds ds
  | [] => rfl
  | d :: ds => by simp [functionsEvents, functionsIds, d.ids_events, functions_ids_events c ds]

lemma GetterDecl.ids_events (c : ClassContext) : (d : GetterDecl) → (d.events c).ids = d.ids
  | .mk _ body => by simp [GetterDecl.events, GetterDecl.ids, stmts_ids_events c body]

lemma getters_ids_events (c : ClassContext) :
    (ds : List GetterDecl) → Traversal.ids (gettersEvents c ds) = gettersIds ds
  | [] => rfl
  | d :: ds => by simp [gettersEvents, gettersIds, d.ids_events, getters_ids_events c ds]

lemma Stmt.ids_events (c : ClassContext) : (s : Stmt) → (s.events c).ids = s.ids
  | .expression value => value.ids_events c
  | .print _ value => value.ids_events c
  | .var _ none => rfl
  | .var _ (some value) => by simp [Stmt.events, Stmt.ids, value.ids_events]
  | .block body => by simp [Stmt.events, Stmt.ids, stmts_ids_events c body]
  | .function declaration => by simp [Stmt.events, Stmt.ids, declaration.ids_events]
  | .getter declaration => by simp [Stmt.events, Stmt.ids, declaration.ids_events]
  | .classDecl _ none methods getters => by
    simp [Stmt.events, Stmt.ids, functions_ids_events _ methods, getters_ids_events _ getters]
  | .classDecl _ (some superclass) methods getters => by
    simp [Stmt.events, Stmt.ids, superclass.ids_events, functions_ids_events _ methods,
      getters_ids_events _ getters]
  | .ifStmt condition consequent none => by
    simp [Stmt.events, Stmt.ids, condition.ids_events, consequent.ids_events]
  | .ifStmt condition consequent (some alternative) => by
    simp [Stmt.events, Stmt.ids, condition.ids_events, consequent.ids_events,
      alternative.ids_events]
  | .whileStmt condition body => by
    simp [Stmt.events, Stmt.ids, condition.ids_events, body.ids_events]
  | .breakStmt _ => rfl
  | .returnStmt _ none => rfl
  | .returnStmt _ (some value) => value.ids_events c

/-- The nodes that are come by are the nodes there are, each of them once. -/
theorem stmts_ids_events (c : ClassContext) :
    (ss : List Stmt) → Traversal.ids (stmtsEvents c ss) = stmtsIds ss
  | [] => rfl
  | s :: ss => by simp [stmtsEvents, stmtsIds, s.ids_events, stmts_ids_events c ss]

end

end Scripting
