import Scripting.Proofs.Program.Shape
import Scripting.Resolution

/-!
# Local names

A local scope is that of a block, or of the parameters and the body of a function, a method, a
getter or a lambda. The scopes of a program are numbered in the order in which they begin. To
relabel a name in one of them is to give it another spelling wherever that scope declares it, and
in those references that resolving finds to mean that scope; the same name in other scopes and
the names of members stay as they are.
-/

namespace Scripting

/-! ### Scopes -/

/-- The declarations of a local scope: parameters, and statements that may declare something. -/
structure LocalScope where
  params : List Token
  body : List Stmt

/-- A statement declares a name by `var` or not at all. -/
def Stmt.DeclaresByVar (name : String) (s : Stmt) : Prop :=
  ∀ t ∈ s.declared?, t.lexeme = name → ∃ initializer, s = .var t initializer

/-- A statement declares a variable. -/
def Stmt.isVar : Stmt → Bool
  | .var _ _ => true
  | _ => false

lemma Stmt.declaresByVar_iff (name : String) (s : Stmt) :
    (s.isVar || s.declared?.all (·.lexeme != name)) = true ↔ s.DeclaresByVar name := by
  cases s <;> simp [isVar, DeclaresByVar, declared?]

instance (name : String) (s : Stmt) : Decidable (s.DeclaresByVar name) :=
  decidable_of_iff _ (s.declaresByVar_iff name)

namespace LocalScope

/-- The names that a scope declares. -/
def declared (scope : LocalScope) : List Token :=
  scope.params ++ scope.body.filterMap Stmt.declared?

/-- A scope declares a name only as a parameter or by `var`. -/
def DeclaresByVar (name : String) (scope : LocalScope) : Prop :=
  ∀ s ∈ scope.body, s.DeclaresByVar name

instance (name : String) (scope : LocalScope) : Decidable (scope.DeclaresByVar name) :=
  inferInstanceAs (Decidable (∀ s ∈ scope.body, s.DeclaresByVar name))

/-- A scope that names things by identifiers only. -/
structure WellFormed (scope : LocalScope) : Prop where
  params : ∀ t ∈ scope.params, t.IsName
  body : StmtsWellFormed scope.body

end LocalScope

mutual

/-- The local scopes in an expression. -/
def Expr.scopes : Expr → List LocalScope
  | .literal _ => []
  | .grouping inner => inner.scopes
  | .unary _ operand => operand.scopes
  | .binary left _ right => left.scopes ++ right.scopes
  | .logical left _ right => left.scopes ++ right.scopes
  | .ternary condition first second => condition.scopes ++ (first.scopes ++ second.scopes)
  | .name _ _ => []
  | .assign _ _ value => value.scopes
  | .call callee _ arguments => callee.scopes ++ exprsScopes arguments
  | .get object _ => object.scopes
  | .nilGet object _ => object.scopes
  | .set object _ value => object.scopes ++ value.scopes
  | .this _ _ => []
  | .super _ _ _ => []
  | .lambda declaration => declaration.scopes

/-- The local scopes in expressions. -/
def exprsScopes : List Expr → List LocalScope
  | [] => []
  | e :: es => e.scopes ++ exprsScopes es

/-- The local scope of a function, and those in its body. -/
def FunctionDecl.scopes : FunctionDecl → List LocalScope
  | .mk _ params body => ⟨params, body⟩ :: stmtsScopes body

/-- The local scopes of methods. -/
def functionsScopes : List FunctionDecl → List LocalScope
  | [] => []
  | f :: fs => f.scopes ++ functionsScopes fs

/-- The local scope of a getter, and those in its body. -/
def GetterDecl.scopes : GetterDecl → List LocalScope
  | .mk _ body => ⟨[], body⟩ :: stmtsScopes body

/-- The local scopes of getters. -/
def gettersScopes : List GetterDecl → List LocalScope
  | [] => []
  | g :: gs => g.scopes ++ gettersScopes gs

/-- The local scopes in a statement. -/
def Stmt.scopes : Stmt → List LocalScope
  | .expression value => value.scopes
  | .print _ value => value.scopes
  | .var _ none => []
  | .var _ (some value) => value.scopes
  | .block body => ⟨[], body⟩ :: stmtsScopes body
  | .function declaration => declaration.scopes
  | .getter declaration => declaration.scopes
  | .classDecl _ none methods getters => functionsScopes methods ++ gettersScopes getters
  | .classDecl _ (some superclass) methods getters =>
    superclass.scopes ++ (functionsScopes methods ++ gettersScopes getters)
  | .ifStmt condition consequent none => condition.scopes ++ consequent.scopes
  | .ifStmt condition consequent (some alternative) =>
    condition.scopes ++ (consequent.scopes ++ alternative.scopes)
  | .whileStmt condition body => condition.scopes ++ body.scopes
  | .breakStmt _ => []
  | .returnStmt _ none => []
  | .returnStmt _ (some value) => value.scopes

/-- The local scopes in statements. -/
def stmtsScopes : List Stmt → List LocalScope
  | [] => []
  | s :: ss => s.scopes ++ stmtsScopes ss

end

/-- The local scopes of a program, in order. -/
abbrev Program.scopes (p : Program) : List LocalScope :=
  stmtsScopes p

/-! ### Well-formed scopes -/

mutual

lemma Expr.scopes_wellFormed : (e : Expr) → e.WellFormed → ∀ scope ∈ e.scopes, scope.WellFormed
  | .literal _, _ => List.forall_mem_nil _
  | .grouping inner, h => inner.scopes_wellFormed h
  | .unary _ operand, h => operand.scopes_wellFormed h
  | .binary left _ right, h =>
    List.forall_mem_append.mpr ⟨left.scopes_wellFormed h.1, right.scopes_wellFormed h.2⟩
  | .logical left _ right, h =>
    List.forall_mem_append.mpr ⟨left.scopes_wellFormed h.1, right.scopes_wellFormed h.2⟩
  | .ternary condition first second, h =>
    List.forall_mem_append.mpr ⟨condition.scopes_wellFormed h.1, List.forall_mem_append.mpr
      ⟨first.scopes_wellFormed h.2.1, second.scopes_wellFormed h.2.2⟩⟩
  | .name _ _, _ => List.forall_mem_nil _
  | .assign _ _ value, h => value.scopes_wellFormed h.2
  | .call callee _ arguments, h =>
    List.forall_mem_append.mpr ⟨callee.scopes_wellFormed h.1,
      exprsScopes_wellFormed arguments h.2⟩
  | .get object _, h => object.scopes_wellFormed h
  | .nilGet object _, h => object.scopes_wellFormed h
  | .set object _ value, h =>
    List.forall_mem_append.mpr ⟨object.scopes_wellFormed h.1, value.scopes_wellFormed h.2⟩
  | .this _ _, _ => List.forall_mem_nil _
  | .super _ _ _, _ => List.forall_mem_nil _
  | .lambda declaration, h => declaration.scopes_wellFormed h

lemma exprsScopes_wellFormed : (es : List Expr) → ExprsWellFormed es →
    ∀ scope ∈ exprsScopes es, scope.WellFormed
  | [], _ => List.forall_mem_nil _
  | e :: es, h =>
    List.forall_mem_append.mpr ⟨e.scopes_wellFormed h.1, exprsScopes_wellFormed es h.2⟩

lemma FunctionDecl.scopes_wellFormed : (d : FunctionDecl) → d.WellFormed →
    ∀ scope ∈ d.scopes, scope.WellFormed
  | .mk _ _ body, h =>
    List.forall_mem_cons.mpr ⟨⟨h.1, h.2⟩, stmtsScopes_wellFormed body h.2⟩

lemma functionsScopes_wellFormed : (ds : List FunctionDecl) → FunctionsWellFormed ds →
    ∀ scope ∈ functionsScopes ds, scope.WellFormed
  | [], _ => List.forall_mem_nil _
  | d :: ds, h =>
    List.forall_mem_append.mpr ⟨d.scopes_wellFormed h.1, functionsScopes_wellFormed ds h.2⟩

lemma GetterDecl.scopes_wellFormed : (d : GetterDecl) → d.WellFormed →
    ∀ scope ∈ d.scopes, scope.WellFormed
  | .mk _ body, h =>
    List.forall_mem_cons.mpr ⟨⟨List.forall_mem_nil _, h⟩, stmtsScopes_wellFormed body h⟩

lemma gettersScopes_wellFormed : (ds : List GetterDecl) → GettersWellFormed ds →
    ∀ scope ∈ gettersScopes ds, scope.WellFormed
  | [], _ => List.forall_mem_nil _
  | d :: ds, h =>
    List.forall_mem_append.mpr ⟨d.scopes_wellFormed h.1, gettersScopes_wellFormed ds h.2⟩

lemma Stmt.scopes_wellFormed : (s : Stmt) → s.WellFormed → ∀ scope ∈ s.scopes, scope.WellFormed
  | .expression value, h => value.scopes_wellFormed h
  | .print _ value, h => value.scopes_wellFormed h
  | .var _ none, _ => List.forall_mem_nil _
  | .var _ (some value), h => value.scopes_wellFormed h.2
  | .block body, h =>
    List.forall_mem_cons.mpr ⟨⟨List.forall_mem_nil _, h⟩, stmtsScopes_wellFormed body h⟩
  | .function declaration, h => declaration.scopes_wellFormed h.2
  | .getter declaration, h => declaration.scopes_wellFormed h.2
  | .classDecl _ none methods getters, h =>
    List.forall_mem_append.mpr
      ⟨functionsScopes_wellFormed methods h.2.1, gettersScopes_wellFormed getters h.2.2⟩
  | .classDecl _ (some superclass) methods getters, h => by
    obtain ⟨-, ⟨id, superName, rfl, hn⟩, hm, hg⟩ := h
    exact List.forall_mem_append.mpr ⟨List.forall_mem_nil _, List.forall_mem_append.mpr
      ⟨functionsScopes_wellFormed methods hm, gettersScopes_wellFormed getters hg⟩⟩
  | .ifStmt condition consequent none, h =>
    List.forall_mem_append.mpr
      ⟨condition.scopes_wellFormed h.1, consequent.scopes_wellFormed h.2.2⟩
  | .ifStmt condition consequent (some alternative), h =>
    List.forall_mem_append.mpr ⟨condition.scopes_wellFormed h.1, List.forall_mem_append.mpr
      ⟨consequent.scopes_wellFormed h.2.1.2, alternative.scopes_wellFormed h.2.2.2⟩⟩
  | .whileStmt condition body, h =>
    List.forall_mem_append.mpr ⟨condition.scopes_wellFormed h.1, body.scopes_wellFormed h.2.2⟩
  | .breakStmt _, _ => List.forall_mem_nil _
  | .returnStmt _ none, _ => List.forall_mem_nil _
  | .returnStmt _ (some value), h => value.scopes_wellFormed h

lemma stmtsScopes_wellFormed : (ss : List Stmt) → StmtsWellFormed ss →
    ∀ scope ∈ stmtsScopes ss, scope.WellFormed
  | [], _ => List.forall_mem_nil _
  | s :: ss, h =>
    List.forall_mem_append.mpr ⟨s.scopes_wellFormed h.1, stmtsScopes_wellFormed ss h.2⟩

end

lemma wellFormed_of_mem {s : Stmt} {ss : List Stmt} (h : StmtsWellFormed ss) (hs : s ∈ ss) :
    s.WellFormed := by
  induction hs with
  | head => exact h.1
  | tail _ _ ih => exact ih h.2

/-- A well-formed scope declares identifiers only. -/
lemma LocalScope.WellFormed.declared {scope : LocalScope} (h : scope.WellFormed) :
    ∀ t ∈ scope.declared, t.IsName := by
  refine List.forall_mem_append.mpr ⟨h.params, fun t ht => ?_⟩
  obtain ⟨s, hs, hd⟩ := List.mem_filterMap.mp ht
  exact Stmt.declared?_isName (wellFormed_of_mem h.body hs) hd

/-! ### Other names -/

/-- Another spelling of a local name. -/
structure Relabeling where
  old : String
  new : String
  /-- The distances of references. -/
  distance? : NodeId → Option Nat
  /-- The number of the scope whose name is spelled otherwise. -/
  target : Nat

namespace Relabeling

variable (ρ : Relabeling)

/-- The spelling of a name, which may mean something in the relabelled scope. -/
def word (relabelled : Bool) (name : String) : String :=
  if relabelled ∧ name = ρ.old then ρ.new else name

/-- A token, which may mean something in the relabelled scope. -/
def token (relabelled : Bool) (t : Token) : Token :=
  { t with lexeme := ρ.word relabelled t.lexeme }

/-- The mark of the scope at a distance, if there is one. The marks say which of the scopes around a
place is the relabelled one, the innermost first. -/
def markAt (marks : List Bool) (distance? : Option Nat) : Bool :=
  (distance?.bind (marks[·]?)).getD false

/-- A reference means something in the relabelled scope. -/
def reaches (marks : List Bool) (id : NodeId) : Bool :=
  markAt marks (ρ.distance? id)

end Relabeling

/-! Things are relabelled within marked scopes. The first local scope in them has the number `n`. -/

mutual

/-- Relabel an expression. -/
def Expr.relabel (ρ : Relabeling) (marks : List Bool) (n : Nat) : Expr → Expr
  | .literal value => .literal value
  | .grouping inner => .grouping (inner.relabel ρ marks n)
  | .unary operator operand => .unary operator (operand.relabel ρ marks n)
  | .binary left operator right =>
    .binary (left.relabel ρ marks n) operator (right.relabel ρ marks (n + left.scopes.length))
  | .logical left operator right =>
    .logical (left.relabel ρ marks n) operator (right.relabel ρ marks (n + left.scopes.length))
  | .ternary condition first second =>
    let n' := n + condition.scopes.length
    .ternary (condition.relabel ρ marks n) (first.relabel ρ marks n')
      (second.relabel ρ marks (n' + first.scopes.length))
  | .name id name => .name id (ρ.token (ρ.reaches marks id) name)
  | .assign id name value =>
    .assign id (ρ.token (ρ.reaches marks id) name) (value.relabel ρ marks n)
  | .call callee paren arguments =>
    .call (callee.relabel ρ marks n) paren
      (relabelExprs ρ marks (n + callee.scopes.length) arguments)
  | .get object name => .get (object.relabel ρ marks n) name
  | .nilGet object name => .nilGet (object.relabel ρ marks n) name
  | .set object name value =>
    .set (object.relabel ρ marks n) name (value.relabel ρ marks (n + object.scopes.length))
  | .this id keyword => .this id keyword
  | .super id keyword method => .super id keyword method
  | .lambda declaration => .lambda (declaration.relabel ρ marks n)

/-- Relabel expressions. -/
def relabelExprs (ρ : Relabeling) (marks : List Bool) (n : Nat) : List Expr → List Expr
  | [] => []
  | e :: es => e.relabel ρ marks n :: relabelExprs ρ marks (n + e.scopes.length) es

/-- Relabel a function. -/
def FunctionDecl.relabel (ρ : Relabeling) (marks : List Bool) (n : Nat) :
    FunctionDecl → FunctionDecl
  | .mk name params body =>
    let mark : Bool := n = ρ.target
    .mk name (params.map (ρ.token mark)) (relabelStmts ρ (mark :: marks) (n + 1) body)

/-- Relabel methods. -/
def relabelFunctions (ρ : Relabeling) (marks : List Bool) (n : Nat) :
    List FunctionDecl → List FunctionDecl
  | [] => []
  | f :: fs => f.relabel ρ marks n :: relabelFunctions ρ marks (n + f.scopes.length) fs

/-- Relabel a getter. -/
def GetterDecl.relabel (ρ : Relabeling) (marks : List Bool) (n : Nat) : GetterDecl → GetterDecl
  | .mk name body =>
    let mark : Bool := n = ρ.target
    .mk name (relabelStmts ρ (mark :: marks) (n + 1) body)

/-- Relabel getters. -/
def relabelGetters (ρ : Relabeling) (marks : List Bool) (n : Nat) :
    List GetterDecl → List GetterDecl
  | [] => []
  | g :: gs => g.relabel ρ marks n :: relabelGetters ρ marks (n + g.scopes.length) gs

/-- Relabel a statement. The scopes of the receiver and of the superclass are never marked. -/
def Stmt.relabel (ρ : Relabeling) (marks : List Bool) (n : Nat) : Stmt → Stmt
  | .expression value => .expression (value.relabel ρ marks n)
  | .print keyword value => .print keyword (value.relabel ρ marks n)
  | .var name none => .var (ρ.token (marks.headD false) name) none
  | .var name (some value) =>
    .var (ρ.token (marks.headD false) name) (some (value.relabel ρ marks n))
  | .block body =>
    let mark : Bool := n = ρ.target
    .block (relabelStmts ρ (mark :: marks) (n + 1) body)
  | .function declaration => .function (declaration.relabel ρ marks n)
  | .getter declaration => .getter (declaration.relabel ρ marks n)
  | .classDecl name none methods getters =>
    let marks' := false :: marks
    .classDecl name none (relabelFunctions ρ marks' n methods)
      (relabelGetters ρ marks' (n + (functionsScopes methods).length) getters)
  | .classDecl name (some superclass) methods getters =>
    let marks' := false :: false :: marks
    let n' := n + superclass.scopes.length
    .classDecl name (some (superclass.relabel ρ marks n)) (relabelFunctions ρ marks' n' methods)
      (relabelGetters ρ marks' (n' + (functionsScopes methods).length) getters)
  | .ifStmt condition consequent none =>
    .ifStmt (condition.relabel ρ marks n)
      (consequent.relabel ρ marks (n + condition.scopes.length)) none
  | .ifStmt condition consequent (some alternative) =>
    let n' := n + condition.scopes.length
    .ifStmt (condition.relabel ρ marks n) (consequent.relabel ρ marks n')
      (some (alternative.relabel ρ marks (n' + consequent.scopes.length)))
  | .whileStmt condition body =>
    .whileStmt (condition.relabel ρ marks n)
      (body.relabel ρ marks (n + condition.scopes.length))
  | .breakStmt keyword => .breakStmt keyword
  | .returnStmt keyword none => .returnStmt keyword none
  | .returnStmt keyword (some value) => .returnStmt keyword (some (value.relabel ρ marks n))

/-- Relabel statements. -/
def relabelStmts (ρ : Relabeling) (marks : List Bool) (n : Nat) : List Stmt → List Stmt
  | [] => []
  | s :: ss => s.relabel ρ marks n :: relabelStmts ρ marks (n + s.scopes.length) ss

end

namespace Program

/-- The distance that resolving a program finds for a node. -/
def distance? (p : Program) (id : NodeId) : Option Nat :=
  p.resolve.found.toList.lookup id

/-- A program with another spelling of a name that a local scope declares. No mark is on the
outermost scope, that of the global names. -/
def relabel (p : Program) (target : Nat) (old new : String) : Program :=
  relabelStmts ⟨old, new, p.distance?, target⟩ [false] 0 p

end Program

end Scripting
