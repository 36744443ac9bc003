import Scripting.Proofs.Program.Renaming
import Scripting.Proofs.Resolution.Walk

/-!
# Renaming and resolving

The walk through a renamed program finds the same distances, for the renamed nodes, and the same
mistakes, at the renamed tokens. What was found before the walk began does not matter, so that a
program in two parts is resolved like the parts one after the other.
-/

namespace Scripting

open Resolution

/-- A mistake at a renamed token. -/
def StaticError.rename (ρ : Renaming) (e : StaticError) : StaticError :=
  { e with token := e.token.rename ρ }

namespace Resolution

/-- A distance of a renamed node. -/
def renameLink (ρ : Renaming) (link : NodeId × Nat) : NodeId × Nat :=
  (ρ.node link.1, link.2)

/-- The state of a walk through a renamed program, before which some distances were found. -/
def rename (ρ : Renaming) (before : Array (NodeId × Nat)) (r : Resolution) : Resolution :=
  { r with
    found := before ++ r.found.map (renameLink ρ)
    errors := r.errors.map (StaticError.rename ρ) }

section

variable (ρ : Renaming) (before : Array (NodeId × Nat)) (r : Resolution)

lemma enter_rename (name : String) (complete : Bool) :
    (r.rename ρ before).enter name complete = (r.enter name complete).rename ρ before := by
  rw [enter_eq, enter_eq]
  rfl

lemma declare_rename (name : Token) :
    (r.rename ρ before).declare (name.rename ρ) = (r.declare name).rename ρ before :=
  enter_rename ρ before r name.lexeme false

lemma define_rename (name : Token) :
    (r.rename ρ before).define (name.rename ρ) = (r.define name).rename ρ before :=
  enter_rename ρ before r name.lexeme true

lemma introduce_rename (name : Token) :
    (r.rename ρ before).introduce (name.rename ρ) = (r.introduce name).rename ρ before := by
  rw [introduce, declare_rename, define_rename, introduce]

lemma fail_rename (fault : StaticFault) (token : Token) :
    (r.rename ρ before).fail fault (token.rename ρ) = (r.fail fault token).rename ρ before := by
  simp [fail, rename, StaticError.rename]

lemma failIf_rename (mistaken : Bool) (fault : StaticFault) (token : Token) :
    (r.rename ρ before).failIf mistaken fault (token.rename ρ) =
      (r.failIf mistaken fault token).rename ρ before := by
  unfold failIf
  split
  · exact fail_rename ρ before r fault token
  · rfl

lemma link_rename (id : NodeId) (name : Token) :
    (r.rename ρ before).link (ρ.node id) (name.rename ρ) =
      (r.link id name).rename ρ before := by
  have hd : (r.rename ρ before).distance? (name.rename ρ).lexeme = r.distance? name.lexeme := rfl
  unfold link
  rw [hd]
  cases r.distance? name.lexeme with
  | none => rfl
  | some distance => simp [rename, renameLink]

lemma enterFunction_rename (params : List Token) :
    (r.rename ρ before).enterFunction (params.map (Token.rename ρ)) =
      (r.enterFunction params).rename ρ before := by
  have hp : parameterScopes (params.map (Token.rename ρ)) r.scopes =
      parameterScopes params r.scopes := by
    simp [parameterScopes, List.foldl_map]
  rw [enterFunction_eq, enterFunction_eq]
  simp only [rename, hp]

/-- The walk through the superclass of a class starts in the same state. -/
lemma atSuperclass_rename (name : Token) (superclass : Expr) :
    (r.rename ρ before).atSuperclass (name.rename ρ) (superclass.rename ρ) =
      (r.atSuperclass name superclass).rename ρ before := by
  have hi := introduce_rename ρ before r name
  cases superclass with
  | name id superName =>
    simp only [atSuperclass, Expr.rename, hi]
    exact failIf_rename ρ before { r.introduce name with classContext := .derived } _ _ superName
  | _ =>
    simp only [atSuperclass, Expr.rename, hi]
    rfl

end

end Resolution

section

variable (ρ : Renaming) (before : Array (NodeId × Nat))

mutual

lemma Expr.resolve_rename : (e : Expr) → (r : Resolution) →
    (e.rename ρ).resolve (r.rename ρ before) = (e.resolve r).rename ρ before
  | .literal _, r => by simp only [Expr.rename, Expr.resolve]
  | .grouping inner, r => by simp only [Expr.rename, Expr.resolve, inner.resolve_rename]
  | .unary _ operand, r => by simp only [Expr.rename, Expr.resolve, operand.resolve_rename]
  | .binary left _ right, r => by
    simp only [Expr.rename, Expr.resolve, left.resolve_rename, right.resolve_rename]
  | .logical left _ right, r => by
    simp only [Expr.rename, Expr.resolve, left.resolve_rename, right.resolve_rename]
  | .ternary condition first second, r => by
    simp only [Expr.rename, Expr.resolve, condition.resolve_rename, first.resolve_rename,
      second.resolve_rename]
  | .name id name, r => by
    simp only [Expr.rename, Expr.resolve]
    rw [← link_rename, ← failIf_rename]
    rfl
  | .assign id name value, r => by
    simp only [Expr.rename, Expr.resolve, value.resolve_rename, link_rename]
  | .call callee _ arguments, r => by
    simp only [Expr.rename, Expr.resolve, callee.resolve_rename, resolveExprs_rename arguments]
  | .get object _, r => by simp only [Expr.rename, Expr.resolve, object.resolve_rename]
  | .nilGet object _, r => by simp only [Expr.rename, Expr.resolve, object.resolve_rename]
  | .set object _ value, r => by
    simp only [Expr.rename, Expr.resolve, object.resolve_rename, value.resolve_rename]
  | .this id keyword, r => by
    obtain ⟨scopes, inFunction, context, loopDepth, found, errors⟩ := r
    cases context with
    | outside => exact fail_rename ρ before _ _ keyword
    | plain => exact link_rename ρ before _ id keyword
    | derived => exact link_rename ρ before _ id keyword
  | .super id keyword _, r => by
    obtain ⟨scopes, inFunction, context, loopDepth, found, errors⟩ := r
    cases context with
    | outside => exact fail_rename ρ before _ _ keyword
    | plain => exact fail_rename ρ before _ _ keyword
    | derived => exact link_rename ρ before _ id keyword
  | .lambda declaration, r => by
    simp only [Expr.rename, Expr.resolve, declaration.resolve_rename]

lemma resolveExprs_rename : (es : List Expr) → (r : Resolution) →
    resolveExprs (renameExprs ρ es) (r.rename ρ before) = (resolveExprs es r).rename ρ before
  | [], r => by simp only [renameExprs, resolveExprs]
  | e :: es, r => by
    simp only [renameExprs, resolveExprs, e.resolve_rename, resolveExprs_rename es]

lemma FunctionDecl.resolve_rename : (d : FunctionDecl) → (r : Resolution) →
    (d.rename ρ).resolve (r.rename ρ before) = (d.resolve r).rename ρ before
  | .mk _ params body, r => by
    simp only [FunctionDecl.rename, FunctionDecl.resolve, enterFunction_rename,
      resolveStmts_rename body]
    rfl

lemma resolveFunctions_rename : (ds : List FunctionDecl) → (r : Resolution) →
    resolveFunctions (renameFunctions ρ ds) (r.rename ρ before) =
      (resolveFunctions ds r).rename ρ before
  | [], r => by simp only [renameFunctions, resolveFunctions]
  | d :: ds, r => by
    simp only [renameFunctions, resolveFunctions, d.resolve_rename, resolveFunctions_rename ds]

lemma GetterDecl.resolve_rename : (d : GetterDecl) → (r : Resolution) →
    (d.rename ρ).resolve (r.rename ρ before) = (d.resolve r).rename ρ before
  | .mk _ body, r => by
    have he := enterFunction_rename ρ before r []
    rw [List.map_nil] at he
    simp only [GetterDecl.rename, GetterDecl.resolve, he, resolveStmts_rename body]
    rfl

lemma resolveGetters_rename : (ds : List GetterDecl) → (r : Resolution) →
    resolveGetters (renameGetters ρ ds) (r.rename ρ before) =
      (resolveGetters ds r).rename ρ before
  | [], r => by simp only [renameGetters, resolveGetters]
  | d :: ds, r => by
    simp only [renameGetters, resolveGetters, d.resolve_rename, resolveGetters_rename ds]

lemma Stmt.resolve_rename : (s : Stmt) → (r : Resolution) →
    (s.rename ρ).resolve (r.rename ρ before) = (s.resolve r).rename ρ before
  | .expression value, r => by simp only [Stmt.rename, Stmt.resolve, value.resolve_rename]
  | .print _ value, r => by simp only [Stmt.rename, Stmt.resolve, value.resolve_rename]
  | .var name none, r => by simp only [Stmt.rename, Stmt.resolve, introduce_rename]
  | .var name (some value), r => by
    simp only [Stmt.rename, Stmt.resolve, declare_rename, value.resolve_rename, define_rename]
  | .block body, r => by
    have hb := resolveStmts_rename body r.openScope
    exact congrArg closeScope hb
  | .function declaration, r => by
    simp only [Stmt.rename, Stmt.resolve, FunctionDecl.rename_name, introduce_rename,
      declaration.resolve_rename]
  | .getter declaration, r => by
    simp only [Stmt.rename, Stmt.resolve, GetterDecl.rename_name, introduce_rename,
      declaration.resolve_rename]
  | .classDecl name none methods getters, r => by
    have hm : (r.rename ρ before).atMembers (name.rename ρ) none =
        (r.atMembers name none).rename ρ before := by
      rw [atMembers_none_eq, atMembers_none_eq]
      rfl
    rw [Stmt.rename, Stmt.resolve_classDecl_none, Stmt.resolve_classDecl_none, hm,
      resolveFunctions_rename methods, resolveGetters_rename getters]
    rfl
  | .classDecl name (some superclass) methods getters, r => by
    have hm : (r.rename ρ before).atMembers (name.rename ρ) (some (superclass.rename ρ)) =
        (r.atMembers name (some superclass)).rename ρ before := by
      rw [atMembers_some_eq, atMembers_some_eq, atSuperclass_rename, superclass.resolve_rename]
      rfl
    rw [Stmt.rename, Stmt.resolve_classDecl_some, Stmt.resolve_classDecl_some, hm,
      resolveFunctions_rename methods, resolveGetters_rename getters]
    rfl
  | .ifStmt condition consequent none, r => by
    simp only [Stmt.rename, Stmt.resolve, condition.resolve_rename, consequent.resolve_rename]
  | .ifStmt condition consequent (some alternative), r => by
    simp only [Stmt.rename, Stmt.resolve, condition.resolve_rename, consequent.resolve_rename,
      alternative.resolve_rename]
  | .whileStmt condition body, r => by
    have hb := body.resolve_rename (condition.resolve r).enterLoop
    rw [Stmt.rename, Stmt.resolve, Stmt.resolve, condition.resolve_rename]
    exact congrArg (fun done : Resolution => { done with loopDepth := done.loopDepth - 1 }) hb
  | .breakStmt keyword, r => failIf_rename ρ before r _ _ keyword
  | .returnStmt keyword none, r => failIf_rename ρ before r _ _ keyword
  | .returnStmt keyword (some value), r => by
    have hv := value.resolve_rename (r.failIf (!r.inFunction) .returnAtTop keyword)
    rw [← failIf_rename] at hv
    exact hv

lemma resolveStmts_rename : (ss : List Stmt) → (r : Resolution) →
    resolveStmts (renameStmts ρ ss) (r.rename ρ before) = (resolveStmts ss r).rename ρ before
  | [], r => by simp only [renameStmts, resolveStmts]
  | s :: ss, r => by
    simp only [renameStmts, resolveStmts, s.resolve_rename, resolveStmts_rename ss]

end

end

lemma resolveStmts_append (ss ss' : List Stmt) (r : Resolution) :
    resolveStmts (ss ++ ss') r = resolveStmts ss' (resolveStmts ss r) := by
  induction ss generalizing r with
  | nil => simp only [List.nil_append, resolveStmts]
  | cons s ss ih => simp only [List.cons_append, resolveStmts, ih]

/-- A renamed program has the same distances and mistakes. -/
theorem Program.resolve_rename (ρ : Renaming) (p : Program) :
    Program.resolve (renameStmts ρ p) = (Program.resolve p).rename ρ #[] := by
  have hstart : (Resolution.start).rename ρ #[] = .start := by
    simp [Resolution.rename, Resolution.start]
  have h := resolveStmts_rename ρ #[] p .start
  rwa [hstart] at h

/-- Renaming makes no mistakes. -/
lemma Program.errors_isEmpty_rename (ρ : Renaming) (p : Program) :
    (Program.resolve (renameStmts ρ p)).errors.isEmpty = p.resolve.errors.isEmpty := by
  simp [Program.resolve_rename, Resolution.rename, Array.isEmpty]

/-- Behind a program without mistakes, the walk is where it started. -/
lemma Program.resolve_eq_of_no_errors {p : Program} (h : p.resolve.errors = #[]) :
    p.resolve = { Resolution.start with found := p.resolve.found } := by
  have hw := stmts_walked p .start
  have hs : p.resolve.scopes = [] := List.eq_nil_of_length_eq_zero hw.length_eq
  have hf : p.resolve.inFunction = false := hw.inFunction_eq
  have hc : p.resolve.classContext = .outside := hw.classContext_eq
  have hl : p.resolve.loopDepth = 0 := hw.loopDepth_eq
  cases hr : p.resolve with
  | mk scopes inFunction context loopDepth found errors =>
    simp only [hr] at h hs hf hc hl
    subst h hs hf hc hl
    rfl

/-- A program in two parts, of which the first has no mistakes: the second is resolved as if it
were alone. -/
theorem Program.resolve_append (ρ : Renaming) {p p' : Program} (h : p.resolve.errors = #[]) :
    Program.resolve (p ++ renameStmts ρ p') = (Program.resolve p').rename ρ p.resolve.found := by
  have hstart : (Resolution.start).rename ρ p.resolve.found =
      { Resolution.start with found := p.resolve.found } := by
    simp [Resolution.rename, Resolution.start]
  calc Program.resolve (p ++ renameStmts ρ p')
      = resolveStmts (renameStmts ρ p') p.resolve := resolveStmts_append _ _ _
    _ = resolveStmts (renameStmts ρ p') ((Resolution.start).rename ρ p.resolve.found) := by
      rw [hstart, ← Program.resolve_eq_of_no_errors h]
    _ = (Program.resolve p').rename ρ p.resolve.found := resolveStmts_rename _ _ p' .start

end Scripting
