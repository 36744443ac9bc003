import Scripting.Program.Printer
import Scripting.Proofs.Program.Shape

/-!
# Renaming programs

A renaming gives the nodes of a program other identities and its tokens other lines. Two renamings
can be done in one, and a renaming that touches nothing of a tree leaves it alone. Neither
identities nor lines show when a program is printed.
-/

namespace Scripting

/-- Other identities for nodes and other lines for tokens. -/
structure Renaming where
  node : NodeId → NodeId
  line : Nat → Nat

/-- One renaming after another. -/
def Renaming.comp (σ ρ : Renaming) : Renaming :=
  ⟨σ.node ∘ ρ.node, σ.line ∘ ρ.line⟩

/-- Other identities for nodes, and the same lines. -/
def Renaming.ofNodes (node : NodeId → NodeId) : Renaming :=
  ⟨node, id⟩

@[simp] lemma Renaming.ofNodes_node (node : NodeId → NodeId) : (ofNodes node).node = node := rfl

/-! ### Trees -/

/-- A token with another line. -/
def Token.rename (ρ : Renaming) (t : Token) : Token :=
  { t with line := ρ.line t.line }

mutual

/-- Rename an expression. -/
def Expr.rename (ρ : Renaming) : Expr → Expr
  | .literal value => .literal value
  | .grouping inner => .grouping (inner.rename ρ)
  | .unary operator operand => .unary (operator.rename ρ) (operand.rename ρ)
  | .binary left operator right => .binary (left.rename ρ) (operator.rename ρ) (right.rename ρ)
  | .logical left operator right => .logical (left.rename ρ) (operator.rename ρ) (right.rename ρ)
  | .ternary condition first second =>
    .ternary (condition.rename ρ) (first.rename ρ) (second.rename ρ)
  | .name id name => .name (ρ.node id) (name.rename ρ)
  | .assign id name value => .assign (ρ.node id) (name.rename ρ) (value.rename ρ)
  | .call callee paren arguments =>
    .call (callee.rename ρ) (paren.rename ρ) (renameExprs ρ arguments)
  | .get object name => .get (object.rename ρ) (name.rename ρ)
  | .nilGet object name => .nilGet (object.rename ρ) (name.rename ρ)
  | .set object name value => .set (object.rename ρ) (name.rename ρ) (value.rename ρ)
  | .this id keyword => .this (ρ.node id) (keyword.rename ρ)
  | .super id keyword method => .super (ρ.node id) (keyword.rename ρ) (method.rename ρ)
  | .lambda declaration => .lambda (declaration.rename ρ)

/-- Rename expressions. -/
def renameExprs (ρ : Renaming) : List Expr → List Expr
  | [] => []
  | e :: es => e.rename ρ :: renameExprs ρ es

/-- Rename a function. -/
def FunctionDecl.rename (ρ : Renaming) : FunctionDecl → FunctionDecl
  | .mk name params body => .mk (name.rename ρ) (params.map (Token.rename ρ)) (renameStmts ρ body)

/-- Rename methods. -/
def renameFunctions (ρ : Renaming) : List FunctionDecl → List FunctionDecl
  | [] => []
  | f :: fs => f.rename ρ :: renameFunctions ρ fs

/-- Rename a getter. -/
def GetterDecl.rename (ρ : Renaming) : GetterDecl → GetterDecl
  | .mk name body => .mk (name.rename ρ) (renameStmts ρ body)

/-- Rename getters. -/
def renameGetters (ρ : Renaming) : List GetterDecl → List GetterDecl
  | [] => []
  | g :: gs => g.rename ρ :: renameGetters ρ gs

/-- Rename a statement. -/
def Stmt.rename (ρ : Renaming) : Stmt → Stmt
  | .expression value => .expression (value.rename ρ)
  | .print keyword value => .print (keyword.rename ρ) (value.rename ρ)
  | .var name none => .var (name.rename ρ) none
  | .var name (some value) => .var (name.rename ρ) (some (value.rename ρ))
  | .block body => .block (renameStmts ρ body)
  | .function declaration => .function (declaration.rename ρ)
  | .getter declaration => .getter (declaration.rename ρ)
  | .classDecl name none methods getters =>
    .classDecl (name.rename ρ) none (renameFunctions ρ methods) (renameGetters ρ getters)
  | .classDecl name (some superclass) methods getters =>
    .classDecl (name.rename ρ) (some (superclass.rename ρ)) (renameFunctions ρ methods)
      (renameGetters ρ getters)
  | .ifStmt condition consequent none =>
    .ifStmt (condition.rename ρ) (consequent.rename ρ) none
  | .ifStmt condition consequent (some alternative) =>
    .ifStmt (condition.rename ρ) (consequent.rename ρ) (some (alternative.rename ρ))
  | .whileStmt condition body => .whileStmt (condition.rename ρ) (body.rename ρ)
  | .breakStmt keyword => .breakStmt (keyword.rename ρ)
  | .returnStmt keyword none => .returnStmt (keyword.rename ρ) none
  | .returnStmt keyword (some value) => .returnStmt (keyword.rename ρ) (some (value.rename ρ))

/-- Rename statements. -/
def renameStmts (ρ : Renaming) : List Stmt → List Stmt
  | [] => []
  | s :: ss => s.rename ρ :: renameStmts ρ ss

end

section

variable (ρ : Renaming)

@[simp] lemma Token.rename_kind (t : Token) : (t.rename ρ).kind = t.kind := rfl

@[simp] lemma Token.rename_lexeme (t : Token) : (t.rename ρ).lexeme = t.lexeme := rfl

@[simp] lemma Token.rename_literal (t : Token) : (t.rename ρ).literal = t.literal := rfl

@[simp] lemma Token.rename_line (t : Token) : (t.rename ρ).line = ρ.line t.line := rfl

@[simp] lemma Token.rename_place (t : Token) : (t.rename ρ).place = t.place := rfl

@[simp] lemma FunctionDecl.rename_name (d : FunctionDecl) :
    (d.rename ρ).name = d.name.rename ρ := by
  cases d
  simp [FunctionDecl.rename, FunctionDecl.name]

@[simp] lemma FunctionDecl.rename_params (d : FunctionDecl) :
    (d.rename ρ).params = d.params.map (Token.rename ρ) := by
  cases d
  simp [FunctionDecl.rename, FunctionDecl.params]

@[simp] lemma FunctionDecl.rename_body (d : FunctionDecl) :
    (d.rename ρ).body = renameStmts ρ d.body := by
  cases d
  simp [FunctionDecl.rename, FunctionDecl.body]

@[simp] lemma GetterDecl.rename_name (d : GetterDecl) :
    (d.rename ρ).name = d.name.rename ρ := by
  cases d
  simp [GetterDecl.rename, GetterDecl.name]

@[simp] lemma GetterDecl.rename_body (d : GetterDecl) :
    (d.rename ρ).body = renameStmts ρ d.body := by
  cases d
  simp [GetterDecl.rename, GetterDecl.body]

lemma renameStmts_eq_map (ss : List Stmt) : renameStmts ρ ss = ss.map (Stmt.rename ρ) := by
  induction ss with
  | nil => simp [renameStmts]
  | cons s ss ih => simp [renameStmts, ih]

lemma renameStmts_length (ss : List Stmt) : (renameStmts ρ ss).length = ss.length := by
  rw [renameStmts_eq_map, List.length_map]

mutual

/-- Renaming brings no `break` in. -/
lemma Stmt.breaks_of_rename : (s : Stmt) → (s.rename ρ).Breaks → s.Breaks
  | .breakStmt keyword, _ => .here keyword
  | .block body, h => by
    rw [Stmt.rename] at h
    cases h with
    | block hmem hs =>
      obtain ⟨s, hs, hb⟩ := breaks_of_renameStmts body ⟨_, hmem, hs⟩
      exact .block hs hb
  | .ifStmt _ consequent none, h => by
    rw [Stmt.rename] at h
    cases h with
    | consequent h => exact .consequent (consequent.breaks_of_rename h)
  | .ifStmt _ consequent (some alternative), h => by
    rw [Stmt.rename] at h
    cases h with
    | consequent h => exact .consequent (consequent.breaks_of_rename h)
    | alternative h => exact .alternative (alternative.breaks_of_rename h)
  | .expression _, h | .print _ _, h | .var _ none, h | .var _ (some _), h | .function _, h
  | .getter _, h | .classDecl _ none _ _, h | .classDecl _ (some _) _ _, h | .whileStmt _ _, h
  | .returnStmt _ none, h | .returnStmt _ (some _), h => by
    rw [Stmt.rename] at h
    cases h

lemma breaks_of_renameStmts : (ss : List Stmt) → (∃ s ∈ renameStmts ρ ss, s.Breaks) →
    ∃ s ∈ ss, s.Breaks
  | [], h => by simp [renameStmts] at h
  | s :: ss, h => by
    obtain ⟨s', hs', hb⟩ := h
    rw [renameStmts] at hs'
    rcases List.mem_cons.mp hs' with rfl | hs'
    · exact ⟨s, List.mem_cons_self, s.breaks_of_rename hb⟩
    · obtain ⟨inner, hinner, hb⟩ := breaks_of_renameStmts ss ⟨s', hs', hb⟩
      exact ⟨inner, List.mem_cons_of_mem _ hinner, hb⟩

end

end

/-! ### Two renamings, and none -/

section

variable (σ ρ : Renaming)

lemma Token.rename_comp (t : Token) : t.rename (σ.comp ρ) = (t.rename ρ).rename σ := rfl

lemma Token.map_rename_comp (ts : List Token) :
    ts.map (Token.rename (σ.comp ρ)) = (ts.map (Token.rename ρ)).map (Token.rename σ) := by
  rw [List.map_map]
  rfl

mutual

lemma Expr.rename_comp : (e : Expr) → e.rename (σ.comp ρ) = (e.rename ρ).rename σ
  | .literal _ => by simp only [Expr.rename]
  | .grouping inner => by simp only [Expr.rename, inner.rename_comp]
  | .unary _ operand => by simp only [Expr.rename, operand.rename_comp, Token.rename_comp]
  | .binary left _ right => by
    simp only [Expr.rename, left.rename_comp, right.rename_comp, Token.rename_comp]
  | .logical left _ right => by
    simp only [Expr.rename, left.rename_comp, right.rename_comp, Token.rename_comp]
  | .ternary condition first second => by
    simp only [Expr.rename, condition.rename_comp, first.rename_comp, second.rename_comp]
  | .name _ _ => rfl
  | .assign _ _ value => by
    simp only [Expr.rename, value.rename_comp, Token.rename_comp]
    rfl
  | .call callee _ arguments => by
    simp only [Expr.rename, callee.rename_comp, renameExprs_comp arguments, Token.rename_comp]
  | .get object _ => by simp only [Expr.rename, object.rename_comp, Token.rename_comp]
  | .nilGet object _ => by simp only [Expr.rename, object.rename_comp, Token.rename_comp]
  | .set object _ value => by
    simp only [Expr.rename, object.rename_comp, value.rename_comp, Token.rename_comp]
  | .this _ _ => rfl
  | .super _ _ _ => rfl
  | .lambda declaration => by simp only [Expr.rename, declaration.rename_comp]

lemma renameExprs_comp : (es : List Expr) →
    renameExprs (σ.comp ρ) es = renameExprs σ (renameExprs ρ es)
  | [] => by simp only [renameExprs]
  | e :: es => by simp only [renameExprs, e.rename_comp, renameExprs_comp es]

lemma FunctionDecl.rename_comp : (d : FunctionDecl) →
    d.rename (σ.comp ρ) = (d.rename ρ).rename σ
  | .mk _ params body => by
    simp only [FunctionDecl.rename, Token.rename_comp, Token.map_rename_comp,
      renameStmts_comp body]

lemma renameFunctions_comp : (ds : List FunctionDecl) →
    renameFunctions (σ.comp ρ) ds = renameFunctions σ (renameFunctions ρ ds)
  | [] => by simp only [renameFunctions]
  | d :: ds => by simp only [renameFunctions, d.rename_comp, renameFunctions_comp ds]

lemma GetterDecl.rename_comp : (d : GetterDecl) → d.rename (σ.comp ρ) = (d.rename ρ).rename σ
  | .mk _ body => by simp only [GetterDecl.rename, Token.rename_comp, renameStmts_comp body]

lemma renameGetters_comp : (ds : List GetterDecl) →
    renameGetters (σ.comp ρ) ds = renameGetters σ (renameGetters ρ ds)
  | [] => by simp only [renameGetters]
  | d :: ds => by simp only [renameGetters, d.rename_comp, renameGetters_comp ds]

lemma Stmt.rename_comp : (s : Stmt) → s.rename (σ.comp ρ) = (s.rename ρ).rename σ
  | .expression value => by simp only [Stmt.rename, value.rename_comp]
  | .print _ value => by simp only [Stmt.rename, value.rename_comp, Token.rename_comp]
  | .var _ none => rfl
  | .var _ (some value) => by simp only [Stmt.rename, value.rename_comp, Token.rename_comp]
  | .block body => by simp only [Stmt.rename, renameStmts_comp body]
  | .function declaration => by simp only [Stmt.rename, declaration.rename_comp]
  | .getter declaration => by simp only [Stmt.rename, declaration.rename_comp]
  | .classDecl _ none methods getters => by
    simp only [Stmt.rename, renameFunctions_comp methods, renameGetters_comp getters,
      Token.rename_comp]
  | .classDecl _ (some superclass) methods getters => by
    simp only [Stmt.rename, superclass.rename_comp, renameFunctions_comp methods,
      renameGetters_comp getters, Token.rename_comp]
  | .ifStmt condition consequent none => by
    simp only [Stmt.rename, condition.rename_comp, consequent.rename_comp]
  | .ifStmt condition consequent (some alternative) => by
    simp only [Stmt.rename, condition.rename_comp, consequent.rename_comp,
      alternative.rename_comp]
  | .whileStmt condition body => by
    simp only [Stmt.rename, condition.rename_comp, body.rename_comp]
  | .breakStmt _ => rfl
  | .returnStmt _ none => rfl
  | .returnStmt _ (some value) => by simp only [Stmt.rename, value.rename_comp, Token.rename_comp]

lemma renameStmts_comp : (ss : List Stmt) →
    renameStmts (σ.comp ρ) ss = renameStmts σ (renameStmts ρ ss)
  | [] => by simp only [renameStmts]
  | s :: ss => by simp only [renameStmts, s.rename_comp, renameStmts_comp ss]

end

end

section

variable {node : NodeId → NodeId}

lemma Token.rename_eq_self (t : Token) : t.rename (.ofNodes node) = t := rfl

lemma Token.map_rename_eq_self (ts : List Token) :
    ts.map (Token.rename (.ofNodes node)) = ts :=
  List.map_id ts

/-! A renaming that keeps the lines and the identities of a tree leaves the tree alone. -/

mutual

lemma Expr.rename_eq_self : (e : Expr) → (∀ id ∈ e.ids, node id = id) → e.rename (.ofNodes node) = e
  | .literal _, _ => by simp only [Expr.rename]
  | .grouping inner, h => by simp only [Expr.rename, inner.rename_eq_self h]
  | .unary _ operand, h => by
    simp only [Expr.rename, operand.rename_eq_self h, Token.rename_eq_self]
  | .binary left _ right, h => by
    obtain ⟨hx, hy⟩ := List.forall_mem_append.mp h
    simp only [Expr.rename, left.rename_eq_self hx, right.rename_eq_self hy,
      Token.rename_eq_self]
  | .logical left _ right, h => by
    obtain ⟨hx, hy⟩ := List.forall_mem_append.mp h
    simp only [Expr.rename, left.rename_eq_self hx, right.rename_eq_self hy,
      Token.rename_eq_self]
  | .ternary condition first second, h => by
    obtain ⟨hx, h⟩ := List.forall_mem_append.mp h
    obtain ⟨hy, hz⟩ := List.forall_mem_append.mp h
    simp only [Expr.rename, condition.rename_eq_self hx, first.rename_eq_self hy,
      second.rename_eq_self hz]
  | .name id _, h => by
    simp only [Expr.rename, Renaming.ofNodes_node, h id List.mem_cons_self, Token.rename_eq_self]
  | .assign id _ value, h => by
    obtain ⟨hx, hy⟩ := List.forall_mem_append.mp h
    simp only [Expr.rename, Renaming.ofNodes_node, hy id List.mem_cons_self,
      value.rename_eq_self hx, Token.rename_eq_self]
  | .call callee _ arguments, h => by
    obtain ⟨hx, hy⟩ := List.forall_mem_append.mp h
    simp only [Expr.rename, callee.rename_eq_self hx, renameExprs_eq_self arguments hy,
      Token.rename_eq_self]
  | .get object _, h => by
    simp only [Expr.rename, object.rename_eq_self h, Token.rename_eq_self]
  | .nilGet object _, h => by
    simp only [Expr.rename, object.rename_eq_self h, Token.rename_eq_self]
  | .set object _ value, h => by
    obtain ⟨hx, hy⟩ := List.forall_mem_append.mp h
    simp only [Expr.rename, object.rename_eq_self hx, value.rename_eq_self hy,
      Token.rename_eq_self]
  | .this id _, h => by
    simp only [Expr.rename, Renaming.ofNodes_node, h id List.mem_cons_self, Token.rename_eq_self]
  | .super id _ _, h => by
    simp only [Expr.rename, Renaming.ofNodes_node, h id List.mem_cons_self, Token.rename_eq_self]
  | .lambda declaration, h => by simp only [Expr.rename, declaration.rename_eq_self h]

lemma renameExprs_eq_self : (es : List Expr) → (∀ id ∈ exprsIds es, node id = id) →
    renameExprs (.ofNodes node) es = es
  | [], _ => by simp only [renameExprs]
  | e :: es, h => by
    obtain ⟨hx, hy⟩ := List.forall_mem_append.mp h
    simp only [renameExprs, e.rename_eq_self hx, renameExprs_eq_self es hy]

lemma FunctionDecl.rename_eq_self : (d : FunctionDecl) → (∀ id ∈ d.ids, node id = id) →
    d.rename (.ofNodes node) = d
  | .mk _ params body, h => by
    simp only [FunctionDecl.rename, Token.rename_eq_self, Token.map_rename_eq_self,
      renameStmts_eq_self body h]

lemma renameFunctions_eq_self : (ds : List FunctionDecl) →
    (∀ id ∈ functionsIds ds, node id = id) → renameFunctions (.ofNodes node) ds = ds
  | [], _ => by simp only [renameFunctions]
  | d :: ds, h => by
    obtain ⟨hx, hy⟩ := List.forall_mem_append.mp h
    simp only [renameFunctions, d.rename_eq_self hx, renameFunctions_eq_self ds hy]

lemma GetterDecl.rename_eq_self : (d : GetterDecl) → (∀ id ∈ d.ids, node id = id) →
    d.rename (.ofNodes node) = d
  | .mk _ body, h => by
    simp only [GetterDecl.rename, Token.rename_eq_self, renameStmts_eq_self body h]

lemma renameGetters_eq_self : (ds : List GetterDecl) →
    (∀ id ∈ gettersIds ds, node id = id) → renameGetters (.ofNodes node) ds = ds
  | [], _ => by simp only [renameGetters]
  | d :: ds, h => by
    obtain ⟨hx, hy⟩ := List.forall_mem_append.mp h
    simp only [renameGetters, d.rename_eq_self hx, renameGetters_eq_self ds hy]

lemma Stmt.rename_eq_self : (s : Stmt) → (∀ id ∈ s.ids, node id = id) → s.rename (.ofNodes node) = s
  | .expression value, h => by simp only [Stmt.rename, value.rename_eq_self h]
  | .print _ value, h => by
    simp only [Stmt.rename, value.rename_eq_self h, Token.rename_eq_self]
  | .var _ none, _ => by simp only [Stmt.rename, Token.rename_eq_self]
  | .var _ (some value), h => by
    simp only [Stmt.rename, value.rename_eq_self h, Token.rename_eq_self]
  | .block body, h => by simp only [Stmt.rename, renameStmts_eq_self body h]
  | .function declaration, h => by simp only [Stmt.rename, declaration.rename_eq_self h]
  | .getter declaration, h => by simp only [Stmt.rename, declaration.rename_eq_self h]
  | .classDecl _ none methods getters, h => by
    obtain ⟨hx, hy⟩ := List.forall_mem_append.mp h
    simp only [Stmt.rename, renameFunctions_eq_self methods hx, renameGetters_eq_self getters hy,
      Token.rename_eq_self]
  | .classDecl _ (some superclass) methods getters, h => by
    obtain ⟨hx, h⟩ := List.forall_mem_append.mp h
    obtain ⟨hy, hz⟩ := List.forall_mem_append.mp h
    simp only [Stmt.rename, superclass.rename_eq_self hx, renameFunctions_eq_self methods hy,
      renameGetters_eq_self getters hz, Token.rename_eq_self]
  | .ifStmt condition consequent none, h => by
    obtain ⟨hx, hy⟩ := List.forall_mem_append.mp h
    simp only [Stmt.rename, condition.rename_eq_self hx, consequent.rename_eq_self hy]
  | .ifStmt condition consequent (some alternative), h => by
    obtain ⟨hx, h⟩ := List.forall_mem_append.mp h
    obtain ⟨hy, hz⟩ := List.forall_mem_append.mp h
    simp only [Stmt.rename, condition.rename_eq_self hx, consequent.rename_eq_self hy,
      alternative.rename_eq_self hz]
  | .whileStmt condition body, h => by
    obtain ⟨hx, hy⟩ := List.forall_mem_append.mp h
    simp only [Stmt.rename, condition.rename_eq_self hx, body.rename_eq_self hy]
  | .breakStmt _, _ => by simp only [Stmt.rename, Token.rename_eq_self]
  | .returnStmt _ none, _ => by simp only [Stmt.rename, Token.rename_eq_self]
  | .returnStmt _ (some value), h => by
    simp only [Stmt.rename, value.rename_eq_self h, Token.rename_eq_self]

lemma renameStmts_eq_self : (ss : List Stmt) → (∀ id ∈ stmtsIds ss, node id = id) →
    renameStmts (.ofNodes node) ss = ss
  | [], _ => by simp only [renameStmts]
  | s :: ss, h => by
    obtain ⟨hx, hy⟩ := List.forall_mem_append.mp h
    simp only [renameStmts, s.rename_eq_self hx, renameStmts_eq_self ss hy]

end

end

/-! ### Printing -/

section

variable (ρ : Renaming)

lemma parameterList_rename (params : List Token) :
    parameterList (params.map (Token.rename ρ)) = parameterList params := by
  simp [parameterList, Function.comp_def]

mutual

lemma Expr.render_rename : (e : Expr) → (e.rename ρ).render = e.render
  | .literal (.text _) => by simp only [Expr.rename]
  | .literal .nil => by simp only [Expr.rename]
  | .literal (.bool _) => by simp only [Expr.rename]
  | .literal (.number _) => by simp only [Expr.rename]
  | .grouping inner => by simp only [Expr.rename, Expr.render, inner.render_rename]
  | .unary _ operand => by
    simp only [Expr.rename, Expr.render, operand.render_rename, Token.rename_lexeme]
  | .binary left _ right => by
    simp only [Expr.rename, Expr.render, left.render_rename, right.render_rename,
      Token.rename_lexeme]
  | .logical left _ right => by
    simp only [Expr.rename, Expr.render, left.render_rename, right.render_rename,
      Token.rename_lexeme]
  | .ternary condition first second => by
    simp only [Expr.rename, Expr.render, condition.render_rename, first.render_rename,
      second.render_rename]
  | .name _ _ => by simp only [Expr.rename, Expr.render, Token.rename_lexeme]
  | .assign _ _ value => by
    simp only [Expr.rename, Expr.render, value.render_rename, Token.rename_lexeme]
  | .call callee _ arguments => by
    simp only [Expr.rename, Expr.render, callee.render_rename, renderExprs_rename arguments]
  | .get object _ => by
    simp only [Expr.rename, Expr.render, object.render_rename, Token.rename_lexeme]
  | .nilGet object _ => by
    simp only [Expr.rename, Expr.render, object.render_rename, Token.rename_lexeme]
  | .set object _ value => by
    simp only [Expr.rename, Expr.render, object.render_rename, value.render_rename,
      Token.rename_lexeme]
  | .this _ _ => by simp only [Expr.rename, Expr.render]
  | .super _ _ _ => by simp only [Expr.rename, Expr.render, Token.rename_lexeme]
  | .lambda (.mk _ _ body) => by
    simp only [Expr.rename, FunctionDecl.rename, Expr.render, parameterList_rename,
      renderStmts_rename body]

lemma renderExprs_rename : (es : List Expr) → renderExprs (renameExprs ρ es) = renderExprs es
  | [] => by simp only [renameExprs]
  | e :: es => by simp only [renameExprs, renderExprs, e.render_rename, renderExprs_rename es]

lemma FunctionDecl.render_rename : (d : FunctionDecl) → (d.rename ρ).render = d.render
  | .mk _ _ body => by
    simp only [FunctionDecl.rename, FunctionDecl.render, parameterList_rename,
      renderStmts_rename body, Token.rename_lexeme]

lemma renderFunctions_rename : (ds : List FunctionDecl) →
    renderFunctions (renameFunctions ρ ds) = renderFunctions ds
  | [] => by simp only [renameFunctions]
  | d :: ds => by
    simp only [renameFunctions, renderFunctions, d.render_rename, renderFunctions_rename ds]

lemma GetterDecl.render_rename : (d : GetterDecl) → (d.rename ρ).render = d.render
  | .mk _ body => by
    simp only [GetterDecl.rename, GetterDecl.render, renderStmts_rename body,
      Token.rename_lexeme]

lemma renderGetters_rename : (ds : List GetterDecl) →
    renderGetters (renameGetters ρ ds) = renderGetters ds
  | [] => by simp only [renameGetters]
  | d :: ds => by
    simp only [renameGetters, renderGetters, d.render_rename, renderGetters_rename ds]

lemma Stmt.render_rename : (s : Stmt) → (s.rename ρ).render = s.render
  | .expression value => by simp only [Stmt.rename, Stmt.render, value.render_rename]
  | .print _ value => by simp only [Stmt.rename, Stmt.render, value.render_rename]
  | .var _ none => by simp only [Stmt.rename, Stmt.render, Token.rename_lexeme]
  | .var _ (some value) => by
    simp only [Stmt.rename, Stmt.render, value.render_rename, Token.rename_lexeme]
  | .block body => by simp only [Stmt.rename, Stmt.render, renderStmts_rename body]
  | .function declaration => by simp only [Stmt.rename, Stmt.render, declaration.render_rename]
  | .getter declaration => by simp only [Stmt.rename, Stmt.render, declaration.render_rename]
  | .classDecl _ none methods getters => by
    simp only [Stmt.rename, Stmt.render, renderFunctions_rename methods,
      renderGetters_rename getters, Token.rename_lexeme]
  | .classDecl _ (some superclass) methods getters => by
    simp only [Stmt.rename, Stmt.render, superclass.render_rename,
      renderFunctions_rename methods, renderGetters_rename getters, Token.rename_lexeme]
  | .ifStmt condition consequent none => by
    simp only [Stmt.rename, Stmt.render, condition.render_rename, consequent.render_rename]
  | .ifStmt condition consequent (some alternative) => by
    simp only [Stmt.rename, Stmt.render, condition.render_rename, consequent.render_rename,
      alternative.render_rename]
  | .whileStmt condition body => by
    simp only [Stmt.rename, Stmt.render, condition.render_rename, body.render_rename]
  | .breakStmt _ => by simp only [Stmt.rename, Stmt.render]
  | .returnStmt _ none => by simp only [Stmt.rename, Stmt.render]
  | .returnStmt _ (some value) => by simp only [Stmt.rename, Stmt.render, value.render_rename]

lemma renderStmts_rename : (ss : List Stmt) → renderStmts (renameStmts ρ ss) = renderStmts ss
  | [] => by simp only [renameStmts]
  | s :: ss => by simp only [renameStmts, renderStmts, s.render_rename, renderStmts_rename ss]

end

end

end Scripting
