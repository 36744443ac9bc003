import Scripting.Proofs.Program.LocalNames
import Scripting.Proofs.Program.Tokens
import Scripting.Proofs.Resolution.Places

/-!
# Relabelled code

Two places in programs differ by a relabelling, within marked scopes, if they are the same but for
the names that mean something in a marked scope: these have the new spelling in one where they have
the old one in the other. Within a marked scope, nothing may have the new spelling from the start.
Without marks, every place is like itself; and a program is like the relabelled one, provided that
the scope declares the name as a variable and the new spelling is not in use.
-/

namespace Scripting

namespace Relabeling

variable (ρ : Relabeling)

@[simp] lemma word_false (name : String) : ρ.word false name = name := by
  simp [word]

@[simp] lemma token_false (t : Token) : ρ.token false t = t := by
  simp [token]

lemma word_of_ne {name : String} (h : name ≠ ρ.old) (mark : Bool) : ρ.word mark name = name := by
  simp [word, h]

/-- Both spellings are those of names; none is reserved. -/
structure OfNames : Prop where
  old : TokenKind.ofWord ρ.old = .identifier
  new : TokenKind.ofWord ρ.new = .identifier

/-- Within marked scopes, a token has another spelling if it has a mark. -/
structure Renames (marks : List Bool) (mark : Bool) (t t' : Token) : Prop where
  eq : t' = ρ.token mark t
  ne : true ∈ marks → t.lexeme ≠ ρ.new

variable {ρ}

namespace OfNames

variable {name : String} (h : ρ.OfNames) (hn : TokenKind.ofWord name ≠ .identifier)

include h hn

/-- Reserved words keep their spelling. -/
lemma word_eq (mark : Bool) : ρ.word mark name = name :=
  ρ.word_of_ne (fun he : name = ρ.old => hn (he ▸ h.old)) mark

lemma ne_new : name ≠ ρ.new :=
  fun he => hn (he ▸ h.new)

end OfNames

/-- Without marks, nothing has another spelling. -/
lemma renames_self {marks : List Bool} (h : true ∉ marks) (t : Token) :
    ρ.Renames marks false t t :=
  ⟨by simp, fun hm => absurd hm h⟩

/-- What is not spelled like the name keeps its spelling. -/
lemma renames_of_ne {t : Token} {mark : Bool} (hold : mark = true → t.lexeme ≠ ρ.old)
    (hnew : t.lexeme ≠ ρ.new) (marks : List Bool) : ρ.Renames marks mark t t := by
  refine ⟨?_, fun _ => hnew⟩
  cases mark with
  | false => simp
  | true => simp [token, ρ.word_of_ne (hold rfl)]

/-- The mark at a distance is one of the marks. -/
lemma mem_of_markAt {marks : List Bool} {distance? : Option Nat}
    (h : markAt marks distance? = true) : true ∈ marks := by
  rw [markAt, Option.getD_eq_iff] at h
  obtain ⟨distance, -, hd⟩ := Option.bind_eq_some_iff.mp (h.resolve_right (by simp))
  exact List.mem_of_getElem? hd

lemma mem_of_headD {marks : List Bool} (h : marks.headD false = true) : true ∈ marks := by
  cases marks with
  | nil => cases h
  | cons mark marks =>
    obtain rfl : mark = true := h
    exact List.mem_cons_self

end Relabeling

/-- Two places are the same but for relabelled names. The marks are those of the scopes around
them, the innermost first. -/
inductive Relabeled (ρ : Relabeling) : List Bool → Place → Place → Prop
  -- expressions
  | literal {marks : List Bool} {value : Literal} :
    Relabeled ρ marks (.expr (.literal value)) (.expr (.literal value))
  | grouping {marks : List Bool} {inner inner' : Expr} :
    Relabeled ρ marks (.expr inner) (.expr inner') →
      Relabeled ρ marks (.expr (.grouping inner)) (.expr (.grouping inner'))
  | unary {marks : List Bool} {operator : Token} {operand operand' : Expr} :
    Relabeled ρ marks (.expr operand) (.expr operand') →
      Relabeled ρ marks (.expr (.unary operator operand)) (.expr (.unary operator operand'))
  | binary {marks : List Bool} {operator : Token} {left left' right right' : Expr} :
    Relabeled ρ marks (.expr left) (.expr left') → Relabeled ρ marks (.expr right) (.expr right') →
      Relabeled ρ marks (.expr (.binary left operator right))
        (.expr (.binary left' operator right'))
  | logical {marks : List Bool} {operator : Token} {left left' right right' : Expr} :
    Relabeled ρ marks (.expr left) (.expr left') → Relabeled ρ marks (.expr right) (.expr right') →
      Relabeled ρ marks (.expr (.logical left operator right))
        (.expr (.logical left' operator right'))
  | ternary {marks : List Bool} {condition condition' first first' second second' : Expr} :
    Relabeled ρ marks (.expr condition) (.expr condition') →
      Relabeled ρ marks (.expr first) (.expr first') →
        Relabeled ρ marks (.expr second) (.expr second') →
          Relabeled ρ marks (.expr (.ternary condition first second))
            (.expr (.ternary condition' first' second'))
  | name {marks : List Bool} {id : NodeId} {name name' : Token} :
    ρ.Renames marks (ρ.reaches marks id) name name' →
      Relabeled ρ marks (.expr (.name id name)) (.expr (.name id name'))
  | assign {marks : List Bool} {id : NodeId} {name name' : Token} {value value' : Expr} :
    ρ.Renames marks (ρ.reaches marks id) name name' →
      Relabeled ρ marks (.expr value) (.expr value') →
        Relabeled ρ marks (.expr (.assign id name value)) (.expr (.assign id name' value'))
  | call {marks : List Bool} {paren : Token} {callee callee' : Expr}
      {arguments arguments' : List Expr} :
    Relabeled ρ marks (.expr callee) (.expr callee') →
      Relabeled ρ marks (.exprs arguments) (.exprs arguments') →
        Relabeled ρ marks (.expr (.call callee paren arguments))
          (.expr (.call callee' paren arguments'))
  | get {marks : List Bool} {name : Token} {object object' : Expr} :
    Relabeled ρ marks (.expr object) (.expr object') →
      Relabeled ρ marks (.expr (.get object name)) (.expr (.get object' name))
  | nilGet {marks : List Bool} {name : Token} {object object' : Expr} :
    Relabeled ρ marks (.expr object) (.expr object') →
      Relabeled ρ marks (.expr (.nilGet object name)) (.expr (.nilGet object' name))
  | set {marks : List Bool} {name : Token} {object object' value value' : Expr} :
    Relabeled ρ marks (.expr object) (.expr object') →
      Relabeled ρ marks (.expr value) (.expr value') →
        Relabeled ρ marks (.expr (.set object name value)) (.expr (.set object' name value'))
  | this {marks : List Bool} {id : NodeId} {keyword : Token} :
    ρ.Renames marks (ρ.reaches marks id) keyword keyword →
      Relabeled ρ marks (.expr (.this id keyword)) (.expr (.this id keyword))
  | super {marks : List Bool} {id : NodeId} {keyword method : Token} :
    ρ.Renames marks (ρ.reaches marks id) keyword keyword →
      Relabeled ρ marks (.expr (.super id keyword method)) (.expr (.super id keyword method))
  | lambda {marks : List Bool} {declaration declaration' : FunctionDecl} :
    Relabeled ρ marks (.function declaration) (.function declaration') →
      Relabeled ρ marks (.expr (.lambda declaration)) (.expr (.lambda declaration'))
  | noExprs {marks : List Bool} : Relabeled ρ marks (.exprs []) (.exprs [])
  | exprs {marks : List Bool} {e e' : Expr} {es es' : List Expr} :
    Relabeled ρ marks (.expr e) (.expr e') → Relabeled ρ marks (.exprs es) (.exprs es') →
      Relabeled ρ marks (.exprs (e :: es)) (.exprs (e' :: es'))
  -- functions and getters, each with a mark of its own
  | function {marks : List Bool} {mark : Bool} {name : Token} {params params' : List Token}
      {body body' : List Stmt} :
    List.Forall₂ (ρ.Renames (mark :: marks) mark) params params' →
      Relabeled ρ (mark :: marks) (.stmts body) (.stmts body') →
        Relabeled ρ marks (.function (.mk name params body)) (.function (.mk name params' body'))
  | noFunctions {marks : List Bool} : Relabeled ρ marks (.functions []) (.functions [])
  | functions {marks : List Bool} {d d' : FunctionDecl} {ds ds' : List FunctionDecl} :
    Relabeled ρ marks (.function d) (.function d') →
      Relabeled ρ marks (.functions ds) (.functions ds') →
        Relabeled ρ marks (.functions (d :: ds)) (.functions (d' :: ds'))
  | getter {marks : List Bool} {mark : Bool} {name : Token} {body body' : List Stmt} :
    Relabeled ρ (mark :: marks) (.stmts body) (.stmts body') →
      Relabeled ρ marks (.getter (.mk name body)) (.getter (.mk name body'))
  | noGetters {marks : List Bool} : Relabeled ρ marks (.getters []) (.getters [])
  | getters {marks : List Bool} {d d' : GetterDecl} {ds ds' : List GetterDecl} :
    Relabeled ρ marks (.getter d) (.getter d') →
      Relabeled ρ marks (.getters ds) (.getters ds') →
        Relabeled ρ marks (.getters (d :: ds)) (.getters (d' :: ds'))
  -- statements
  | expression {marks : List Bool} {value value' : Expr} :
    Relabeled ρ marks (.expr value) (.expr value') →
      Relabeled ρ marks (.stmt (.expression value)) (.stmt (.expression value'))
  | print {marks : List Bool} {keyword : Token} {value value' : Expr} :
    Relabeled ρ marks (.expr value) (.expr value') →
      Relabeled ρ marks (.stmt (.print keyword value)) (.stmt (.print keyword value'))
  | uninitialized {marks : List Bool} {name name' : Token} :
    ρ.Renames marks (marks.headD false) name name' →
      Relabeled ρ marks (.stmt (.var name none)) (.stmt (.var name' none))
  | initialized {marks : List Bool} {name name' : Token} {value value' : Expr} :
    ρ.Renames marks (marks.headD false) name name' →
      Relabeled ρ marks (.expr value) (.expr value') →
        Relabeled ρ marks (.stmt (.var name (some value))) (.stmt (.var name' (some value')))
  | block {marks : List Bool} {mark : Bool} {body body' : List Stmt} :
    Relabeled ρ (mark :: marks) (.stmts body) (.stmts body') →
      Relabeled ρ marks (.stmt (.block body)) (.stmt (.block body'))
  | functionDecl {marks : List Bool} {d d' : FunctionDecl} :
    ρ.Renames marks (marks.headD false) d.name d.name →
      Relabeled ρ marks (.function d) (.function d') →
        Relabeled ρ marks (.stmt (.function d)) (.stmt (.function d'))
  | getterDecl {marks : List Bool} {d d' : GetterDecl} :
    ρ.Renames marks (marks.headD false) d.name d.name →
      Relabeled ρ marks (.getter d) (.getter d') →
        Relabeled ρ marks (.stmt (.getter d)) (.stmt (.getter d'))
  | plainClass {marks : List Bool} {name : Token} {methods methods' : List FunctionDecl}
      {getters getters' : List GetterDecl} :
    ρ.Renames marks (marks.headD false) name name →
      Relabeled ρ (false :: marks) (.functions methods) (.functions methods') →
        Relabeled ρ (false :: marks) (.getters getters) (.getters getters') →
          Relabeled ρ marks (.stmt (.classDecl name none methods getters))
            (.stmt (.classDecl name none methods' getters'))
  | derivedClass {marks : List Bool} {name : Token} {superclass superclass' : Expr}
      {methods methods' : List FunctionDecl} {getters getters' : List GetterDecl} :
    ρ.Renames marks (marks.headD false) name name →
      Relabeled ρ marks (.expr superclass) (.expr superclass') →
        Relabeled ρ (false :: false :: marks) (.functions methods) (.functions methods') →
          Relabeled ρ (false :: false :: marks) (.getters getters) (.getters getters') →
            Relabeled ρ marks (.stmt (.classDecl name (some superclass) methods getters))
              (.stmt (.classDecl name (some superclass') methods' getters'))
  | ifOnly {marks : List Bool} {condition condition' : Expr} {consequent consequent' : Stmt} :
    Relabeled ρ marks (.expr condition) (.expr condition') →
      Relabeled ρ marks (.stmt consequent) (.stmt consequent') →
        Relabeled ρ marks (.stmt (.ifStmt condition consequent none))
          (.stmt (.ifStmt condition' consequent' none))
  | ifElse {marks : List Bool} {condition condition' : Expr}
      {consequent consequent' alternative alternative' : Stmt} :
    Relabeled ρ marks (.expr condition) (.expr condition') →
      Relabeled ρ marks (.stmt consequent) (.stmt consequent') →
        Relabeled ρ marks (.stmt alternative) (.stmt alternative') →
          Relabeled ρ marks (.stmt (.ifStmt condition consequent (some alternative)))
            (.stmt (.ifStmt condition' consequent' (some alternative')))
  | whileStmt {marks : List Bool} {condition condition' : Expr} {body body' : Stmt} :
    Relabeled ρ marks (.expr condition) (.expr condition') →
      Relabeled ρ marks (.stmt body) (.stmt body') →
        Relabeled ρ marks (.stmt (.whileStmt condition body))
          (.stmt (.whileStmt condition' body'))
  | breakStmt {marks : List Bool} {keyword : Token} :
    Relabeled ρ marks (.stmt (.breakStmt keyword)) (.stmt (.breakStmt keyword))
  | returnNothing {marks : List Bool} {keyword : Token} :
    Relabeled ρ marks (.stmt (.returnStmt keyword none)) (.stmt (.returnStmt keyword none))
  | returnValue {marks : List Bool} {keyword : Token} {value value' : Expr} :
    Relabeled ρ marks (.expr value) (.expr value') →
      Relabeled ρ marks (.stmt (.returnStmt keyword (some value)))
        (.stmt (.returnStmt keyword (some value')))
  | noStmts {marks : List Bool} : Relabeled ρ marks (.stmts []) (.stmts [])
  | stmts {marks : List Bool} {s s' : Stmt} {ss ss' : List Stmt} :
    Relabeled ρ marks (.stmt s) (.stmt s') → Relabeled ρ marks (.stmts ss) (.stmts ss') →
      Relabeled ρ marks (.stmts (s :: ss)) (.stmts (s' :: ss'))

namespace Relabeled

variable {ρ : Relabeling} {marks : List Bool}

/-- Functions keep their names. -/
lemma function_name {d d' : FunctionDecl} (h : Relabeled ρ marks (.function d) (.function d')) :
    d'.name = d.name := by
  cases h
  rfl

/-- Getters keep their names. -/
lemma getter_name {d d' : GetterDecl} (h : Relabeled ρ marks (.getter d) (.getter d')) :
    d'.name = d.name := by
  cases h
  rfl

end Relabeled

/-! ### Code without marks -/

section

variable {ρ : Relabeling} {marks : List Bool}

namespace Relabeling

lemma reaches_eq_false (h : true ∉ marks) (id : NodeId) : ρ.reaches marks id = false :=
  Bool.eq_false_iff.mpr fun hm => h (mem_of_markAt hm)

lemma headD_eq_false (h : true ∉ marks) : marks.headD false = false :=
  Bool.eq_false_iff.mpr fun hm => h (mem_of_headD hm)

lemma renames_reaches (h : true ∉ marks) (id : NodeId) (t : Token) :
    ρ.Renames marks (ρ.reaches marks id) t t := by
  rw [reaches_eq_false h]
  exact renames_self h t

lemma renames_head (h : true ∉ marks) (t : Token) :
    ρ.Renames marks (marks.headD false) t t := by
  rw [headD_eq_false h]
  exact renames_self h t

lemma notMem_cons (h : true ∉ marks) : true ∉ false :: marks := by
  simpa using h

end Relabeling

open Relabeling

mutual

lemma Expr.relabeled_self : (e : Expr) → {marks : List Bool} → true ∉ marks →
    Relabeled ρ marks (.expr e) (.expr e)
  | .literal _, _, _ => .literal
  | .grouping inner, _, h => .grouping (inner.relabeled_self h)
  | .unary _ operand, _, h => .unary (operand.relabeled_self h)
  | .binary left _ right, _, h => .binary (left.relabeled_self h) (right.relabeled_self h)
  | .logical left _ right, _, h => .logical (left.relabeled_self h) (right.relabeled_self h)
  | .ternary condition first second, _, h =>
    .ternary (condition.relabeled_self h) (first.relabeled_self h) (second.relabeled_self h)
  | .name id name, _, h => .name (renames_reaches h id name)
  | .assign id name value, _, h => .assign (renames_reaches h id name) (value.relabeled_self h)
  | .call callee _ arguments, _, h =>
    .call (callee.relabeled_self h) (exprs_relabeled_self arguments h)
  | .get object _, _, h => .get (object.relabeled_self h)
  | .nilGet object _, _, h => .nilGet (object.relabeled_self h)
  | .set object _ value, _, h => .set (object.relabeled_self h) (value.relabeled_self h)
  | .this id keyword, _, h => .this (renames_reaches h id keyword)
  | .super id keyword _, _, h => .super (renames_reaches h id keyword)
  | .lambda declaration, _, h => .lambda (declaration.relabeled_self h)

lemma exprs_relabeled_self : (es : List Expr) → {marks : List Bool} → true ∉ marks →
    Relabeled ρ marks (.exprs es) (.exprs es)
  | [], _, _ => .noExprs
  | e :: es, _, h => .exprs (e.relabeled_self h) (exprs_relabeled_self es h)

lemma FunctionDecl.relabeled_self : (d : FunctionDecl) → {marks : List Bool} → true ∉ marks →
    Relabeled ρ marks (.function d) (.function d)
  | .mk _ _ body, _, h =>
    .function (List.forall₂_same.mpr fun t _ => renames_self (notMem_cons h) t)
      (stmts_relabeled_self body (notMem_cons h))

lemma functions_relabeled_self : (ds : List FunctionDecl) → {marks : List Bool} → true ∉ marks →
    Relabeled ρ marks (.functions ds) (.functions ds)
  | [], _, _ => .noFunctions
  | d :: ds, _, h => .functions (d.relabeled_self h) (functions_relabeled_self ds h)

lemma GetterDecl.relabeled_self : (d : GetterDecl) → {marks : List Bool} → true ∉ marks →
    Relabeled ρ marks (.getter d) (.getter d)
  | .mk _ body, _, h => .getter (stmts_relabeled_self body (notMem_cons h))

lemma getters_relabeled_self : (ds : List GetterDecl) → {marks : List Bool} → true ∉ marks →
    Relabeled ρ marks (.getters ds) (.getters ds)
  | [], _, _ => .noGetters
  | d :: ds, _, h => .getters (d.relabeled_self h) (getters_relabeled_self ds h)

lemma Stmt.relabeled_self : (s : Stmt) → {marks : List Bool} → true ∉ marks →
    Relabeled ρ marks (.stmt s) (.stmt s)
  | .expression value, _, h => .expression (value.relabeled_self h)
  | .print _ value, _, h => .print (value.relabeled_self h)
  | .var name none, _, h => .uninitialized (renames_head h name)
  | .var name (some value), _, h => .initialized (renames_head h name) (value.relabeled_self h)
  | .block body, _, h => .block (stmts_relabeled_self body (notMem_cons h))
  | .function declaration, _, h =>
    .functionDecl (renames_head h declaration.name) (declaration.relabeled_self h)
  | .getter declaration, _, h =>
    .getterDecl (renames_head h declaration.name) (declaration.relabeled_self h)
  | .classDecl name none methods getters, _, h =>
    .plainClass (renames_head h name) (functions_relabeled_self methods (notMem_cons h))
      (getters_relabeled_self getters (notMem_cons h))
  | .classDecl name (some superclass) methods getters, _, h =>
    .derivedClass (renames_head h name) (superclass.relabeled_self h)
      (functions_relabeled_self methods (notMem_cons (notMem_cons h)))
      (getters_relabeled_self getters (notMem_cons (notMem_cons h)))
  | .ifStmt condition consequent none, _, h =>
    .ifOnly (condition.relabeled_self h) (consequent.relabeled_self h)
  | .ifStmt condition consequent (some alternative), _, h =>
    .ifElse (condition.relabeled_self h) (consequent.relabeled_self h)
      (alternative.relabeled_self h)
  | .whileStmt condition body, _, h =>
    .whileStmt (condition.relabeled_self h) (body.relabeled_self h)
  | .breakStmt _, _, _ => .breakStmt
  | .returnStmt _ none, _, _ => .returnNothing
  | .returnStmt _ (some value), _, h => .returnValue (value.relabeled_self h)

lemma stmts_relabeled_self : (ss : List Stmt) → {marks : List Bool} → true ∉ marks →
    Relabeled ρ marks (.stmts ss) (.stmts ss)
  | [], _, _ => .noStmts
  | s :: ss, _, h => .stmts (s.relabeled_self h) (stmts_relabeled_self ss h)

end

end

/-! ### Relabelling code -/

namespace Relabeling

variable {ρ : Relabeling} {d : NodeId → Option Nat} {n : Nat} {w w' : Prop}
  {ts ts' : List Token} {ids ids' : List NodeId} {ss ss' : List LocalScope}

/-- Code that can be relabelled, given what is asked of its shape, its tokens, the identities in
it and its scopes, of which the first one has the number `n`. -/
structure Suits (ρ : Relabeling) (d : NodeId → Option Nat) (n : Nat) (wellFormed : Prop)
    (tokens : List Token) (ids : List NodeId) (scopes : List LocalScope) : Prop where
  ofWord_eq : TokenKind.ofWord ρ.old = .identifier
  ofWord_new_eq : TokenKind.ofWord ρ.new = .identifier
  wellFormed : wellFormed
  ne : ∀ t ∈ tokens, t.kind = .identifier → t.lexeme ≠ ρ.new
  distance?_eq : ∀ id ∈ ids, d id = ρ.distance? id
  byVar : ∀ i scope, scopes[i]? = some scope → n + i = ρ.target → scope.DeclaresByVar ρ.old

namespace Suits

lemma imp (h : ρ.Suits d n w ts ids ss) (hw : w → w') (ht : ts' ⊆ ts) (hi : ids' ⊆ ids) :
    ρ.Suits d n w' ts' ids' ss :=
  ⟨h.ofWord_eq, h.ofWord_new_eq, hw h.wellFormed, fun t hm => h.ne t (ht hm),
    fun id hm => h.distance?_eq id (hi hm), h.byVar⟩

lemma weaken (h : ρ.Suits d n w ts ids ss) (hw : w → w') : ρ.Suits d n w' ts ids ss :=
  h.imp hw (List.Subset.refl _) (List.Subset.refl _)

lemma left (h : ρ.Suits d n w ts ids (ss ++ ss')) : ρ.Suits d n w ts ids ss := by
  refine ⟨h.ofWord_eq, h.ofWord_new_eq, h.wellFormed, h.ne, h.distance?_eq,
    fun i scope hi => h.byVar i scope ?_⟩
  obtain ⟨hlt, -⟩ := List.getElem?_eq_some_iff.mp hi
  rwa [List.getElem?_append_left hlt]

lemma right (h : ρ.Suits d n w ts ids (ss ++ ss')) :
    ρ.Suits d (n + ss.length) w ts ids ss' := by
  refine ⟨h.ofWord_eq, h.ofWord_new_eq, h.wellFormed, h.ne, h.distance?_eq,
    fun i scope hi hn => ?_⟩
  refine h.byVar (ss.length + i) scope ?_ (by omega)
  rwa [List.getElem?_append_right (Nat.le_add_right _ _), Nat.add_sub_cancel_left]

lemma both (h : ρ.Suits d n (w ∧ w') (ts ++ ts') (ids ++ ids') (ss ++ ss')) :
    ρ.Suits d n w ts ids ss ∧ ρ.Suits d (n + ss.length) w' ts' ids' ss' :=
  ⟨h.left.imp And.left (List.subset_append_left _ _) (List.subset_append_left _ _),
    h.right.imp And.right (List.subset_append_right _ _) (List.subset_append_right _ _)⟩

/-- Without a token in front. -/
lemma skip {t : Token} (h : ρ.Suits d n w (t :: ts) ids ss) : ρ.Suits d n w ts ids ss :=
  h.imp id (List.subset_cons_self _ _) (List.Subset.refl _)

/-- Without some tokens behind. -/
lemma front (h : ρ.Suits d n w (ts ++ ts') ids ss) : ρ.Suits d n w ts ids ss :=
  h.imp id (List.subset_append_left _ _) (List.Subset.refl _)

/-- Without the first scope. -/
lemma inside {scope : LocalScope} (h : ρ.Suits d n w ts ids (scope :: ss)) :
    ρ.Suits d (n + 1) w ts ids ss :=
  right (show ρ.Suits d n w ts ids ([scope] ++ ss) from h)

/-- A name behind which nothing follows. -/
lemma renames {t : Token} {id : NodeId} (h : ρ.Suits d n w (t :: ts) (ids ++ [id]) ss)
    (hn : t.IsName) (marks : List Bool) :
    Renames { ρ with distance? := d } marks (reaches { ρ with distance? := d } marks id) t
      (ρ.token (ρ.reaches marks id) t) := by
  have hd : reaches { ρ with distance? := d } marks id = ρ.reaches marks id := by
    simp only [reaches, h.distance?_eq id (by simp)]
  rw [hd]
  exact ⟨rfl, fun _ => h.ne t List.mem_cons_self hn.kind_eq⟩

/-- A reserved word keeps its spelling. -/
lemma renames_keyword {t : Token} (h : ρ.Suits d n w ts ids ss)
    (hword : TokenKind.ofWord t.lexeme ≠ .identifier) (marks : List Bool) (mark : Bool) :
    Renames { ρ with distance? := d } marks mark t t := by
  refine renames_of_ne (ρ := { ρ with distance? := d }) (fun _ he => hword ?_)
    (fun he => hword ?_) marks
  · rw [he]
    exact h.ofWord_eq
  · rw [he]
    exact h.ofWord_new_eq

/-- What is declared otherwise than by `var` keeps its name. -/
lemma renames_declared {s : Stmt} {t : Token} {mark : Bool}
    (h : ρ.Suits d n s.WellFormed ts ids ss) (ht : t ∈ ts)
    (hs : mark = true → s.DeclaresByVar ρ.old) (hd : s.declared? = some t)
    (hvar : ∀ initializer, s ≠ .var t initializer) (marks : List Bool) :
    Renames { ρ with distance? := d } marks mark t t := by
  refine renames_of_ne (ρ := { ρ with distance? := d }) (fun hm he => ?_)
    (h.ne t ht (Stmt.declared?_isName h.wellFormed hd).kind_eq) marks
  obtain ⟨initializer, hi⟩ := hs hm t hd he
  exact hvar initializer hi

end Suits

end Relabeling

section

variable {ρ : Relabeling} {d : NodeId → Option Nat}

/-- The tokens of a callable thing are those of its parameters and its body, and some more. -/
lemma params_body_subset (params : List Token) (body : List Stmt) :
    params ++ stmtsTokens body ⊆ params.intersperse .comma ++
      .closeParen :: .openBrace :: (stmtsTokens body ++ [Token.closeBrace]) := by
  have hparams : ∀ params : List Token, params ⊆ params.intersperse .comma := by
    intro params
    induction params with
    | nil => exact List.Subset.refl _
    | cons param params ih =>
      cases params with
      | nil => exact List.Subset.refl _
      | cons param' params =>
        rw [List.intersperse_cons_cons]
        exact List.cons_subset_cons _ (List.subset_cons_of_subset _ ih)
  intro t ht
  rcases List.mem_append.mp ht with ht | ht
  · exact List.mem_append_left _ (hparams params ht)
  · simp [ht]

lemma FunctionDecl.params_body_subset_tokens (f : FunctionDecl) :
    f.params ++ stmtsTokens f.body ⊆ f.tokens := by
  obtain ⟨name, params, body⟩ := f
  exact List.subset_cons_of_subset _ (List.subset_cons_of_subset _
    (params_body_subset params body))

/-- A statement that declares nothing declares nothing otherwise than by `var`. -/
lemma Stmt.declaresByVar_of_none {s : Stmt} (h : s.declared? = none) (name : String) :
    s.DeclaresByVar name := by
  intro t ht
  rw [h] at ht
  cases ht

mutual

lemma Expr.relabeled_relabel : (e : Expr) → {marks : List Bool} → {n : Nat} →
    ρ.Suits d n e.WellFormed e.tokens e.ids e.scopes →
    Relabeled { ρ with distance? := d } marks (.expr e) (.expr (e.relabel ρ marks n))
  | .literal _, _, _, _ => .literal
  | .grouping inner, _, _, h => .grouping (inner.relabeled_relabel h.skip.front)
  | .unary _ operand, _, _, h => .unary (operand.relabeled_relabel h.skip)
  | .binary left _ right, _, _, h =>
    .binary (left.relabeled_relabel h.both.1) (right.relabeled_relabel h.both.2.skip)
  | .logical left _ right, _, _, h =>
    .logical (left.relabeled_relabel h.both.1) (right.relabeled_relabel h.both.2.skip)
  | .ternary condition first second, _, _, h =>
    .ternary (condition.relabeled_relabel h.both.1)
      (first.relabeled_relabel h.both.2.skip.both.1)
      (second.relabeled_relabel h.both.2.skip.both.2.skip)
  | .name _ _, marks, _, h =>
    .name ((show ρ.Suits d _ _ _ ([] ++ [_]) _ from h).renames h.wellFormed marks)
  | .assign _ _ value, marks, _, h =>
    .assign (h.renames h.wellFormed.1 marks)
      (value.relabeled_relabel (h.skip.skip.imp And.right (List.Subset.refl _)
        (List.subset_append_left _ _)))
  | .call callee _ arguments, _, _, h =>
    .call (callee.relabeled_relabel h.both.1)
      (exprs_relabeled_relabel arguments h.both.2.skip.front)
  | .get object _, _, _, h => .get (object.relabeled_relabel h.front)
  | .nilGet object _, _, _, h => .nilGet (object.relabeled_relabel h.front)
  | .set object _ value, _, _, h =>
    .set (object.relabeled_relabel h.both.1) (value.relabeled_relabel h.both.2.skip.skip.skip)
  | .this _ _, marks, _, h =>
    .this (h.renames_keyword (h.wellFormed ▸ TokenKind.ofWord_this_ne) marks _)
  | .super _ _ _, marks, _, h =>
    .super (h.renames_keyword (h.wellFormed ▸ TokenKind.ofWord_super_ne) marks _)
  | .lambda (.mk _ params body), _, _, h =>
    .lambda (FunctionDecl.relabeled_relabel (.mk _ params body)
      (h.skip.skip.imp id (params_body_subset params body) (List.Subset.refl _)))

lemma exprs_relabeled_relabel : (es : List Expr) → {marks : List Bool} → {n : Nat} →
    ρ.Suits d n (ExprsWellFormed es) (listingTokens es) (exprsIds es) (exprsScopes es) →
    Relabeled { ρ with distance? := d } marks (.exprs es) (.exprs (relabelExprs ρ marks n es))
  | [], _, _, _ => .noExprs
  | [e], _, _, h =>
    .exprs (e.relabeled_relabel (h.left.imp And.left (List.Subset.refl _)
      (List.subset_append_left _ _))) .noExprs
  | e :: e' :: es, _, _, h =>
    .exprs (e.relabeled_relabel h.both.1) (exprs_relabeled_relabel (e' :: es) h.both.2.skip)

lemma FunctionDecl.relabeled_relabel : (f : FunctionDecl) → {marks : List Bool} → {n : Nat} →
    ρ.Suits d n f.WellFormed (f.params ++ stmtsTokens f.body) f.ids f.scopes →
    Relabeled { ρ with distance? := d } marks (.function f) (.function (f.relabel ρ marks n))
  | .mk _ params body, _, _, h =>
    .function (List.forall₂_map_right_iff.mpr (List.forall₂_same.mpr fun t ht =>
        ⟨rfl, fun _ => h.ne t (List.mem_append_left _ ht) (h.wellFormed.1 t ht).kind_eq⟩))
      (stmts_relabeled_relabel body
        (fun hmark => h.byVar 0 ⟨params, body⟩ rfl (of_decide_eq_true hmark))
        (h.inside.imp And.right (List.subset_append_right _ _) (List.Subset.refl _)))

lemma functions_relabeled_relabel : (ds : List FunctionDecl) → {marks : List Bool} → {n : Nat} →
    ρ.Suits d n (FunctionsWellFormed ds) (functionsTokens ds) (functionsIds ds)
      (functionsScopes ds) →
    Relabeled { ρ with distance? := d } marks (.functions ds)
      (.functions (relabelFunctions ρ marks n ds))
  | [], _, _, _ => .noFunctions
  | f :: fs, _, _, h =>
    .functions (f.relabeled_relabel
      (h.both.1.imp id f.params_body_subset_tokens (List.Subset.refl _)))
      (functions_relabeled_relabel fs h.both.2)

lemma GetterDecl.relabeled_relabel : (g : GetterDecl) → {marks : List Bool} → {n : Nat} →
    ρ.Suits d n g.WellFormed g.tokens g.ids g.scopes →
    Relabeled { ρ with distance? := d } marks (.getter g) (.getter (g.relabel ρ marks n))
  | .mk _ body, _, _, h =>
    .getter (stmts_relabeled_relabel body
      (fun hmark => h.byVar 0 ⟨[], body⟩ rfl (of_decide_eq_true hmark)) h.inside.skip.skip.front)

lemma getters_relabeled_relabel : (ds : List GetterDecl) → {marks : List Bool} → {n : Nat} →
    ρ.Suits d n (GettersWellFormed ds) (gettersTokens ds) (gettersIds ds) (gettersScopes ds) →
    Relabeled { ρ with distance? := d } marks (.getters ds)
      (.getters (relabelGetters ρ marks n ds))
  | [], _, _, _ => .noGetters
  | g :: gs, _, _, h =>
    .getters (g.relabeled_relabel h.both.1) (getters_relabeled_relabel gs h.both.2)

lemma Stmt.relabeled_relabel : (s : Stmt) → {marks : List Bool} → {n : Nat} →
    (marks.headD false = true → s.DeclaresByVar ρ.old) →
    ρ.Suits d n s.WellFormed s.tokens s.ids s.scopes →
    Relabeled { ρ with distance? := d } marks (.stmt s) (.stmt (s.relabel ρ marks n))
  | .expression value, _, _, _, h => .expression (value.relabeled_relabel h.front)
  | .print _ value, _, _, _, h => .print (value.relabeled_relabel h.skip.front)
  | .var name none, _, _, _, h =>
    .uninitialized ⟨rfl, fun _ => h.ne name (by simp [Stmt.tokens]) h.wellFormed.kind_eq⟩
  | .var name (some value), _, _, _, h =>
    .initialized ⟨rfl, fun _ => h.ne name (by simp [Stmt.tokens]) h.wellFormed.1.kind_eq⟩
      (value.relabeled_relabel
        (h.skip.skip.skip.front.weaken And.right))
  | .block body, _, _, _, h =>
    .block (stmts_relabeled_relabel body
      (fun hmark => h.byVar 0 ⟨[], body⟩ rfl (of_decide_eq_true hmark)) h.inside.skip.front)
  | .function (.mk name params body), marks, _, hs, h =>
    .functionDecl
      (h.renames_declared (by simp [Stmt.tokens, FunctionDecl.tokens, FunctionDecl.name]) hs rfl
        (by simp) marks)
      (FunctionDecl.relabeled_relabel (.mk name params body) (h.skip.imp And.right
        (FunctionDecl.params_body_subset_tokens (.mk name params body)) (List.Subset.refl _)))
  | .getter (.mk name body), marks, _, hs, h =>
    .getterDecl (h.renames_declared (by simp [Stmt.tokens, GetterDecl.tokens, GetterDecl.name])
        hs rfl (by simp) marks)
      (GetterDecl.relabeled_relabel (.mk name body)
        (h.skip.weaken And.right))
  | .classDecl name none methods getters, marks, _, hs, h => by
    have hmembers := h.skip.skip.skip.front.weaken And.right
    exact .plainClass (h.renames_declared (by simp [Stmt.tokens]) hs rfl (by simp) marks)
      (functions_relabeled_relabel methods hmembers.both.1)
      (getters_relabeled_relabel getters hmembers.both.2)
  | .classDecl name (some superclass) methods getters, marks, _, hs, h => by
    have hparts := (h.skip.skip.skip.weaken And.right).both
    have hmembers := hparts.2.skip.front.both
    refine .derivedClass (h.renames_declared (by simp [Stmt.tokens]) hs rfl (by simp) marks)
      (superclass.relabeled_relabel (hparts.1.weaken ?_))
      (functions_relabeled_relabel methods hmembers.1)
      (getters_relabeled_relabel getters hmembers.2)
    rintro ⟨id, superName, rfl, hname⟩
    exact hname
  | .ifStmt condition consequent none, _, _, _, h => by
    have hparts := h.skip.skip.both
    exact .ifOnly (condition.relabeled_relabel hparts.1)
      (consequent.relabeled_relabel
        (fun _ => Stmt.declaresByVar_of_none hparts.2.wellFormed.1 ρ.old)
        (hparts.2.skip.weaken And.right))
  | .ifStmt condition consequent (some alternative), _, _, _, h => by
    have hparts := h.skip.skip.both
    have hbranches := hparts.2.skip.both
    exact .ifElse (condition.relabeled_relabel hparts.1)
      (consequent.relabeled_relabel
        (fun _ => Stmt.declaresByVar_of_none hbranches.1.wellFormed.1 ρ.old)
        (hbranches.1.weaken And.right))
      (alternative.relabeled_relabel
        (fun _ => Stmt.declaresByVar_of_none hbranches.2.wellFormed.1 ρ.old)
        (hbranches.2.skip.weaken And.right))
  | .whileStmt condition body, _, _, _, h => by
    have hparts := h.skip.skip.both
    exact .whileStmt (condition.relabeled_relabel hparts.1)
      (body.relabeled_relabel
        (fun _ => Stmt.declaresByVar_of_none hparts.2.wellFormed.1 ρ.old)
        (hparts.2.skip.weaken And.right))
  | .breakStmt _, _, _, _, _ => .breakStmt
  | .returnStmt _ none, _, _, _, _ => .returnNothing
  | .returnStmt _ (some value), _, _, _, h => .returnValue (value.relabeled_relabel h.skip.front)

lemma stmts_relabeled_relabel : (ss : List Stmt) → {marks : List Bool} → {n : Nat} →
    (marks.headD false = true → ∀ s ∈ ss, s.DeclaresByVar ρ.old) →
    ρ.Suits d n (StmtsWellFormed ss) (stmtsTokens ss) (stmtsIds ss) (stmtsScopes ss) →
    Relabeled { ρ with distance? := d } marks (.stmts ss) (.stmts (relabelStmts ρ marks n ss))
  | [], _, _, _, _ => .noStmts
  | s :: ss, _, _, hs, h =>
    .stmts (s.relabeled_relabel (fun hmark => hs hmark s List.mem_cons_self) h.both.1)
      (stmts_relabeled_relabel ss
        (fun hmark s hm => hs hmark s (List.mem_cons_of_mem _ hm)) h.both.2)

end

end

/-- A relabelled program differs from the program by the relabelling, whatever table the distances
are in. -/
theorem Program.relabeled_relabel {p : Program} {target : Nat} {old new : String}
    {d : NodeId → Option Nat} (hold : TokenKind.ofWord old = .identifier)
    (hnew : TokenKind.ofWord new = .identifier)
    (hfresh : ∀ t ∈ p.tokens, t.kind = .identifier → t.lexeme ≠ new) (hw : StmtsWellFormed p)
    (hd : ∀ id ∈ stmtsIds p, d id = p.distance? id)
    (hvar : ∀ scope, p.scopes[target]? = some scope → scope.DeclaresByVar old) :
    Relabeled ⟨old, new, d, target⟩ [false] (.stmts p) (.stmts (p.relabel target old new)) := by
  have hsuits : Relabeling.Suits ⟨old, new, p.distance?, target⟩ d 0 (StmtsWellFormed p)
      (stmtsTokens p) (stmtsIds p) (stmtsScopes p) := by
    refine ⟨hold, hnew, hw, hfresh, hd, fun i scope hi hn => hvar scope ?_⟩
    rw [Nat.zero_add] at hn
    rwa [← show i = target from hn]
  refine stmts_relabeled_relabel p ?_ hsuits
  rintro ⟨⟩

end Scripting
