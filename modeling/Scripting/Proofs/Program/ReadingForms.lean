import Scripting.Proofs.Program.Constants
import Scripting.Proofs.Program.Printing
import Scripting.Proofs.Program.Vocabulary
import Scripting.Proofs.Token.Words

/-!
# What printed programs are read as

Every form stands for one tree without identities and lines: the word at the head of a form and the
number of its parts tell the node. If the tokens of a script spell a tree, then the words in its
form are words, and the form stands for the tree, provided that its numbers are finite.
-/

namespace Scripting

open Scan
open Form (IsWord)

namespace Form

/-! ### The tree of a form -/

/-- The token that a word stands for. -/
def token : Form → Token
  | .word w => .ofText w
  | _ => .ofText ""

/-- The tokens that the words of a list of parameters stand for. -/
def tokens : Form → List Token
  | .round parts => parts.map token
  | _ => []

/-- The expression that a word stands for. -/
noncomputable def atom (w : String) : Expr :=
  if w = "nil" then .literal .nil
  else if w = "true" then .literal (.bool true)
  else if w = "false" then .literal (.bool false)
  else if w = "this" then .this 0 (.ofText "this")
  else if w.toList.head?.any Char.isDigit then
    .literal (.number (Function.invFun Literal.displayStyle.text w))
  else .name 0 (.ofText w)

mutual

/-- The expression that a form stands for. -/
noncomputable def expr : Form → Expr
  | .word w => atom w
  | .quoted s => .literal (.text s)
  | .round (.word head :: parts) => compound head parts
  | _ => .literal .nil

/-- The expression with a word at its head. -/
noncomputable def compound (head : String) : List Form → Expr
  | [] => .literal .nil
  | first :: rest =>
    if head = "call" then .call (expr first) (.ofText ")") (exprs rest)
    else if head = "group" then .grouping (expr first)
    else if head = "super" then .super 0 (.ofText "super") first.token
    else
      match rest with
      | [] => .unary (.ofText head) (expr first)
      | [second] =>
        if head = "=" then .assign 0 first.token (expr second)
        else if head = "." then .get (expr first) second.token
        else if head = "?." then .nilGet (expr first) second.token
        else if head = "lambda" then
          .lambda (.mk ⟨.kwFun, "lambda", none, 0⟩ first.tokens (body second))
        else if head = "and" ∨ head = "or" then
          .logical (expr first) (.ofText head) (expr second)
        else .binary (expr first) (.ofText head) (expr second)
      | second :: third :: _ =>
        if head = ".=" then .set (expr first) second.token (expr third)
        else .ternary (expr first) (expr second) (expr third)

/-- The expressions that forms stand for. -/
noncomputable def exprs : List Form → List Expr
  | [] => []
  | f :: fs => expr f :: exprs fs

/-- The statements that a form in braces stands for. -/
noncomputable def body : Form → List Stmt
  | .curly parts => stmts parts
  | _ => []

/-- The function with a name, parameters and a body. -/
noncomputable def function : List Form → FunctionDecl
  | [name, params, block] => .mk name.token params.tokens (body block)
  | _ => .mk (.ofText "") [] []

/-- The getter with a name and a body. -/
noncomputable def getter : List Form → GetterDecl
  | [name, block] => .mk name.token (body block)
  | _ => .mk (.ofText "") []

/-- The methods among forms. -/
noncomputable def methods : List Form → List FunctionDecl
  | .round (.word head :: parts) :: rest =>
    if head = "fun" then function parts :: methods rest else methods rest
  | _ :: rest => methods rest
  | [] => []

/-- The getters among forms. -/
noncomputable def getters : List Form → List GetterDecl
  | .round (.word head :: parts) :: rest =>
    if head = "getter" then getter parts :: getters rest else getters rest
  | _ :: rest => getters rest
  | [] => []

/-- The superclass before the members of a class, if there is one. -/
noncomputable def superclass : List Form → Option Expr
  | .word _ :: f :: _ => some (expr f)
  | _ => none

/-- The statement that a form stands for. -/
noncomputable def stmt : Form → Stmt
  | .curly parts => .block (stmts parts)
  | .round (.word head :: parts) =>
    if head = "fun" then .function (function parts)
    else if head = "getter" then .getter (getter parts)
    else compoundStmt head parts
  | _ => .block []

/-- The statement with a word at its head. -/
noncomputable def compoundStmt (head : String) : List Form → Stmt
  | [] =>
    if head = "break" then .breakStmt (.ofText "break") else .returnStmt (.ofText "return") none
  | first :: rest =>
    if head = "class" then
      .classDecl first.token (superclass rest) (methods rest) (getters rest)
    else
      match rest with
      | [] =>
        if head = ";" then .expression (expr first)
        else if head = "print" then .print (.ofText "print") (expr first)
        else if head = "var" then .var first.token none
        else .returnStmt (.ofText "return") (some (expr first))
      | [second] =>
        if head = "var" then .var first.token (some (expr second))
        else if head = "while" then .whileStmt (expr first) (stmt second)
        else .ifStmt (expr first) (stmt second) none
      | second :: third :: _ => .ifStmt (expr first) (stmt second) (some (stmt third))

/-- The statements that forms stand for. -/
noncomputable def stmts : List Form → List Stmt
  | [] => []
  | f :: fs => stmt f :: stmts fs

end

attribute [simp] expr compound exprs body function getter methods getters superclass stmt
  compoundStmt stmts

/-! ### Words and their heads -/

lemma WellFormed.compound {head : String} {parts : List Form} (hhead : IsWord head)
    (hparts : ∀ f ∈ parts, f.WellFormed) : (Form.round (.word head :: parts)).WellFormed :=
  .round (List.forall_mem_cons.mpr ⟨.word hhead, hparts⟩)

end Form

lemma Token.IsPlain.token_eq {t : Token} (h : t.IsPlain) :
    (Form.word t.lexeme).token = t.rename .blank :=
  h.ofText_eq

lemma Token.IsPlain.wellFormed {t : Token} (h : t.IsPlain) : (Form.word t.lexeme).WellFormed :=
  .word h.isWord

/-! ### Trees that can be read again -/

section

variable (finite : Prop)

/-- The form of an expression is well formed, and it stands for the expression if the numbers are
finite. -/
structure Expr.Readable (e : Expr) : Prop where
  wellFormed : e.form.WellFormed
  expr_form : finite → e.form.expr = e.rename .blank

/-- The form of a statement is well formed, and it stands for the statement if the numbers are
finite. -/
structure Stmt.Readable (s : Stmt) : Prop where
  wellFormed : s.form.WellFormed
  stmt_form : finite → s.form.stmt = s.rename .blank

/-- A function can be read again, with its name and its parameters. -/
def FunctionDecl.Readable : FunctionDecl → Prop
  | .mk name params body =>
    name.IsPlain ∧ (∀ param ∈ params, param.IsPlain) ∧ ∀ s ∈ body, s.Readable finite

/-- A getter can be read again, with its name. -/
def GetterDecl.Readable : GetterDecl → Prop
  | .mk name body => name.IsPlain ∧ ∀ s ∈ body, s.Readable finite

end

section

variable {finite : Prop} {t : Token} {e first second third : Expr}

/-! ### Several trees -/

lemma wellFormed_exprForms {es : List Expr} (h : ∀ e ∈ es, e.Readable finite) :
    ∀ f ∈ exprForms es, f.WellFormed := by
  induction es with
  | nil => simp [exprForms]
  | cons e es ih =>
    rw [List.forall_mem_cons] at h
    rw [exprForms, List.forall_mem_cons]
    exact ⟨h.1.wellFormed, ih h.2⟩

lemma exprs_exprForms {es : List Expr} (h : ∀ e ∈ es, e.Readable finite) (hf : finite) :
    Form.exprs (exprForms es) = renameExprs .blank es := by
  induction es with
  | nil => rfl
  | cons e es ih =>
    rw [List.forall_mem_cons] at h
    rw [exprForms, Form.exprs, renameExprs, h.1.expr_form hf, ih h.2]

lemma wellFormed_stmtForms {ss : List Stmt} (h : ∀ s ∈ ss, s.Readable finite) :
    ∀ f ∈ stmtForms ss, f.WellFormed := by
  induction ss with
  | nil => simp [stmtForms]
  | cons s ss ih =>
    rw [List.forall_mem_cons] at h
    rw [stmtForms, List.forall_mem_cons]
    exact ⟨h.1.wellFormed, ih h.2⟩

lemma stmts_stmtForms {ss : List Stmt} (h : ∀ s ∈ ss, s.Readable finite) (hf : finite) :
    Form.stmts (stmtForms ss) = renameStmts .blank ss := by
  induction ss with
  | nil => rfl
  | cons s ss ih =>
    rw [List.forall_mem_cons] at h
    rw [stmtForms, Form.stmts, renameStmts, h.1.stmt_form hf, ih h.2]

lemma wellFormed_parameterForm {params : List Token} (h : ∀ param ∈ params, param.IsPlain) :
    (parameterForm params).WellFormed := by
  refine .round fun f hf => ?_
  obtain ⟨param, hparam, rfl⟩ := List.mem_map.mp hf
  exact (h param hparam).wellFormed

lemma tokens_parameterForm {params : List Token} (h : ∀ param ∈ params, param.IsPlain) :
    (parameterForm params).tokens = params.map (Token.rename .blank) := by
  rw [parameterForm, Form.tokens, List.map_map]
  exact List.map_congr_left fun param hparam => (h param hparam).token_eq

/-! ### Expressions -/

namespace Expr.Readable

lemma nil : (Expr.literal .nil).Readable finite :=
  ⟨.word (by decide), fun _ => rfl⟩

lemma bool (b : Bool) : (Expr.literal (.bool b)).Readable finite := by
  cases b with
  | true => exact ⟨.word (by decide), fun _ => rfl⟩
  | false => exact ⟨.word (by decide), fun _ => rfl⟩

lemma text (s : String) : (Expr.literal (.text s)).Readable finite :=
  ⟨.quoted s, fun _ => rfl⟩

/-- A number is read as a number if its word starts with a digit. -/
lemma number {x : Float} (hword : IsWord (Literal.displayStyle.text x))
    (hdigit : finite → (Literal.displayStyle.text x).toList.head?.any Char.isDigit) :
    (Expr.literal (.number x)).Readable finite := by
  refine ⟨.word hword, fun hf => ?_⟩
  have hne : ∀ w ∈ ["nil", "true", "false", "this"], Literal.displayStyle.text x ≠ w := by
    rintro w hw rfl
    have table : ∀ w ∈ ["nil", "true", "false", "this"],
        w.toList.head?.any Char.isDigit = false := by
      decide
    exact absurd (hdigit hf) (by simp [table _ hw])
  simp only [List.forall_mem_cons] at hne
  have hinv := Function.leftInverse_invFun Decimal.displayStyle_legible.text_injective x
  simp [Expr.form, Literal.display, Form.atom, hne, hdigit hf, hinv, Expr.rename]

lemma this (ht : t.Scanned) (hk : t.kind = .kwThis) {id : NodeId} :
    (Expr.this id t).Readable finite := by
  obtain ⟨-, hrename⟩ := ht.eq_ofText "this" (by decide) hk
  refine ⟨.word (by decide), fun _ => ?_⟩
  simp [Expr.form, Form.atom, Expr.rename, hrename]

/-- An identifier is read as a name, since it is no reserved word and starts with no digit. -/
lemma name (ht : t.Scanned) (hk : t.kind = .identifier) {id : NodeId} :
    (Expr.name id t).Readable finite := by
  have hplain := ht.isPlain_of_identifier hk
  refine ⟨hplain.wellFormed, fun _ => ?_⟩
  obtain ⟨c, rest, hchars, hstart, -, hkeyword, -⟩ := ht.identifier hk
  have hne : ∀ w ∈ ["nil", "true", "false", "this"], t.lexeme ≠ w := by
    rintro w hw rfl
    have table : ["nil", "true", "false", "this"] ⊆ keywords.map Prod.fst := by
      decide
    exact hkeyword (table hw)
  simp only [List.forall_mem_cons] at hne
  have hdigit : c.isDigit = false :=
    Bool.eq_false_iff.mpr fun hc => not_isWordStart_of_isDigit hc hstart
  simp [Expr.form, Form.atom, hne, hchars, hdigit, hplain.ofText_eq, Expr.rename]

lemma super {keyword method : Token} (hkeyword : keyword.Scanned) (hk : keyword.kind = .kwSuper)
    (hmethod : method.IsPlain) {id : NodeId} : (Expr.super id keyword method).Readable finite := by
  obtain ⟨-, hrename⟩ := hkeyword.eq_ofText "super" (by decide) hk
  refine ⟨.compound (by decide) (by simpa using hmethod.wellFormed), fun _ => ?_⟩
  simp [Expr.form, Expr.rename, hrename, hmethod.token_eq]

lemma grouping (h : e.Readable finite) : (Expr.grouping e).Readable finite := by
  refine ⟨.compound (by decide) (by simpa using h.wellFormed), fun hf => ?_⟩
  simp [Expr.form, Expr.rename, h.expr_form hf]

lemma unary {operator : Token} (hoperator : operator.Scanned)
    (hk : operator.kind ∈ unaryOperators) (h : e.Readable finite) :
    (Expr.unary operator e).Readable finite := by
  have table : ∀ p ∈ symbols ++ keywords, p.2 ∈ unaryOperators →
      IsWord p.1 ∧ p.1 ∉ ["call", "group", "super"] := by
    decide
  have hkind : ∀ kind ∈ unaryOperators,
      kind ∉ [TokenKind.identifier, .number, .textLiteral] := by
    decide
  obtain ⟨hmem, hliteral⟩ := hoperator.mem_table (hkind _ hk)
  obtain ⟨hword, hne⟩ := table _ hmem hk
  simp only [List.mem_cons, List.not_mem_nil, not_or] at hne
  have hrename := Token.Scanned.ofText_eq_of_mem hmem hliteral
  refine ⟨.compound hword (by simpa using h.wellFormed), fun hf => ?_⟩
  simp [Expr.form, hne, hrename, Expr.rename, h.expr_form hf]

lemma binary {operator : Token} (hoperator : operator.Scanned)
    (hk : operator.kind ∈ binaryOperators) (h : first.Readable finite)
    (h' : second.Readable finite) : (Expr.binary first operator second).Readable finite := by
  have table : ∀ p ∈ symbols ++ keywords, p.2 ∈ binaryOperators → IsWord p.1 ∧
      p.1 ∉ ["call", "group", "super", "=", ".", "?.", "lambda", "and", "or"] := by
    decide
  have hkind : ∀ kind ∈ binaryOperators,
      kind ∉ [TokenKind.identifier, .number, .textLiteral] := by
    decide
  obtain ⟨hmem, hliteral⟩ := hoperator.mem_table (hkind _ hk)
  obtain ⟨hword, hne⟩ := table _ hmem hk
  simp only [List.mem_cons, List.not_mem_nil, not_or] at hne
  have hrename := Token.Scanned.ofText_eq_of_mem hmem hliteral
  refine ⟨.compound hword (by simpa using ⟨h.wellFormed, h'.wellFormed⟩), fun hf => ?_⟩
  simp [Expr.form, hne, hrename, Expr.rename, h.expr_form hf, h'.expr_form hf]

lemma logical {operator : Token} (hoperator : operator.Scanned)
    (hk : operator.kind ∈ [.kwAnd, .kwOr]) (h : first.Readable finite)
    (h' : second.Readable finite) : (Expr.logical first operator second).Readable finite := by
  obtain ⟨w, hw, hlexeme, hrename⟩ : ∃ w ∈ ["and", "or"], operator.lexeme = w ∧
      operator.rename .blank = .ofText w := by
    rcases (by simpa using hk : operator.kind = .kwAnd ∨ operator.kind = .kwOr) with hk | hk
    · exact ⟨"and", by decide, hoperator.eq_ofText _ (by decide) hk⟩
    · exact ⟨"or", by decide, hoperator.eq_ofText _ (by decide) hk⟩
  have table : ∀ w ∈ ["and", "or"],
      IsWord w ∧ w ∉ ["call", "group", "super", "=", ".", "?.", "lambda"] := by
    decide
  obtain ⟨hword, hne⟩ := table w hw
  simp only [List.mem_cons, List.not_mem_nil, not_or] at hne
  have hlogical : w = "and" ∨ w = "or" := by simpa using hw
  refine ⟨.compound (hlexeme ▸ hword) (by simpa using ⟨h.wellFormed, h'.wellFormed⟩),
    fun hf => ?_⟩
  simp [Expr.form, hlexeme, hne, hlogical, hrename, Expr.rename, h.expr_form hf, h'.expr_form hf]

lemma ternary (h : first.Readable finite) (h' : second.Readable finite)
    (h'' : third.Readable finite) : (Expr.ternary first second third).Readable finite := by
  refine ⟨.compound (by decide) ?_, fun hf => ?_⟩
  · simpa using ⟨h.wellFormed, h'.wellFormed, h''.wellFormed⟩
  · simp [Expr.form, Expr.rename, h.expr_form hf, h'.expr_form hf, h''.expr_form hf]

lemma assign (hname : t.IsPlain) (h : e.Readable finite) {id : NodeId} :
    (Expr.assign id t e).Readable finite := by
  refine ⟨.compound (by decide) (by simpa using ⟨hname.wellFormed, h.wellFormed⟩), fun hf => ?_⟩
  simp [Expr.form, Expr.rename, hname.token_eq, h.expr_form hf]

lemma get (h : e.Readable finite) (hname : t.IsPlain) : (Expr.get e t).Readable finite := by
  refine ⟨.compound (by decide) (by simpa using ⟨h.wellFormed, hname.wellFormed⟩), fun hf => ?_⟩
  simp [Expr.form, Expr.rename, hname.token_eq, h.expr_form hf]

lemma nilGet (h : e.Readable finite) (hname : t.IsPlain) : (Expr.nilGet e t).Readable finite := by
  refine ⟨.compound (by decide) (by simpa using ⟨h.wellFormed, hname.wellFormed⟩), fun hf => ?_⟩
  simp [Expr.form, Expr.rename, hname.token_eq, h.expr_form hf]

lemma set (h : first.Readable finite) (hname : t.IsPlain) (h' : second.Readable finite) :
    (Expr.set first t second).Readable finite := by
  refine ⟨.compound (by decide) ?_, fun hf => ?_⟩
  · simpa using ⟨h.wellFormed, hname.wellFormed, h'.wellFormed⟩
  · simp [Expr.form, Expr.rename, hname.token_eq, h.expr_form hf, h'.expr_form hf]

lemma call {paren : Token} (h : e.Readable finite) {es : List Expr}
    (hes : ∀ e ∈ es, e.Readable finite) (hparen : paren.Scanned) (hk : paren.kind = .rightParen) :
    (Expr.call e paren es).Readable finite := by
  obtain ⟨-, hrename⟩ := hparen.eq_ofText ")" (by decide) hk
  refine ⟨.compound (by decide) ?_, fun hf => ?_⟩
  · rw [List.forall_mem_cons]
    exact ⟨h.wellFormed, wellFormed_exprForms hes⟩
  · simp [Expr.form, Expr.rename, hrename, h.expr_form hf, exprs_exprForms hes hf]

lemma lambda {params : List Token} {body : List Stmt} {line : Nat}
    (hparams : ∀ param ∈ params, param.IsPlain) (hbody : ∀ s ∈ body, s.Readable finite) :
    (Expr.lambda (.mk ⟨.kwFun, "lambda", none, line⟩ params body)).Readable finite := by
  have hblock := Form.WellFormed.curly (wellFormed_stmtForms hbody)
  refine ⟨.compound (by decide) ?_, fun hf => ?_⟩
  · simpa using ⟨wellFormed_parameterForm hparams, hblock⟩
  · simp [Expr.form, Expr.rename, FunctionDecl.rename,
      tokens_parameterForm hparams, stmts_stmtForms hbody hf, Token.rename]

end Expr.Readable

/-! ### Members of classes -/

section

variable {f : FunctionDecl} {g : GetterDecl} {fs : List FunctionDecl} {gs : List GetterDecl}

lemma FunctionDecl.Readable.wellFormed (h : f.Readable finite) : f.form.WellFormed := by
  obtain ⟨name, params, body⟩ := f
  obtain ⟨hname, hparams, hbody⟩ := h
  have hblock := Form.WellFormed.curly (wellFormed_stmtForms hbody)
  refine .compound (by decide) ?_
  simpa using ⟨hname.wellFormed, wellFormed_parameterForm hparams, hblock⟩

lemma FunctionDecl.Readable.exists_parts (h : f.Readable finite) (hf : finite) :
    ∃ parts, f.form = .round (.word "fun" :: parts) ∧
      Form.function parts = f.rename .blank := by
  obtain ⟨name, params, body⟩ := f
  obtain ⟨hname, hparams, hbody⟩ := h
  refine ⟨_, by rw [FunctionDecl.form], ?_⟩
  rw [Form.function, Form.body, stmts_stmtForms hbody hf, tokens_parameterForm hparams,
    hname.token_eq, FunctionDecl.rename]

lemma GetterDecl.Readable.wellFormed (h : g.Readable finite) : g.form.WellFormed := by
  obtain ⟨name, body⟩ := g
  obtain ⟨hname, hbody⟩ := h
  have hblock := Form.WellFormed.curly (wellFormed_stmtForms hbody)
  exact .compound (by decide) (by simpa using ⟨hname.wellFormed, hblock⟩)

lemma GetterDecl.Readable.exists_parts (h : g.Readable finite) (hf : finite) :
    ∃ parts, g.form = .round (.word "getter" :: parts) ∧
      Form.getter parts = g.rename .blank := by
  obtain ⟨name, body⟩ := g
  obtain ⟨hname, hbody⟩ := h
  refine ⟨_, by rw [GetterDecl.form], ?_⟩
  rw [Form.getter, Form.body, stmts_stmtForms hbody hf, hname.token_eq, GetterDecl.rename]

lemma wellFormed_members (hfs : ∀ f ∈ fs, f.Readable finite) (hgs : ∀ g ∈ gs, g.Readable finite) :
    ∀ f ∈ functionForms fs ++ getterForms gs, f.WellFormed := by
  induction fs with
  | nil =>
    rw [functionForms, List.nil_append]
    induction gs with
    | nil => simp [getterForms]
    | cons g gs ih =>
      rw [List.forall_mem_cons] at hgs
      rw [getterForms, List.forall_mem_cons]
      exact ⟨hgs.1.wellFormed, ih hgs.2⟩
  | cons f fs ih =>
    rw [List.forall_mem_cons] at hfs
    rw [functionForms, List.cons_append, List.forall_mem_cons]
    exact ⟨hfs.1.wellFormed, ih hfs.2⟩

/-- The members of a class stand for its methods and for its getters. -/
lemma methods_members (hfs : ∀ f ∈ fs, f.Readable finite) (hgs : ∀ g ∈ gs, g.Readable finite)
    (hf : finite) : Form.methods (functionForms fs ++ getterForms gs) = renameFunctions .blank fs ∧
      Form.getters (functionForms fs ++ getterForms gs) = renameGetters .blank gs := by
  induction fs with
  | nil =>
    rw [functionForms, List.nil_append, renameFunctions]
    induction gs with
    | nil => exact ⟨rfl, rfl⟩
    | cons g gs ih =>
      rw [List.forall_mem_cons] at hgs
      obtain ⟨parts, hform, hread⟩ := hgs.1.exists_parts hf
      obtain ⟨hmethods, hgetters⟩ := ih hgs.2
      simp [getterForms, hform, hmethods, hgetters, hread, renameGetters]
  | cons f fs ih =>
    rw [List.forall_mem_cons] at hfs
    obtain ⟨parts, hform, hread⟩ := hfs.1.exists_parts hf
    obtain ⟨hmethods, hgetters⟩ := ih hfs.2
    simp [functionForms, hform, hmethods, hgetters, hread, renameFunctions]

/-- Members of classes are no words. -/
lemma superclass_members (fs : List FunctionDecl) (gs : List GetterDecl) :
    Form.superclass (functionForms fs ++ getterForms gs) = none := by
  rcases fs with _ | ⟨⟨_, _, _⟩, fs⟩
  · rcases gs with _ | ⟨⟨_, _⟩, gs⟩
    · rfl
    · simp [functionForms, getterForms, GetterDecl.form]
  · simp [functionForms, FunctionDecl.form]

end

/-! ### Statements -/

namespace Stmt.Readable

variable {keyword : Token} {s s' : Stmt}

lemma expression (h : e.Readable finite) : (Stmt.expression e).Readable finite := by
  refine ⟨.compound (by decide) (by simpa using h.wellFormed), fun hf => ?_⟩
  simp [Stmt.form, Stmt.rename, h.expr_form hf]

lemma print (hkeyword : keyword.Scanned) (hk : keyword.kind = .kwPrint) (h : e.Readable finite) :
    (Stmt.print keyword e).Readable finite := by
  obtain ⟨-, hrename⟩ := hkeyword.eq_ofText "print" (by decide) hk
  refine ⟨.compound (by decide) (by simpa using h.wellFormed), fun hf => ?_⟩
  simp [Stmt.form, Stmt.rename, hrename, h.expr_form hf]

lemma varNone (hname : t.IsPlain) : (Stmt.var t none).Readable finite := by
  refine ⟨.compound (by decide) (by simpa using hname.wellFormed), fun _ => ?_⟩
  simp [Stmt.form, Stmt.rename, hname.token_eq]

lemma varSome (hname : t.IsPlain) (h : e.Readable finite) :
    (Stmt.var t (some e)).Readable finite := by
  refine ⟨.compound (by decide) (by simpa using ⟨hname.wellFormed, h.wellFormed⟩), fun hf => ?_⟩
  simp [Stmt.form, Stmt.rename, hname.token_eq, h.expr_form hf]

lemma block {ss : List Stmt} (h : ∀ s ∈ ss, s.Readable finite) :
    (Stmt.block ss).Readable finite := by
  refine ⟨.curly (wellFormed_stmtForms h), fun hf => ?_⟩
  rw [Stmt.form, Form.stmt, Stmt.rename, stmts_stmtForms h hf]

lemma function {f : FunctionDecl} (h : f.Readable finite) :
    (Stmt.function f).Readable finite := by
  refine ⟨h.wellFormed, fun hf => ?_⟩
  obtain ⟨parts, hform, hread⟩ := h.exists_parts hf
  simp [Stmt.form, hform, hread, Stmt.rename]

lemma getter {g : GetterDecl} (h : g.Readable finite) : (Stmt.getter g).Readable finite := by
  refine ⟨h.wellFormed, fun hf => ?_⟩
  obtain ⟨parts, hform, hread⟩ := h.exists_parts hf
  simp [Stmt.form, hform, hread, Stmt.rename]

lemma classDecl {superclass : Option Expr} {fs : List FunctionDecl} {gs : List GetterDecl}
    (hname : t.IsPlain) (hsuper : ∀ e ∈ superclass, e.Readable finite ∧ ∃ w, e.form = .word w)
    (hfs : ∀ f ∈ fs, f.Readable finite) (hgs : ∀ g ∈ gs, g.Readable finite) :
    (Stmt.classDecl t superclass fs gs).Readable finite := by
  have hmembers := wellFormed_members hfs hgs
  cases superclass with
  | none =>
    refine ⟨.compound (by decide) (List.forall_mem_cons.mpr ⟨hname.wellFormed, hmembers⟩),
      fun hf => ?_⟩
    obtain ⟨hmethods, hgetters⟩ := methods_members hfs hgs hf
    simp [Stmt.form, superclass_members, hmethods, hgetters, hname.token_eq, Stmt.rename]
  | some e =>
    obtain ⟨he, w, hw⟩ := hsuper e rfl
    refine ⟨.compound (by decide) ?_, fun hf => ?_⟩
    · rw [List.forall_mem_cons, List.forall_mem_cons, List.forall_mem_cons]
      exact ⟨hname.wellFormed, .word (by decide), he.wellFormed, hmembers⟩
    · obtain ⟨hmethods, hgetters⟩ := methods_members hfs hgs hf
      have hread : Form.atom w = e.rename .blank := by simpa [hw] using he.expr_form hf
      simp [Stmt.form, hw, hread, hmethods, hgetters, hname.token_eq, Stmt.rename]

lemma ifOnly (h : e.Readable finite) (hs : s.Readable finite) :
    (Stmt.ifStmt e s none).Readable finite := by
  refine ⟨.compound (by decide) (by simpa using ⟨h.wellFormed, hs.wellFormed⟩), fun hf => ?_⟩
  simp [Stmt.form, Stmt.rename, h.expr_form hf, hs.stmt_form hf]

lemma ifElse (h : e.Readable finite) (hs : s.Readable finite) (hs' : s'.Readable finite) :
    (Stmt.ifStmt e s (some s')).Readable finite := by
  refine ⟨.compound (by decide) ?_, fun hf => ?_⟩
  · simpa using ⟨h.wellFormed, hs.wellFormed, hs'.wellFormed⟩
  · simp [Stmt.form, Stmt.rename, h.expr_form hf, hs.stmt_form hf, hs'.stmt_form hf]

lemma whileStmt (h : e.Readable finite) (hs : s.Readable finite) :
    (Stmt.whileStmt e s).Readable finite := by
  refine ⟨.compound (by decide) (by simpa using ⟨h.wellFormed, hs.wellFormed⟩), fun hf => ?_⟩
  simp [Stmt.form, Stmt.rename, h.expr_form hf, hs.stmt_form hf]

lemma breakStmt (hkeyword : keyword.Scanned) (hk : keyword.kind = .kwBreak) :
    (Stmt.breakStmt keyword).Readable finite := by
  obtain ⟨-, hrename⟩ := hkeyword.eq_ofText "break" (by decide) hk
  refine ⟨.compound (by decide) (by simp), fun _ => ?_⟩
  simp [Stmt.form, Stmt.rename, hrename]

lemma returnStmt (hkeyword : keyword.Scanned) (hk : keyword.kind = .kwReturn)
    {value : Option Expr} (h : ∀ e ∈ value, e.Readable finite) :
    (Stmt.returnStmt keyword value).Readable finite := by
  obtain ⟨-, hrename⟩ := hkeyword.eq_ofText "return" (by decide) hk
  cases value with
  | none =>
    refine ⟨.compound (by decide) (by simp), fun _ => ?_⟩
    simp [Stmt.form, Stmt.rename, hrename]
  | some e =>
    have he := h e rfl
    refine ⟨.compound (by decide) (by simpa using he.wellFormed), fun hf => ?_⟩
    simp [Stmt.form, Stmt.rename, hrename, he.expr_form hf]

end Stmt.Readable

end

/-! ### Programs that were read -/

namespace Grammar

/-- A token of a script, with a finite number if it has one and all are. -/
structure Legible (finite : Prop) (t : Token) : Prop where
  scanned : t.Scanned
  isFinite : finite → ∀ x, t.literal = some (.number x) → x.isFinite = true

/-- The trees of each syntactic class can be read again from their forms. -/
def Readable (finite : Prop) : (phrase : Phrase) → phrase.Tree → Prop
  | .expression _, e => e.Readable finite
  | .optional, value => ∀ e ∈ value, e.Readable finite
  | .listing, es => ∀ e ∈ es, e.Readable finite
  | .arguments, es => ∀ e ∈ es, e.Readable finite
  | .callable, (params, body) =>
    (∀ param ∈ params, param.IsPlain) ∧ ∀ s ∈ body, s.Readable finite
  | .block, ss => ∀ s ∈ ss, s.Readable finite
  | .function, f => f.Readable finite
  | .getter, g => g.Readable finite
  | .members, (fs, gs) => (∀ f ∈ fs, f.Readable finite) ∧ ∀ g ∈ gs, g.Readable finite
  | .varClause, s => s.Readable finite
  | .initializer, clause => ∀ s ∈ clause, s.Readable finite
  | .statement _, s => s.Readable finite
  | .declaration, s => s.Readable finite
  | .declarations, ss => ∀ s ∈ ss, s.Readable finite

section

variable {finite : Prop}

lemma Legible.isPlain {t : Token} (h : Legible finite t) (hk : t.kind = .identifier) : t.IsPlain :=
  h.scanned.isPlain_of_identifier hk

/-- A number or a text can be read again. -/
lemma Legible.literal {t : Token} (h : Legible finite t) (hk : t.kind ∈ [.number, .textLiteral]) :
    (Expr.literal (t.literal.getD .nil)).Readable finite := by
  rcases (by simpa using hk : t.kind = .number ∨ t.kind = .textLiteral) with hk | hk
  · obtain ⟨x, hliteral, hsign, hcode⟩ := h.scanned.number hk
    obtain ⟨hword, hdigit⟩ := isWord_displayStyle hsign hcode
    rw [hliteral]
    exact .number hword fun hf => hdigit (h.isFinite hf x hliteral)
  · have hlexeme := h.scanned
    rw [Token.Scanned, hk] at hlexeme
    obtain ⟨body, hliteral, -⟩ := hlexeme.exists_body
    rw [hliteral]
    exact .text body

lemma readable_gather {ss : List Stmt} (h : ∀ s ∈ ss, s.Readable finite) :
    (gather ss).Readable finite := by
  unfold gather
  split
  · next s => exact h s List.mem_cons_self
  · exact .block h

lemma readable_loop {initializer : Option Stmt} {condition increment : Option Expr} {body : Stmt}
    (hi : ∀ s ∈ initializer, s.Readable finite) (hc : ∀ e ∈ condition, e.Readable finite)
    (hs : ∀ e ∈ increment, e.Readable finite) (hb : body.Readable finite) :
    (loop initializer condition increment body).Readable finite := by
  have hcondition : (condition.getD (.literal (.bool true))).Readable finite := by
    cases condition with
    | none => exact .bool true
    | some e => exact hc e rfl
  have hround : (gather (body :: (increment.map Stmt.expression).toList)).Readable finite := by
    refine readable_gather (List.forall_mem_cons.mpr ⟨hb, fun s hstep => ?_⟩)
    obtain ⟨e, he, rfl⟩ := Option.map_eq_some_iff.mp (Option.mem_toList.mp hstep)
    exact .expression (hs e he)
  refine readable_gather ?_
  rw [List.forall_mem_append, List.forall_mem_singleton]
  exact ⟨fun s hs => hi s (Option.mem_toList.mp hs), .whileStmt hcondition hround⟩

lemma Superclass.readable {ts : List Token} {superclass : Option Expr}
    (h : Superclass ts superclass) (hts : ∀ t ∈ ts, Legible finite t) :
    ∀ e ∈ superclass, e.Readable finite ∧ ∃ w, e.form = .word w := by
  cases h with
  | none => simp
  | some hless hname =>
    rintro e ⟨⟩
    exact ⟨.name (hts _ (by simp)).scanned hname, _, by rw [Expr.form]⟩

/-- Whatever the grammar spells with the tokens of a script can be read again. -/
theorem Spells.readable {Ends : List Token → Prop} {phrase : Phrase} {ts : List Token}
    {tree : phrase.Tree} (h : Spells Ends phrase ts tree)
    (hts : ∀ t ∈ ts, Legible finite t) : Readable finite phrase tree := by
  induction h with try simp only [List.forall_mem_append, List.forall_mem_cons] at hts
  | tighter _ _ ih => exact ih hts
  | assign hname _ _ ih => exact .assign (hts.1.isPlain hname) (ih hts.2.2)
  | set _ _ hname _ _ ihobject ih =>
    obtain ⟨hobject, -, hname', -, hvalue⟩ := hts
    exact .set (ihobject hobject) (hname'.isPlain hname) (ih hvalue)
  | ternary _ _ _ _ _ ihcondition ihfirst ihsecond =>
    obtain ⟨hcondition, -, hfirst, -, hsecond⟩ := hts
    exact .ternary (ihcondition hcondition) (ihfirst hfirst) (ihsecond hsecond)
  | binary _ _ hoperator _ ihleft ihright =>
    obtain ⟨hleft, hoperator', hright⟩ := hts
    exact .binary hoperator'.scanned (Stratum.mem_binaryOperators hoperator) (ihleft hleft)
      (ihright hright)
  | logical _ _ hoperator _ ihleft ihright =>
    obtain ⟨hleft, hoperator', hright⟩ := hts
    exact .logical hoperator'.scanned (Stratum.mem_logicalOperators hoperator) (ihleft hleft)
      (ihright hright)
  | unary hoperator _ ih => exact .unary hts.1.scanned hoperator (ih hts.2)
  | call _ _ _ hparen ihcallee iharguments =>
    obtain ⟨hcallee, -, harguments, hparen', -⟩ := hts
    exact .call (ihcallee hcallee) (iharguments harguments) hparen'.scanned hparen
  | get _ _ hname ih =>
    obtain ⟨hobject, -, hname', -⟩ := hts
    exact .get (ih hobject) (hname'.isPlain hname)
  | nilGet _ _ hname ih =>
    obtain ⟨hobject, -, hname', -⟩ := hts
    exact .nilGet (ih hobject) (hname'.isPlain hname)
  | falseLiteral _ => exact .bool false
  | trueLiteral _ => exact .bool true
  | nilLiteral _ => exact .nil
  | literal ht => exact hts.1.literal ht
  | this ht => exact .this hts.1.scanned ht
  | super hkeyword _ hmethod =>
    obtain ⟨hkeyword', -, hmethod', -⟩ := hts
    exact .super hkeyword'.scanned hkeyword (hmethod'.isPlain hmethod)
  | name hname => exact .name hts.1.scanned hname
  | lambda _ _ ih =>
    obtain ⟨hparams, hbody⟩ := ih hts.2
    exact .lambda hparams hbody
  | grouping _ _ _ ih => exact .grouping (ih hts.2.1)
  | absent => exact nofun
  | present _ ih =>
    rintro e ⟨⟩
    exact ih hts
  | last _ ih => exact List.forall_mem_singleton.mpr (ih hts)
  | more _ _ _ ih ihrest =>
    obtain ⟨he, -, hrest⟩ := hts
    exact List.forall_mem_cons.mpr ⟨ih he, ihrest hrest⟩
  | noArguments => exact nofun
  | arguments _ _ ih => exact ih hts
  | callable _ hparams _ _ ih =>
    obtain ⟨-, hnames, -, hbody⟩ := hts
    exact ⟨hparams.forall_mem fun t ht hk => (hnames t ht).isPlain hk, ih hbody⟩
  | block _ _ _ ih => exact ih hts.2.1
  | function hname _ ih =>
    obtain ⟨hparams, hbody⟩ := ih hts.2
    exact ⟨hts.1.isPlain hname, hparams, hbody⟩
  | getter hname _ ih => exact ⟨hts.1.isPlain hname, ih hts.2⟩
  | noMembers => exact ⟨nofun, nofun⟩
  | method _ _ ih ihrest =>
    obtain ⟨hmethods, hgetters⟩ := ihrest hts.2
    exact ⟨List.forall_mem_cons.mpr ⟨ih hts.1, hmethods⟩, hgetters⟩
  | property _ _ ih ihrest =>
    obtain ⟨hmethods, hgetters⟩ := ihrest hts.2
    exact ⟨hmethods, List.forall_mem_cons.mpr ⟨ih hts.1, hgetters⟩⟩
  | uninitialized hname => exact .varNone (hts.1.isPlain hname)
  | initialized hname _ _ ih => exact .varSome (hts.1.isPlain hname) (ih hts.2.2)
  | noInitializer => exact nofun
  | varInitializer _ _ ih =>
    rintro s ⟨⟩
    exact ih hts.2
  | expressionInitializer _ ih =>
    rintro s ⟨⟩
    exact .expression (ih hts)
  | expression _ _ ih => exact .expression (ih hts.1)
  | print hkeyword _ _ ih => exact .print hts.1.scanned hkeyword (ih hts.2.1)
  | breakStmt hkeyword _ => exact .breakStmt hts.1.scanned hkeyword
  | returnStmt hkeyword _ _ ih => exact .returnStmt hts.1.scanned hkeyword (ih hts.2.1)
  | blockStmt _ ih => exact .block (ih hts)
  | ifOnly _ _ _ _ _ ihcondition ihconsequent =>
    obtain ⟨-, -, hcondition, -, hconsequent⟩ := hts
    exact .ifOnly (ihcondition hcondition) (ihconsequent hconsequent)
  | ifElse _ _ _ _ _ _ _ ihcondition ihconsequent ihalternative =>
    obtain ⟨-, -, hcondition, -, hconsequent, -, halternative⟩ := hts
    exact .ifElse (ihcondition hcondition) (ihconsequent hconsequent) (ihalternative halternative)
  | whileStmt _ _ _ _ _ ihcondition ihbody =>
    obtain ⟨-, -, hcondition, -, hbody⟩ := hts
    exact .whileStmt (ihcondition hcondition) (ihbody hbody)
  | forStmt _ _ _ _ _ _ _ _ _ ihinitializer ihcondition ihincrement ihbody =>
    obtain ⟨-, -, hinitializer, -, hcondition, -, hincrement, -, hbody⟩ := hts
    exact readable_loop (ihinitializer hinitializer) (ihcondition hcondition)
      (ihincrement hincrement) (ihbody hbody)
  | classDecl _ hname hsuper _ _ _ ih =>
    obtain ⟨-, hname', hts, -, hmembers, -⟩ := hts
    obtain ⟨hmethods, hgetters⟩ := ih hmembers
    exact .classDecl (hname'.isPlain hname) (hsuper.readable hts) hmethods hgetters
  | functionDecl _ _ ih => exact .function (ih hts.2)
  | getterDecl _ _ ih => exact .getter (ih hts.2)
  | varDecl _ _ _ ih => exact ih hts.2.1
  | statement _ ih => exact ih hts
  | done => exact nofun
  | next _ _ ih ihrest => exact List.forall_mem_cons.mpr ⟨ih hts.1, ihrest hts.2⟩

end

end Grammar

end Scripting
