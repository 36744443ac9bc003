import Scripting.Proofs.Program.ExpressionCompleteness

/-!
# What follows the grammar is read

The phrases of all syntactic classes, by induction on how the grammar spells them: reading tokens
that spell a program, with a semicolon behind every simple statement, gives this program again.
-/

namespace Scripting

open Grammar

namespace Parser

variable {ts ts' ts'' more : List Token}

/-- The parameters and the body of a function, from the opening parenthesis on. -/
def ReadableCallable (ts : List Token) (f : List Token × List Stmt) : Prop :=
  ∃ opening rest, ts = opening :: rest ∧ opening.kind = .leftParen ∧ ∀ bound kind more,
    boundPerToken * rest.length ≤ bound →
      Accepts (readers bound (.functionRest kind)) rest more fun f' =>
        f'.1 = f.1 ∧ renameStmts bare f'.2 = renameStmts bare f.2

/-- The statements of a block, from the opening brace on. -/
def ReadableBlock (ts : List Token) (ss : List Stmt) : Prop :=
  ∃ opening rest, ts = opening :: rest ∧ opening.kind = .leftBrace ∧ ∀ bound more,
    boundPerToken * rest.length ≤ bound → Accepts (readers bound .block) rest more fun ss' =>
      renameStmts bare ss' = renameStmts bare ss

/-! ### Expressions without operators -/

section

variable {t : Token}

lemma takes_primary {e : Expr} (h : ∀ bound more, boundPerToken * ts.length ≤ bound + 1 →
    Accepts (readers (bound + 1) .primary) ts more fun e' => e'.rename bare = e.rename bare)
    (hts : ts ≠ []) : Takes .primary ts e := by
  intro bound more hbound _
  have hlength := List.length_pos_of_ne_nil hts
  rw [depth] at hbound
  obtain ⟨bound, rfl⟩ : ∃ fewer, bound = fewer + 1 := by
    rw [boundPerToken] at hbound
    exact ⟨bound - 1, by omega⟩
  exact h bound more hbound

lemma takes_falseLiteral (ht : t.kind = .kwFalse) :
    Takes .primary [t] (.literal (.bool false)) := by
  refine takes_primary (fun bound more _ => ?_) (by simp)
  refine continues_peekKind ?_
  rw [List.singleton_append, headKind_cons, ht]
  exact continues_take (by rw [ht]; decide) (accepts_pure rfl)

lemma takes_trueLiteral (ht : t.kind = .kwTrue) :
    Takes .primary [t] (.literal (.bool true)) := by
  refine takes_primary (fun bound more _ => ?_) (by simp)
  refine continues_peekKind ?_
  rw [List.singleton_append, headKind_cons, ht]
  exact continues_take (by rw [ht]; decide) (accepts_pure rfl)

lemma takes_nilLiteral (ht : t.kind = .kwNil) : Takes .primary [t] (.literal .nil) := by
  refine takes_primary (fun bound more _ => ?_) (by simp)
  refine continues_peekKind ?_
  rw [List.singleton_append, headKind_cons, ht]
  exact continues_take (by rw [ht]; decide) (accepts_pure rfl)

lemma takes_literal (ht : t.kind ∈ [.number, .textLiteral]) :
    Takes .primary [t] (.literal (t.literal.getD .nil)) := by
  refine takes_primary (fun bound more _ => ?_) (by simp)
  simp only [List.mem_cons, List.not_mem_nil, or_false] at ht
  refine continues_peekKind ?_
  rw [List.singleton_append, headKind_cons]
  rcases ht with ht | ht
  · rw [ht]
    exact continues_take (by rw [ht]; decide) (accepts_pure rfl)
  · rw [ht]
    exact continues_take (by rw [ht]; decide) (accepts_pure rfl)

lemma takes_this (id : NodeId) (ht : t.kind = .kwThis) : Takes .primary [t] (.this id t) := by
  refine takes_primary (fun bound more _ => ?_) (by simp)
  refine continues_peekKind ?_
  rw [List.singleton_append, headKind_cons, ht]
  refine continues_take (by rw [ht]; decide) ?_
  exact continues_freshId fun id' => accepts_pure (by simp [Expr.rename])

lemma takes_name (id : NodeId) (ht : t.kind = .identifier) : Takes .primary [t] (.name id t) := by
  refine takes_primary (fun bound more _ => ?_) (by simp)
  refine continues_peekKind ?_
  rw [List.singleton_append, headKind_cons, ht]
  refine continues_take (by rw [ht]; decide) ?_
  exact continues_freshId fun id' => accepts_pure (by simp [Expr.rename])

lemma takes_super {keyword dot method : Token} (id : NodeId) (hkeyword : keyword.kind = .kwSuper)
    (hdot : dot.kind = .dot) (hmethod : method.kind = .identifier) :
    Takes .primary [keyword, dot, method] (.super id keyword method) := by
  refine takes_primary (fun bound more _ => ?_) (by simp)
  refine continues_peekKind ?_
  rw [List.cons_append, headKind_cons, hkeyword]
  refine continues_take (by rw [hkeyword]; decide) ?_
  refine continues_expect hdot (by decide) _ ?_
  refine continues_expect hmethod (by decide) _ ?_
  exact continues_freshId fun id' => accepts_pure (by simp [Expr.rename])

lemma takes_lambda {keyword : Token} {params : List Token} {body : List Stmt}
    (hkeyword : keyword.kind = .kwFun) (h : ReadableCallable ts (params, body)) :
    Takes .primary (keyword :: ts)
      (.lambda (.mk ⟨.kwFun, "lambda", none, keyword.line⟩ params body)) := by
  obtain ⟨opening, rest, rfl, hopening, hread⟩ := h
  refine takes_primary (fun bound more hbound => ?_) (by simp)
  simp only [boundPerToken, List.length_cons] at hbound
  refine continues_peekKind ?_
  rw [List.cons_append, headKind_cons, hkeyword]
  refine continues_take (by rw [hkeyword]; decide) ?_
  refine continues_expect hopening (by decide) _ ?_
  refine (hread bound .lambda more (by rw [boundPerToken]; omega)).bind_last ?_
  rintro ⟨params', body'⟩ ⟨rfl, hbody⟩
  refine accepts_pure ?_
  simp [Expr.rename, FunctionDecl.rename, hbody]

lemma takes_grouping {opening closing : Token} {inner : Expr}
    (hopening : opening.kind = .leftParen) (hinner : Takes .assignment ts inner)
    (hclosing : closing.kind = .rightParen) :
    Takes .primary (opening :: (ts ++ [closing])) (.grouping inner) := by
  refine takes_primary (fun bound more hbound => ?_) (by simp)
  simp only [boundPerToken, List.length_cons, List.length_append, List.length_nil] at hbound
  refine continues_peekKind ?_
  rw [List.cons_append, headKind_cons, hopening]
  refine continues_take (by rw [hopening]; decide) ?_
  refine (hinner bound _ (by rw [boundPerToken, depth]; omega) ?_).bind fun inner' hinner' => ?_
  · rw [List.singleton_append, headKind_cons, hclosing]
    decide
  refine continues_expect hclosing (by decide) _ (accepts_pure ?_)
  simp [Expr.rename, hinner']

end

/-! ### Lists -/

/-- Expressions with commas between them, when some were read before. -/
def ReadableListing (ts : List Token) (es : List Expr) : Prop :=
  ∀ bound count more, boundPerToken * ts.length + 18 ≤ bound → count + es.length ≤ maxListed →
    headKind more ∉ .comma :: Stratum.assignment.extenders →
      Accepts (readers bound (.arguments count)) ts more fun es' =>
        renameExprs bare es' = renameExprs bare es

/-- The reader of arguments notes nothing as long as there are few enough. -/
lemma arguments_eq {bound count : Nat} (h : count < maxListed) :
    readers (bound + 1) (.arguments count) = (readers bound).argumentsFrom count := by
  rw [readers, Readers.step, if_neg (by rw [maxArguments]; rw [maxListed] at h; omega)]

lemma readable_last {e : Expr} (h : Takes .assignment ts e) : ReadableListing ts [e] := by
  intro bound count more hbound hcount hmore
  obtain ⟨bound, rfl⟩ : ∃ fewer, bound = fewer + 1 := ⟨bound - 1, by omega⟩
  rw [arguments_eq (Nat.lt_of_succ_le hcount)]
  refine (h bound more (by rw [depth]; omega) ?_).bind_last fun e' he => ?_
  · exact fun hk => hmore (List.mem_cons_of_mem _ hk)
  refine continues_accept_false ?_ (accepts_pure (by simp [renameExprs, he]))
  intro hk
  exact hmore (by simp [← hk])

lemma readable_more {comma : Token} {e : Expr} {es : List Expr} (h : Takes .assignment ts e)
    (hcomma : comma.kind = .comma) (hes : ReadableListing ts' es) :
    ReadableListing (ts ++ comma :: ts') (e :: es) := by
  intro bound count more hbound hcount hmore
  simp only [boundPerToken, List.length_append, List.length_cons] at hbound hcount
  obtain ⟨bound, rfl⟩ : ∃ fewer, bound = fewer + 1 := ⟨bound - 1, by omega⟩
  rw [arguments_eq (by omega)]
  refine (h bound _ (by rw [boundPerToken, depth]; omega) ?_).bind fun e' he => ?_
  · rw [List.cons_append, headKind_cons, hcomma]
    decide
  refine continues_accept hcomma (by decide) ?_
  refine (hes bound (count + 1) more (by rw [boundPerToken]; omega) (by omega) hmore).bind_last ?_
  intro es' hes'
  exact accepts_pure (by simp [renameExprs, he, hes'])

lemma parameters_eq {bound count : Nat} (h : count < maxListed) :
    readers (bound + 1) (.parameters count) = (readers bound).parametersFrom count := by
  rw [readers, Readers.step, if_neg (by rw [maxArguments]; rw [maxListed] at h; omega)]

/-- Names with commas between them are read as parameters. -/
lemma accepts_names {names : List Token} (h : Names ts names) {bound count : Nat}
    (hbound : ts.length ≤ bound) (hcount : count + names.length ≤ maxListed)
    (hmore : headKind more ≠ .comma) :
    Accepts (readers bound (.parameters count)) ts more (· = names) := by
  induction h generalizing bound count with
  | last hname =>
    obtain ⟨bound, rfl⟩ : ∃ fewer, bound = fewer + 1 := ⟨bound - 1, by
      simp only [List.length_singleton] at hbound
      omega⟩
    rw [parameters_eq (Nat.lt_of_succ_le hcount)]
    refine continues_expect hname (by decide) _ ?_
    exact continues_accept_false hmore (accepts_pure rfl)
  | cons hname hcomma _ ih =>
    simp only [List.length_cons] at hbound hcount
    obtain ⟨bound, rfl⟩ : ∃ fewer, bound = fewer + 1 := ⟨bound - 1, by omega⟩
    rw [parameters_eq (by omega)]
    refine continues_expect hname (by decide) _ ?_
    refine continues_accept hcomma (by decide) ?_
    refine Continues.bind_last (ih (by omega) (by omega)) ?_
    rintro _ rfl
    exact accepts_pure rfl

/-! ### Functions and blocks -/

lemma readable_callable {opening closing : Token} {params : List Token} {body : List Stmt}
    (hopening : opening.kind = .leftParen) (hparams : Parameters ts params)
    (hclosing : closing.kind = .rightParen) (hbody : ReadableBlock ts' body) :
    ReadableCallable (opening :: (ts ++ closing :: ts')) (params, body) := by
  refine ⟨opening, _, rfl, hopening, fun bound kind more hbound => ?_⟩
  obtain ⟨brace, rest, rfl, hbrace, hread⟩ := hbody
  simp only [boundPerToken, List.length_cons, List.length_append] at hbound
  obtain ⟨bound, rfl⟩ : ∃ fewer, bound = fewer + 1 := ⟨bound - 1, by omega⟩
  have bodied : Accepts ((readers bound).functionBody kind params)
      (closing :: brace :: rest) more fun f' =>
        f'.1 = params ∧ renameStmts bare f'.2 = renameStmts bare body := by
    refine continues_expect hclosing (by decide) _ ?_
    refine continues_expect hbrace (by decide) _ ?_
    refine (hread bound more (by rw [boundPerToken]; omega)).bind_last fun body' hbody' => ?_
    exact accepts_pure ⟨rfl, hbody'⟩
  refine continues_peekKind ?_
  cases hparams with
  | none =>
    rw [if_pos (by simpa using hclosing)]
    exact bodied
  | some hnames hlength =>
    have hfirst : headKind (ts ++ closing :: brace :: rest ++ more) = .identifier := by
      cases hnames with
      | last hname => exact hname
      | cons hname _ _ => exact hname
    rw [hfirst, if_neg (by decide)]
    have hmore : headKind (closing :: brace :: rest ++ more) ≠ .comma := by
      rw [List.cons_append, headKind_cons, hclosing]
      decide
    refine (accepts_names hnames (by omega) (by omega) hmore).bind ?_
    rintro _ rfl
    exact bodied

/-- The declarations of a block, before its closing brace. -/
def ReadableDeclarations (ts : List Token) (ss : List Stmt) : Prop :=
  ∀ bound more closing, closing.kind = .rightBrace →
    boundPerToken * (ts.length + 1) ≤ bound →
      Accepts (readers bound .block) (ts ++ [closing]) more fun ss' =>
        renameStmts bare ss' = renameStmts bare ss

lemma readable_block {opening closing : Token} {ss : List Stmt}
    (hopening : opening.kind = .leftBrace) (h : ReadableDeclarations ts ss)
    (hclosing : closing.kind = .rightBrace) :
    ReadableBlock (opening :: (ts ++ [closing])) ss := by
  refine ⟨opening, _, rfl, hopening, fun bound more hbound => ?_⟩
  rw [List.length_append, List.length_singleton] at hbound
  exact h bound more closing hclosing hbound

lemma readable_done : ReadableDeclarations [] [] := by
  intro bound more closing hclosing hbound
  rw [boundPerToken] at hbound
  obtain ⟨bound, rfl⟩ : ∃ fewer, bound = fewer + 1 := ⟨bound - 1, by omega⟩
  refine continues_peekKind ?_
  rw [List.nil_append, List.singleton_append, headKind_cons, hclosing]
  exact continues_take (by rw [hclosing]; decide) (accepts_pure rfl)

/-- A declaration that no `else` follows. -/
def ReadableDeclaration (ts : List Token) (s : Stmt) : Prop :=
  ∀ bound more, boundPerToken * ts.length + 19 ≤ bound → headKind more ≠ .kwElse →
    Accepts (readers bound .declaration) ts more fun s' => s'.rename bare = s.rename bare

/-- A statement; no `else` follows if it is open. -/
def ReadableStatement (ending : Ending) (ts : List Token) (s : Stmt) : Prop :=
  ∀ bound more, boundPerToken * ts.length + 18 ≤ bound →
    (ending = .opened → headKind more ≠ .kwElse) →
      Accepts (readers bound .statement) ts more fun s' => s'.rename bare = s.rename bare

lemma readable_next {s : Stmt} {ss : List Stmt} (hs : ReadableDeclaration ts s)
    (hfirst : headKind ts ∈ declarationStarts) (hne : ts ≠ []) (hss : ReadableDeclarations ts' ss)
    (hnext : ts' = [] ∨ headKind ts' ∈ declarationStarts) :
    ReadableDeclarations (ts ++ ts') (s :: ss) := by
  intro bound more closing hclosing hbound
  obtain ⟨t, rest, rfl⟩ := List.exists_cons_of_ne_nil hne
  simp only [boundPerToken, List.length_append, List.length_cons] at hbound
  obtain ⟨bound, rfl⟩ : ∃ fewer, bound = fewer + 1 := ⟨bound - 1, by omega⟩
  have hblock : ∀ kind ∈ declarationStarts, kind ≠ .rightBrace ∧ kind ≠ .endOfText ∧
      kind ≠ .kwElse := by
    decide
  have helse : headKind (ts' ++ [closing] ++ more) ≠ .kwElse := by
    rcases hnext with rfl | hnext
    · rw [List.nil_append, List.singleton_append, headKind_cons, hclosing]
      decide
    · cases ts' with
      | nil => exact absurd hnext (by decide)
      | cons u rest' => exact (hblock _ hnext).2.2
  obtain ⟨hbrace, hend, -⟩ := hblock _ hfirst
  rw [headKind_cons] at hbrace hend
  refine continues_peekKind ?_
  split
  · next hk => exact absurd hk hbrace
  · next hk => exact absurd hk hend
  · rw [List.append_assoc]
    refine (hs bound _ ?_ helse).bind fun s' hs' => ?_
    · simp only [boundPerToken, List.length_cons]
      omega
    refine (hss bound more closing hclosing ?_).bind_last fun ss' hss' => ?_
    · rw [boundPerToken]
      omega
    exact accepts_pure (by simp [renameStmts, hs', hss'])

/-- A function or a getter with its name. -/
def ReadableMember (ts : List Token) (same : Member → Prop) : Prop :=
  ∀ bound kind more, boundPerToken * ts.length ≤ bound →
    Accepts (readers bound (.member kind)) ts more same

/-- The same function, up to identities. -/
def SameFunction (f : FunctionDecl) : Member → Prop
  | .function f' => f'.rename bare = f.rename bare
  | .getter _ => False

/-- The same getter, up to identities. -/
def SameGetter (g : GetterDecl) : Member → Prop
  | .function _ => False
  | .getter g' => g'.rename bare = g.rename bare

lemma readable_function {name : Token} {params : List Token} {body : List Stmt}
    (hname : name.kind = .identifier) (h : ReadableCallable ts (params, body)) :
    ReadableMember (name :: ts) (SameFunction (.mk name params body)) := by
  intro bound kind more hbound
  obtain ⟨opening, rest, rfl, hopening, hread⟩ := h
  simp only [boundPerToken, List.length_cons] at hbound
  obtain ⟨bound, rfl⟩ : ∃ fewer, bound = fewer + 1 := ⟨bound - 1, by omega⟩
  refine continues_expect hname (by decide) _ ?_
  refine continues_accept_false ?_ ?_
  · rw [List.cons_append, headKind_cons, hopening]
    decide
  refine continues_expect hopening (by decide) _ ?_
  refine (hread bound kind more (by rw [boundPerToken]; omega)).bind_last ?_
  rintro ⟨params', body'⟩ ⟨rfl, hbody⟩
  refine accepts_pure ?_
  simp [SameFunction, FunctionDecl.rename, hbody]

lemma readable_getter {name : Token} {body : List Stmt} (hname : name.kind = .identifier)
    (h : ReadableBlock ts body) : ReadableMember (name :: ts) (SameGetter (.mk name body)) := by
  intro bound kind more hbound
  obtain ⟨opening, rest, rfl, hopening, hread⟩ := h
  simp only [boundPerToken, List.length_cons] at hbound
  obtain ⟨bound, rfl⟩ : ∃ fewer, bound = fewer + 1 := ⟨bound - 1, by omega⟩
  refine continues_expect hname (by decide) _ ?_
  refine continues_accept hopening (by decide) ?_
  refine (hread bound more (by rw [boundPerToken]; omega)).bind_last fun body' hbody => ?_
  exact accepts_pure (by simp [SameGetter, GetterDecl.rename, hbody])

/-- The members of a class, before its closing brace. -/
def ReadableMembers (ts : List Token) (members : List FunctionDecl × List GetterDecl) : Prop :=
  ∀ bound more, boundPerToken * ts.length + 1 ≤ bound → headKind more = .rightBrace →
    Accepts (readers bound .members) ts more fun members' =>
      renameFunctions bare members'.1 = renameFunctions bare members.1 ∧
        renameGetters bare members'.2 = renameGetters bare members.2

lemma readable_noMembers : ReadableMembers [] ([], []) := by
  intro bound more hbound hmore
  obtain ⟨bound, rfl⟩ : ∃ fewer, bound = fewer + 1 := ⟨bound - 1, by omega⟩
  refine continues_peekKind ?_
  rw [List.nil_append, hmore]
  exact accepts_pure ⟨rfl, rfl⟩

/-- One member, and then the others. -/
lemma accepts_members {same : Member → Prop} {members : List FunctionDecl × List GetterDecl}
    {joined : List FunctionDecl × List GetterDecl} (hfirst : ReadableMember ts same)
    (hname : ∃ t rest, ts = t :: rest ∧ t.kind = .identifier) (hrest : ReadableMembers ts' members)
    (hjoined : ∀ (first : Member) (members' : List FunctionDecl × List GetterDecl), same first →
      renameFunctions bare members'.1 = renameFunctions bare members.1 →
      renameGetters bare members'.2 = renameGetters bare members.2 →
      match first with
      | .function f => renameFunctions bare (f :: members'.1) = renameFunctions bare joined.1 ∧
          renameGetters bare members'.2 = renameGetters bare joined.2
      | .getter g => renameFunctions bare members'.1 = renameFunctions bare joined.1 ∧
          renameGetters bare (g :: members'.2) = renameGetters bare joined.2) :
    ReadableMembers (ts ++ ts') joined := by
  intro bound more hbound hmore
  obtain ⟨t, rest, rfl, ht⟩ := hname
  simp only [boundPerToken, List.length_append, List.length_cons] at hbound
  obtain ⟨bound, rfl⟩ : ∃ fewer, bound = fewer + 1 := ⟨bound - 1, by omega⟩
  refine continues_peekKind ?_
  rw [List.append_assoc, List.cons_append, headKind_cons, ht]
  refine (hfirst bound .method _ ?_).bind fun first hsame => ?_
  · simp only [boundPerToken, List.length_cons]
    omega
  refine (hrest bound more (by rw [boundPerToken]; omega) hmore).bind_last ?_
  rintro members' ⟨hmethods, hgetters⟩
  have hj := hjoined first members' hsame hmethods hgetters
  cases first with
  | function f => exact accepts_pure hj
  | getter g => exact accepts_pure hj

lemma readable_method {f : FunctionDecl} {fs : List FunctionDecl} {gs : List GetterDecl}
    (hf : ReadableMember ts (SameFunction f))
    (hname : ∃ t rest, ts = t :: rest ∧ t.kind = .identifier)
    (hrest : ReadableMembers ts' (fs, gs)) : ReadableMembers (ts ++ ts') (f :: fs, gs) := by
  refine accepts_members hf hname hrest ?_
  intro first members' hsame hmethods hgetters
  cases first with
  | function f' =>
    have hsame : f'.rename bare = f.rename bare := hsame
    exact ⟨by simp only [renameFunctions, hsame, hmethods], hgetters⟩
  | getter g' => exact hsame.elim

lemma readable_property {g : GetterDecl} {fs : List FunctionDecl} {gs : List GetterDecl}
    (hg : ReadableMember ts (SameGetter g))
    (hname : ∃ t rest, ts = t :: rest ∧ t.kind = .identifier)
    (hrest : ReadableMembers ts' (fs, gs)) : ReadableMembers (ts ++ ts') (fs, g :: gs) := by
  refine accepts_members hg hname hrest ?_
  intro first members' hsame hmethods hgetters
  cases first with
  | function f' => exact hsame.elim
  | getter g' =>
    have hsame : g'.rename bare = g.rename bare := hsame
    exact ⟨hmethods, by simp only [renameGetters, hsame, hgetters]⟩

/-! ### Statements -/

section

variable {s : Stmt} {ending : List Token} {keyword opening closing : Token}

/-- A variable, before a token that does not go on an expression. -/
def ReadableVar (ts : List Token) (s : Stmt) : Prop :=
  ∀ bound more, boundPerToken * ts.length + 18 ≤ bound →
    headKind more ∉ Stratum.assignment.extenders →
      Accepts (readers bound .varDecl) ts more fun s' => s'.rename bare = s.rename bare

lemma readable_uninitialized {name : Token} (hname : name.kind = .identifier) :
    ReadableVar [name] (.var name none) := by
  intro bound more hbound hmore
  obtain ⟨bound, rfl⟩ : ∃ fewer, bound = fewer + 1 := ⟨bound - 1, by omega⟩
  refine continues_expect hname (by decide) _ ?_
  refine continues_accept_false (fun hk => hmore ?_) (accepts_pure rfl)
  rw [List.nil_append] at hk
  rw [hk]
  decide

lemma readable_initialized {name equals : Token} {value : Expr} (hname : name.kind = .identifier)
    (hequals : equals.kind = .equal) (hvalue : Takes .assignment ts value) :
    ReadableVar (name :: equals :: ts) (.var name (some value)) := by
  intro bound more hbound hmore
  simp only [boundPerToken, List.length_cons] at hbound
  obtain ⟨bound, rfl⟩ : ∃ fewer, bound = fewer + 1 := ⟨bound - 1, by omega⟩
  refine continues_expect hname (by decide) _ ?_
  refine continues_accept hequals (by decide) ?_
  refine (hvalue bound more (by rw [boundPerToken, depth]; omega) hmore).bind_last ?_
  intro value' hvalue'
  exact accepts_pure (by simp [Stmt.rename, hvalue'])

/-- What stands behind a simple statement does not go on its last expression. -/
lemma headKind_semicolon (h : Semicolon ending) (more : List Token) :
    headKind (ending ++ more) ∉ Stratum.assignment.extenders := by
  obtain ⟨t, rfl, ht⟩ := h
  rw [List.singleton_append, headKind_cons, ht]
  decide

lemma readable_expression {value : Expr} (hvalue : Takes .assignment ts value)
    (hts : Begins expressionStarts ts) (hending : Semicolon ending) :
    ReadableStatement .closed (ts ++ ending) (.expression value) := by
  intro bound more hbound _
  obtain ⟨t, rest, rfl, ht, -⟩ := hts
  rw [List.length_append, boundPerToken] at hbound
  obtain ⟨bound, rfl⟩ : ∃ fewer, bound = fewer + 1 := ⟨bound - 1, by omega⟩
  have hstarts : ∀ kind ∈ expressionStarts, kind ∉ [.kwIf, .kwWhile, .kwReturn, .kwFor, .kwPrint,
      .kwBreak, .leftBrace] := by
    decide
  have hnot := hstarts _ ht
  refine continues_peekKind ?_
  -- the first token starts no other statement
  split
  case h_8 =>
    refine (hvalue bound _ (by rw [boundPerToken, depth]; omega)
      (headKind_semicolon hending more)).bind ?_
    intro value' hvalue'
    refine continues_endStatement hending (accepts_pure ?_)
    simp [Stmt.rename, hvalue']
  all_goals
    next hk =>
      have hk : t.kind = _ := hk
      simp [hk] at hnot

lemma readable_print {value : Expr} (hkeyword : keyword.kind = .kwPrint)
    (hvalue : Takes .assignment ts value) (hending : Semicolon ending) :
    ReadableStatement .closed (keyword :: (ts ++ ending)) (.print keyword value) := by
  intro bound more hbound _
  rw [List.length_cons, List.length_append, boundPerToken] at hbound
  obtain ⟨bound, rfl⟩ : ∃ fewer, bound = fewer + 1 := ⟨bound - 1, by omega⟩
  refine continues_peekKind ?_
  rw [List.cons_append, headKind_cons, hkeyword]
  refine continues_take (by rw [hkeyword]; decide) ?_
  refine (hvalue bound _ (by rw [boundPerToken, depth]; omega)
    (headKind_semicolon hending more)).bind ?_
  intro value' hvalue'
  refine continues_endStatement hending (accepts_pure ?_)
  simp [Stmt.rename, hvalue']

lemma readable_break (hkeyword : keyword.kind = .kwBreak) (hending : Semicolon ending) :
    ReadableStatement .closed (keyword :: ending) (.breakStmt keyword) := by
  intro bound more hbound _
  obtain ⟨bound, rfl⟩ : ∃ fewer, bound = fewer + 1 := ⟨bound - 1, by omega⟩
  refine continues_peekKind ?_
  rw [List.cons_append, headKind_cons, hkeyword]
  refine continues_take (by rw [hkeyword]; decide) ?_
  exact continues_endStatement hending (accepts_pure rfl)

/-- An expression that may be left out. -/
def ReadableOptional (ts : List Token) : Option Expr → Prop
  | none => ts = []
  | some e => Begins expressionStarts ts ∧ Takes .assignment ts e

lemma readable_return {value : Option Expr} (hkeyword : keyword.kind = .kwReturn)
    (hvalue : ReadableOptional ts value) (hending : Semicolon ending) :
    ReadableStatement .closed (keyword :: (ts ++ ending)) (.returnStmt keyword value) := by
  intro bound more hbound _
  rw [List.length_cons, List.length_append, boundPerToken] at hbound
  obtain ⟨bound, rfl⟩ : ∃ fewer, bound = fewer + 1 := ⟨bound - 1, by omega⟩
  refine continues_peekKind ?_
  rw [List.cons_append, headKind_cons, hkeyword]
  refine continues_take (by rw [hkeyword]; decide) ?_
  refine continues_peekKind ?_
  cases value with
  | none =>
    obtain rfl : ts = [] := hvalue
    have hsemicolon : headKind ([] ++ ending ++ more) = .semicolon := by
      obtain ⟨t, rfl, ht⟩ := hending
      exact ht
    rw [hsemicolon]
    exact continues_endStatement hending (accepts_pure rfl)
  | some e =>
    obtain ⟨⟨t, rest, rfl, ht, -⟩, hread⟩ := hvalue
    have hstarts : ∀ kind ∈ expressionStarts, kind ∉ [.semicolon, .rightBrace, .endOfText] := by
      decide
    have hnot := hstarts _ ht
    split
    case h_4 =>
      have hsome : Accepts (some <$> readers bound .expression) (t :: rest) (ending ++ more)
          fun value' => ∃ e', value' = some e' ∧ e'.rename bare = e.rename bare := by
        refine (hread bound _ (by rw [boundPerToken, depth]; omega) ?_).bind_last ?_
        · exact headKind_semicolon hending more
        · exact fun e' he' => accepts_pure ⟨e', rfl, he'⟩
      refine hsome.bind ?_
      rintro _ ⟨e', rfl, he'⟩
      refine continues_endStatement hending (accepts_pure ?_)
      simp [Stmt.rename, he']
    all_goals
      next hk =>
        have hk : t.kind = _ := hk
        simp [hk] at hnot

lemma readable_blockStmt {ss : List Stmt} (h : ReadableBlock ts ss) :
    ReadableStatement .closed ts (.block ss) := by
  intro bound more hbound _
  obtain ⟨opening, rest, rfl, hopening, hread⟩ := h
  rw [List.length_cons, boundPerToken] at hbound
  obtain ⟨bound, rfl⟩ : ∃ fewer, bound = fewer + 1 := ⟨bound - 1, by omega⟩
  refine continues_peekKind ?_
  rw [List.cons_append, headKind_cons, hopening]
  refine continues_take (by rw [hopening]; decide) ?_
  refine (hread bound more (by rw [boundPerToken]; omega)).bind_last fun ss' hss' => ?_
  exact accepts_pure (by simp [Stmt.rename, hss'])

lemma headKind_rightParen (hclosing : closing.kind = .rightParen) (rest more : List Token) :
    headKind (closing :: rest ++ more) ∉ Stratum.assignment.extenders := by
  rw [List.cons_append, headKind_cons, hclosing]
  decide

lemma readable_ifOnly {condition : Expr} {consequent : Stmt} {inner : Ending}
    (hkeyword : keyword.kind = .kwIf) (hopening : opening.kind = .leftParen)
    (hcondition : Takes .assignment ts condition) (hclosing : closing.kind = .rightParen)
    (hconsequent : ReadableStatement inner ts' consequent) :
    ReadableStatement .opened (keyword :: opening :: (ts ++ closing :: ts'))
      (.ifStmt condition consequent none) := by
  intro bound more hbound hmore
  simp only [boundPerToken, List.length_cons, List.length_append] at hbound
  obtain ⟨bound, rfl⟩ : ∃ fewer, bound = fewer + 1 := ⟨bound - 1, by omega⟩
  refine continues_peekKind ?_
  rw [List.cons_append, headKind_cons, hkeyword]
  refine continues_take (by rw [hkeyword]; decide) ?_
  refine continues_expect hopening (by decide) _ ?_
  refine (hcondition bound _ (by rw [boundPerToken, depth]; omega)
    (headKind_rightParen hclosing _ _)).bind fun condition' hcondition' => ?_
  refine continues_expect hclosing (by decide) _ ?_
  refine (hconsequent bound more (by rw [boundPerToken]; omega) fun _ => hmore rfl).bind_last ?_
  intro consequent' hconsequent'
  refine continues_accept_false (hmore rfl) (accepts_pure ?_)
  simp [Stmt.rename, hcondition', hconsequent']

lemma readable_ifElse {keyword' : Token} {condition : Expr} {consequent alternative : Stmt}
    {last : Ending} (hkeyword : keyword.kind = .kwIf) (hopening : opening.kind = .leftParen)
    (hcondition : Takes .assignment ts condition) (hclosing : closing.kind = .rightParen)
    (hconsequent : ReadableStatement .closed ts' consequent) (helse : keyword'.kind = .kwElse)
    (halternative : ReadableStatement last ts'' alternative) :
    ReadableStatement last
      (keyword :: opening :: (ts ++ closing :: (ts' ++ keyword' :: ts'')))
      (.ifStmt condition consequent (some alternative)) := by
  intro bound more hbound hmore
  simp only [boundPerToken, List.length_cons, List.length_append] at hbound
  obtain ⟨bound, rfl⟩ : ∃ fewer, bound = fewer + 1 := ⟨bound - 1, by omega⟩
  refine continues_peekKind ?_
  rw [List.cons_append, headKind_cons, hkeyword]
  refine continues_take (by rw [hkeyword]; decide) ?_
  refine continues_expect hopening (by decide) _ ?_
  refine (hcondition bound _ (by rw [boundPerToken, depth]; omega)
    (headKind_rightParen hclosing _ _)).bind fun condition' hcondition' => ?_
  refine continues_expect hclosing (by decide) _ ?_
  refine (hconsequent bound _ (by rw [boundPerToken]; omega) (by simp)).bind ?_
  intro consequent' hconsequent'
  refine continues_accept helse (by decide) ?_
  refine (halternative bound more (by rw [boundPerToken]; omega) hmore).bind_last ?_
  intro alternative' halternative'
  exact accepts_pure (by simp [Stmt.rename, hcondition', hconsequent', halternative'])

lemma readable_while {condition : Expr} {body : Stmt} {last : Ending}
    (hkeyword : keyword.kind = .kwWhile) (hopening : opening.kind = .leftParen)
    (hcondition : Takes .assignment ts condition) (hclosing : closing.kind = .rightParen)
    (hbody : ReadableStatement last ts' body) :
    ReadableStatement last (keyword :: opening :: (ts ++ closing :: ts'))
      (.whileStmt condition body) := by
  intro bound more hbound hmore
  simp only [boundPerToken, List.length_cons, List.length_append] at hbound
  obtain ⟨bound, rfl⟩ : ∃ fewer, bound = fewer + 1 := ⟨bound - 1, by omega⟩
  refine continues_peekKind ?_
  rw [List.cons_append, headKind_cons, hkeyword]
  refine continues_take (by rw [hkeyword]; decide) ?_
  refine continues_expect hopening (by decide) _ ?_
  refine (hcondition bound _ (by rw [boundPerToken, depth]; omega)
    (headKind_rightParen hclosing _ _)).bind fun condition' hcondition' => ?_
  refine continues_expect hclosing (by decide) _ ?_
  refine (hbody bound more (by rw [boundPerToken]; omega) hmore).bind_last fun body' hbody' => ?_
  exact accepts_pure (by simp [Stmt.rename, hcondition', hbody'])

/-- The first clause of a loop with three clauses. -/
def ReadableInitializer (ts : List Token) : Option Stmt → Prop
  | none => ts = []
  | some s =>
    (∃ keyword rest, ts = keyword :: rest ∧ keyword.kind = .kwVar ∧ ReadableVar rest s) ∨
      ∃ e, s = .expression e ∧ Begins expressionStarts ts ∧ Takes .assignment ts e

section Clauses

variable {semicolon : Token} {initializer initializer' : Option Stmt} {condition' : Expr}
  {condition increment : Option Expr} {body : List Token} {last : Ending} {bound : Nat}

/-- The body of a loop, from the closing parenthesis on. -/
lemma accepts_forBody {increment' : Option Expr}
    (hinitializer : initializer'.map (Stmt.rename bare) = initializer.map (Stmt.rename bare))
    (hcondition : condition'.rename bare = (condition.getD (.literal (.bool true))).rename bare)
    (hincrement : increment'.map (Expr.rename bare) = increment.map (Expr.rename bare))
    (hclosing : closing.kind = .rightParen) (hbody : ReadableStatement last body s)
    (hbound : boundPerToken * (body.length + 1) ≤ bound)
    (hmore : last = .opened → headKind more ≠ .kwElse) :
    Accepts ((readers bound).forBody initializer' condition' increment')
      (closing :: body) more fun s' =>
        s'.rename bare = (loop initializer condition increment s).rename bare := by
  rw [boundPerToken] at hbound
  refine continues_expect hclosing (by decide) _ ?_
  refine (hbody bound more (by rw [boundPerToken]; omega) hmore).bind_last fun s' hs' => ?_
  refine accepts_pure ?_
  rw [← forLoop_eq_loop, forLoop_rename, forLoop_rename, hinitializer, hcondition, hincrement, hs']

/-- The last clause of a loop and the body, from the semicolon behind the condition on. -/
lemma accepts_forIncrement
    (hinitializer : initializer'.map (Stmt.rename bare) = initializer.map (Stmt.rename bare))
    (hcondition : condition'.rename bare = (condition.getD (.literal (.bool true))).rename bare)
    (hsemicolon : semicolon.kind = .semicolon) (hincrement : ReadableOptional ts increment)
    (hclosing : closing.kind = .rightParen) (hbody : ReadableStatement last body s)
    (hbound : boundPerToken * (ts ++ closing :: body).length ≤ bound)
    (hmore : last = .opened → headKind more ≠ .kwElse) :
    Accepts ((readers bound).forIncrement initializer' condition')
      (semicolon :: (ts ++ closing :: body)) more fun s' =>
        s'.rename bare = (loop initializer condition increment s).rename bare := by
  rw [boundPerToken, List.length_append, List.length_cons] at hbound
  have hbound' : boundPerToken * (body.length + 1) ≤ bound := by
    rw [boundPerToken]
    omega
  refine continues_expect hsemicolon (by decide) _ ?_
  refine continues_peekKind ?_
  cases increment with
  | none =>
    obtain rfl : ts = [] := hincrement
    rw [if_pos (by simpa using hclosing)]
    exact accepts_forBody hinitializer hcondition rfl hclosing hbody hbound' hmore
  | some step =>
    obtain ⟨⟨t, rest, rfl, ht, -⟩, hread⟩ := hincrement
    have hstarts : ∀ kind ∈ expressionStarts, kind ≠ .rightParen := by
      decide
    rw [if_neg (by simpa using hstarts _ ht)]
    have hsome : Accepts (some <$> readers bound .expression) (t :: rest) (closing :: body ++ more)
        fun value' => value'.map (Expr.rename bare) = some (step.rename bare) := by
      refine (hread bound _ (by rw [boundPerToken, depth]; omega)
        (headKind_rightParen hclosing _ _)).bind_last fun step' hstep => ?_
      exact accepts_pure (by simp [hstep])
    exact hsome.bind fun increment' hs =>
      accepts_forBody hinitializer hcondition hs hclosing hbody hbound' hmore

/-- The clauses of a loop after its initializer, and the body. -/
lemma accepts_forCondition
    (hinitializer : initializer'.map (Stmt.rename bare) = initializer.map (Stmt.rename bare))
    (hcondition : ReadableOptional ts condition) (hsemicolon : semicolon.kind = .semicolon)
    (hincrement : ReadableOptional ts' increment) (hclosing : closing.kind = .rightParen)
    (hbody : ReadableStatement last body s)
    (hbound : boundPerToken * (ts ++ semicolon :: (ts' ++ closing :: body)).length ≤ bound)
    (hmore : last = .opened → headKind more ≠ .kwElse) :
    Accepts ((readers bound).forCondition initializer')
      (ts ++ semicolon :: (ts' ++ closing :: body)) more fun s' =>
        s'.rename bare = (loop initializer condition increment s).rename bare := by
  simp only [boundPerToken, List.length_cons, List.length_append] at hbound
  have hbound' : boundPerToken * (ts' ++ closing :: body).length ≤ bound := by
    simp only [boundPerToken, List.length_cons, List.length_append]
    omega
  refine continues_peekKind ?_
  cases condition with
  | none =>
    obtain rfl : ts = [] := hcondition
    rw [if_pos (by simpa using hsemicolon)]
    exact accepts_forIncrement hinitializer rfl hsemicolon hincrement hclosing hbody hbound' hmore
  | some e =>
    obtain ⟨⟨t, rest, rfl, ht, -⟩, hread⟩ := hcondition
    have hstarts : ∀ kind ∈ expressionStarts, kind ≠ .semicolon := by
      decide
    rw [if_neg (by simpa using hstarts _ ht)]
    refine (hread bound _ (by rw [boundPerToken, depth]; omega) ?_).bind fun condition' hc => ?_
    · rw [List.cons_append, headKind_cons, hsemicolon]
      decide
    · exact accepts_forIncrement hinitializer hc hsemicolon hincrement hclosing hbody hbound' hmore

end Clauses

lemma readable_for {first second : Token} {initializer : Option Stmt}
    {condition increment : Option Expr} {body : List Token} {last : Ending}
    (hkeyword : keyword.kind = .kwFor) (hopening : opening.kind = .leftParen)
    (hinitializer : ReadableInitializer ts initializer) (hfirst : first.kind = .semicolon)
    (hcondition : ReadableOptional ts' condition) (hsecond : second.kind = .semicolon)
    (hincrement : ReadableOptional ts'' increment) (hclosing : closing.kind = .rightParen)
    (hbody : ReadableStatement last body s) :
    ReadableStatement last
      (keyword :: opening :: (ts ++ first :: (ts' ++ second :: (ts'' ++ closing :: body))))
      (loop initializer condition increment s) := by
  intro bound more hbound hmore
  simp only [boundPerToken, List.length_cons, List.length_append] at hbound
  obtain ⟨bound, rfl⟩ : ∃ fewer, bound = fewer + 2 := ⟨bound - 2, by omega⟩
  have hbound' : boundPerToken * (ts' ++ second :: (ts'' ++ closing :: body)).length ≤ bound := by
    simp only [boundPerToken, List.length_cons, List.length_append]
    omega
  have hsemicolon : ∀ rest, headKind (first :: rest) ∉ Stratum.assignment.extenders := by
    intro rest
    rw [headKind_cons, hfirst]
    decide
  refine continues_peekKind ?_
  rw [List.cons_append, headKind_cons, hkeyword]
  refine continues_take (by rw [hkeyword]; decide) ?_
  refine continues_expect hopening (by decide) _ ?_
  refine continues_peekKind ?_
  cases initializer with
  | none =>
    obtain rfl : ts = [] := hinitializer
    rw [List.nil_append, List.cons_append, headKind_cons, hfirst]
    refine continues_take (by rw [hfirst]; decide) ?_
    exact accepts_forCondition rfl hcondition hsecond hincrement hclosing hbody hbound' hmore
  | some clause =>
    rcases hinitializer with ⟨var, rest, rfl, hvar, hread⟩ | ⟨e, rfl, ⟨t, rest, rfl, ht, -⟩, hread⟩
    · rw [List.cons_append, List.cons_append, headKind_cons, hvar]
      refine continues_take (by rw [hvar]; decide) ?_
      rw [List.length_cons] at hbound
      refine (hread bound _ (by rw [boundPerToken]; omega) (hsemicolon _)).bind ?_
      intro clause' hclause
      refine continues_expect hfirst (by decide) _ ?_
      exact accepts_forCondition (by simp [hclause]) hcondition hsecond hincrement hclosing hbody
        hbound' hmore
    · have hstarts : ∀ kind ∈ expressionStarts, kind ∉ [.semicolon, .kwVar] := by
        decide
      have hnot := hstarts _ ht
      split
      case h_3 =>
        refine (hread bound _ (by rw [boundPerToken, depth]; omega) (hsemicolon _)).bind ?_
        intro e' he
        refine continues_expect hfirst (by decide) _ ?_
        exact accepts_forCondition (by simp [Stmt.rename, he]) hcondition hsecond hincrement
          hclosing hbody hbound' hmore
      all_goals
        next hk =>
          have hk : t.kind = _ := hk
          simp [hk] at hnot

/-! ### Declarations -/

lemma readable_classDecl {name : Token} {superclass : Option Expr}
    {methods : List FunctionDecl} {getters : List GetterDecl} (hkeyword : keyword.kind = .kwClass)
    (hname : name.kind = .identifier) (hsuperclass : Superclass ts superclass)
    (hopening : opening.kind = .leftBrace) (hmembers : ReadableMembers ts' (methods, getters))
    (hclosing : closing.kind = .rightBrace) :
    ReadableDeclaration (keyword :: name :: (ts ++ opening :: (ts' ++ [closing])))
      (.classDecl name superclass methods getters) := by
  intro bound more hbound _
  simp only [boundPerToken, List.length_cons, List.length_append, List.length_nil] at hbound
  obtain ⟨bound, rfl⟩ : ∃ fewer, bound = fewer + 2 := ⟨bound - 2, by omega⟩
  have bodied : ∀ superclass' : Option Expr,
      superclass'.map (Expr.rename bare) = superclass.map (Expr.rename bare) →
      Accepts ((readers bound).classBody name superclass')
        (opening :: (ts' ++ [closing])) more fun s' =>
          s'.rename bare = (Stmt.classDecl name superclass methods getters).rename bare := by
    intro superclass' hs
    refine continues_expect hopening (by decide) _ ?_
    refine (hmembers bound _ (by rw [boundPerToken]; omega) (by simpa using hclosing)).bind ?_
    rintro ⟨methods', getters'⟩ ⟨hmethods, hgetters⟩
    refine continues_expect hclosing (by decide) _ (accepts_pure ?_)
    cases superclass <;> cases superclass' <;> simp_all [Stmt.rename]
  refine continues_peekKind ?_
  rw [List.cons_append, headKind_cons, hkeyword]
  refine continues_take (by rw [hkeyword]; decide) ?_
  refine continues_expect hname (by decide) _ ?_
  cases hsuperclass with
  | none =>
    refine continues_accept_false ?_ (bodied none rfl)
    rw [List.nil_append, List.cons_append, headKind_cons, hopening]
    decide
  | some hless hsuper =>
    refine continues_accept hless (by decide) ?_
    refine continues_expect hsuper (by decide) _ ?_
    exact continues_freshId fun id => bodied (some (.name id _)) (by simp [Expr.rename])

/-- A named function or getter. -/
lemma accepts_named {same : Member → Prop} (hkeyword : keyword.kind = .kwFun)
    (hmember : ReadableMember ts same) (hname : ∃ t rest, ts = t :: rest ∧ t.kind = .identifier)
    (hsame : ∀ first, same first → match first with
      | .function f => (Stmt.function f).rename bare = s.rename bare
      | .getter g => (Stmt.getter g).rename bare = s.rename bare) :
    ReadableDeclaration (keyword :: ts) s := by
  intro bound more hbound _
  obtain ⟨t, rest, rfl, ht⟩ := hname
  rw [List.length_cons, boundPerToken] at hbound
  obtain ⟨bound, rfl⟩ : ∃ fewer, bound = fewer + 1 := ⟨bound - 1, by omega⟩
  refine continues_peekKind ?_
  rw [List.cons_append, headKind_cons, hkeyword]
  refine continues_peekSecondKind ht ?_
  rw [if_pos rfl]
  refine continues_take (by rw [hkeyword]; decide) ?_
  refine (hmember bound .function more (by rw [boundPerToken]; omega)).bind_last ?_
  intro first hfirst
  have := hsame first hfirst
  cases first with
  | function f => exact accepts_pure this
  | getter g => exact accepts_pure this

lemma readable_varDecl (hkeyword : keyword.kind = .kwVar) (hs : ReadableVar ts s)
    (hending : Semicolon ending) : ReadableDeclaration (keyword :: (ts ++ ending)) s := by
  intro bound more hbound _
  rw [List.length_cons, List.length_append, boundPerToken] at hbound
  obtain ⟨bound, rfl⟩ : ∃ fewer, bound = fewer + 1 := ⟨bound - 1, by omega⟩
  refine continues_peekKind ?_
  rw [List.cons_append, headKind_cons, hkeyword]
  refine continues_take (by rw [hkeyword]; decide) ?_
  refine (hs bound _ (by rw [boundPerToken]; omega) (headKind_semicolon hending more)).bind ?_
  intro s' hs'
  exact continues_endStatement hending (accepts_pure hs')

/-- A statement is a declaration: it starts like no other one. -/
lemma readable_statement {last : Ending} (hs : ReadableStatement last ts s)
    (hts : Begins statementStarts ts) : ReadableDeclaration ts s := by
  intro bound more hbound hmore
  obtain ⟨t, rest, rfl, ht, hfun⟩ := hts
  obtain ⟨bound, rfl⟩ : ∃ fewer, bound = fewer + 1 := ⟨bound - 1, by omega⟩
  have hread := hs bound more (by omega) fun _ => hmore
  have hstarts : ∀ kind ∈ statementStarts, kind ≠ .kwClass ∧ kind ≠ .kwVar := by
    decide
  obtain ⟨hclass, hvar⟩ := hstarts _ ht
  refine continues_peekKind ?_
  split
  · next hk => exact absurd hk hclass
  · next hk => exact absurd hk hvar
  · next hk =>
    obtain ⟨u, rest', rfl, hu⟩ := hfun hk
    exact continues_peekSecondKind hu hread
  · exact hread

end

/-! ### All syntactic classes -/

/-- What the induction says of the phrases of a class. -/
def Readable : (phrase : Phrase) → List Token → phrase.Tree → Prop
  | .expression s, ts, e => ReadableExpr s ts e
  | .optional, ts, value => ReadableOptional ts value
  | .listing, ts, es => Begins expressionStarts ts ∧ ReadableListing ts es
  | .arguments, ts, es => ReadableArguments ts es
  | .callable, ts, f => ReadableCallable ts f
  | .block, ts, ss => ReadableBlock ts ss
  | .function, ts, f => ReadableMember ts (SameFunction f)
  | .getter, ts, g => ReadableMember ts (SameGetter g)
  | .members, ts, members => ReadableMembers ts members
  | .varClause, ts, s => ReadableVar ts s
  | .initializer, ts, clause => ReadableInitializer ts clause
  | .statement ending, ts, s => ReadableStatement ending ts s
  | .declaration, ts, s => ReadableDeclaration ts s
  | .declarations, ts, ss => ReadableDeclarations ts ss

lemma takes_of_spells {s : Stratum} {e : Expr} (hs : Spells Semicolon (.expression s) ts e)
    (h : Readable (.expression s) ts e) : Takes s ts e := by
  obtain ⟨t, rest, rfl, -⟩ := hs.opening
  exact ReadableExpr.takes (List.cons_ne_nil t rest) h

/-- The level of a binary operator. -/
lemma exists_level_of_binary {s : Stratum} {kind : TokenKind} (h : kind ∈ s.binaryOperators) :
    ∃ here : Level, here.stratum = s ∧ kind ∈ here.operators ∧ here.join = Expr.binary := by
  cases s with
  | elvis => exact ⟨.elvis, rfl, h, rfl⟩
  | equality => exact ⟨.equality, rfl, h, rfl⟩
  | comparison =>
    refine ⟨.comparison, rfl, ?_, rfl⟩
    simp only [Stratum.binaryOperators, List.mem_cons, List.not_mem_nil, or_false] at h
    simp only [Level.operators, List.mem_cons, List.not_mem_nil, or_false]
    tauto
  | term => exact ⟨.sum, rfl, h, rfl⟩
  | factor => exact ⟨.product, rfl, h, rfl⟩
  | _ => exact absurd h List.not_mem_nil

/-- The level of a logical operator. -/
lemma exists_level_of_logical {s : Stratum} {kind : TokenKind} (h : kind ∈ s.logicalOperators) :
    ∃ here : Level, here.stratum = s ∧ kind ∈ here.operators ∧ here.join = Expr.logical := by
  cases s with
  | disjunction => exact ⟨.disjunction, rfl, h, rfl⟩
  | conjunction => exact ⟨.conjunction, rfl, h, rfl⟩
  | _ => exact absurd h List.not_mem_nil

/-- What a list of declarations starts with. -/
lemma headKind_of_declarations {ss : List Stmt} (h : Spells Semicolon .declarations ts ss) :
    ts = [] ∨ headKind ts ∈ declarationStarts := by
  cases h with
  | done => exact .inl rfl
  | next hs _ =>
    obtain ⟨t, rest, rfl, ht⟩ := hs.opening
    exact .inr ht

/-- The tokens that spell a phrase are read as it. -/
theorem readable_of_spells {phrase : Phrase} {tree : phrase.Tree}
    (h : Spells Semicolon phrase ts tree) : Readable phrase ts tree := by
  induction h with
  | tighter hs h ih => exact ReadableExpr.tighter hs ih h.opening
  | @assign name equals ts id value hname hequals hvalue ih =>
    have hbegins : Begins primaryStarts [name] :=
      begins_cons hname [] (by decide) (by decide)
    have hcall : ReadableExpr .call [name] (.name id name) :=
      ReadableExpr.tighter rfl (takes_name id hname) hbegins
    exact takes_assign (hcall.ternary_of_call hbegins) hequals (takes_of_spells hvalue ih)
  | @set dot name equals ts ts' object value hobject hdot hname hequals hvalue ihobject ih =>
    have hbegins : Begins primaryStarts (ts ++ [dot, name]) := Begins.append hobject.opening _
    have hcall : ReadableExpr .call (ts ++ [dot, name]) (.get object name) :=
      loops_get ihobject hdot hname
    have hassign := takes_set (hcall.ternary_of_call hbegins) hequals (takes_of_spells hvalue ih)
    rw [List.append_assoc] at hassign
    exact hassign
  | ternary hcondition hquestion hfirst hcolon hsecond ihcondition ihfirst ihsecond =>
    exact takes_ternary (takes_of_spells hcondition ihcondition) hquestion
      (takes_of_spells hfirst ihfirst) hcolon (takes_of_spells hsecond ihsecond)
  | binary hs hleft hoperator hright ihleft ihright =>
    obtain ⟨here, rfl, hmem, hjoin⟩ := exists_level_of_binary hoperator
    rw [← hjoin]
    exact readable_join hs ihleft hmem (takes_of_spells hright ihright)
  | logical hs hleft hoperator hright ihleft ihright =>
    obtain ⟨here, rfl, hmem, hjoin⟩ := exists_level_of_logical hoperator
    rw [← hjoin]
    exact readable_join hs ihleft hmem (takes_of_spells hright ihright)
  | unary hoperator h ih => exact takes_unary hoperator (takes_of_spells h ih)
  | call hcallee hopening hes hparen ihcallee ihes =>
    exact loops_call ihcallee hopening ihes hparen
  | get hobject hdot hname ih => exact loops_get ih hdot hname
  | nilGet hobject hdot hname ih => exact loops_nilGet ih hdot hname
  | falseLiteral ht => exact takes_falseLiteral ht
  | trueLiteral ht => exact takes_trueLiteral ht
  | nilLiteral ht => exact takes_nilLiteral ht
  | literal ht => exact takes_literal ht
  | this ht => exact takes_this _ ht
  | super hkeyword hdot hmethod => exact takes_super _ hkeyword hdot hmethod
  | name ht => exact takes_name _ ht
  | lambda hkeyword h ih => exact takes_lambda hkeyword ih
  | grouping hopening h hclosing ih =>
    exact takes_grouping hopening (takes_of_spells h ih) hclosing
  | absent => exact rfl
  | present h ih => exact ⟨h.opening, takes_of_spells h ih⟩
  | last h ih => exact ⟨h.opening, readable_last (takes_of_spells h ih)⟩
  | more h hcomma hes ih ihes =>
    exact ⟨Begins.append h.opening _, readable_more (takes_of_spells h ih) hcomma ihes.2⟩
  | noArguments => exact .inl ⟨rfl, rfl⟩
  | arguments hes hlength ih =>
    refine .inr ⟨ih.1, fun bound more hbound hmore => ih.2 bound 0 more hbound (by omega) ?_⟩
    rw [hmore]
    decide
  | callable hopening hparams hclosing hbody ih =>
    exact readable_callable hopening hparams hclosing ih
  | block hopening hss hclosing ih => exact readable_block hopening ih hclosing
  | function hname h ih => exact readable_function hname ih
  | getter hname h ih => exact readable_getter hname ih
  | noMembers => exact readable_noMembers
  | method hf hrest ihf ihrest => exact readable_method ihf hf.opening ihrest
  | property hg hrest ihg ihrest => exact readable_property ihg hg.opening ihrest
  | uninitialized hname => exact readable_uninitialized hname
  | initialized hname hequals hvalue ih =>
    exact readable_initialized hname hequals (takes_of_spells hvalue ih)
  | noInitializer => exact rfl
  | varInitializer hkeyword h ih => exact .inl ⟨_, _, rfl, hkeyword, ih⟩
  | expressionInitializer h ih => exact .inr ⟨_, rfl, h.opening, takes_of_spells h ih⟩
  | expression hvalue hending ih =>
    exact readable_expression (takes_of_spells hvalue ih) hvalue.opening hending
  | print hkeyword hvalue hending ih =>
    exact readable_print hkeyword (takes_of_spells hvalue ih) hending
  | breakStmt hkeyword hending => exact readable_break hkeyword hending
  | returnStmt hkeyword hvalue hending ih => exact readable_return hkeyword ih hending
  | blockStmt h ih => exact readable_blockStmt ih
  | ifOnly hkeyword hopening hcondition hclosing hconsequent ihcondition ihconsequent =>
    exact readable_ifOnly hkeyword hopening (takes_of_spells hcondition ihcondition) hclosing
      ihconsequent
  | ifElse hkeyword hopening hcondition hclosing hconsequent helse halternative ihcondition
      ihconsequent ihalternative =>
    exact readable_ifElse hkeyword hopening (takes_of_spells hcondition ihcondition) hclosing
      ihconsequent helse ihalternative
  | whileStmt hkeyword hopening hcondition hclosing hbody ihcondition ihbody =>
    exact readable_while hkeyword hopening (takes_of_spells hcondition ihcondition) hclosing ihbody
  | forStmt hkeyword hopening hinitializer hfirst hcondition hsecond hincrement hclosing hbody
      ihinitializer ihcondition ihincrement ihbody =>
    exact readable_for hkeyword hopening ihinitializer hfirst ihcondition hsecond ihincrement
      hclosing ihbody
  | classDecl hkeyword hname hsuperclass hopening hmembers hclosing ih =>
    exact readable_classDecl hkeyword hname hsuperclass hopening ih hclosing
  | functionDecl hkeyword hf ih =>
    refine accepts_named hkeyword ih hf.opening fun first hsame => ?_
    cases first with
    | function f' =>
      simp only [Stmt.rename, Stmt.function.injEq]
      exact hsame
    | getter g' => exact hsame.elim
  | getterDecl hkeyword hg ih =>
    refine accepts_named hkeyword ih hg.opening fun first hsame => ?_
    cases first with
    | function f' => exact hsame.elim
    | getter g' =>
      simp only [Stmt.rename, Stmt.getter.injEq]
      exact hsame
  | varDecl hkeyword hs hending ih => exact readable_varDecl hkeyword ih hending
  | statement hs ih => exact readable_statement ih hs.opening
  | done => exact readable_done
  | next hs hss ihs ihss =>
    obtain ⟨t, rest, rfl, ht⟩ := hs.opening
    exact readable_next ihs ht (List.cons_ne_nil t rest) ihss (headKind_of_declarations hss)

/-! ### Whole texts -/

/-- Declarations up to the end of the text are read one after the other. -/
lemma declarations_of_spells {ss : List Stmt} (h : Spells Semicolon .declarations ts ss)
    {bound rounds : Nat} (hbound : boundPerToken * (ts.length + 1) ≤ bound)
    (hrounds : ts.length < rounds) (hmore : headKind more = .endOfText) (nextId : NodeId)
    (noted : Array SyntaxError) (found : Array Stmt) :
    ∃ ss' nextId',
      declarations (readers bound .declaration) rounds ⟨ts ++ more, nextId, noted⟩ found =
        (found ++ ss'.toArray, ⟨more, nextId', noted⟩) ∧
      renameStmts bare ss' = renameStmts bare ss := by
  induction ss generalizing ts rounds nextId found with
  | nil =>
    obtain ⟨rounds, rfl⟩ : ∃ fewer, rounds = fewer + 1 := ⟨rounds - 1, by omega⟩
    cases h
    refine ⟨[], nextId, ?_, rfl⟩
    have hend : (Cursor.peek ⟨[] ++ more, nextId, noted⟩).kind = .endOfText := hmore
    unfold declarations
    rw [if_pos hend]
    simp
  | cons s ss ih =>
    obtain ⟨rounds, rfl⟩ : ∃ fewer, rounds = fewer + 1 := ⟨rounds - 1, by omega⟩
    cases h with
    | @next ts ts' _ _ hs hss =>
      have hread := readable_of_spells hs
      obtain ⟨t, rest, rfl, ht⟩ := hs.opening
      have hstarts : ∀ kind ∈ declarationStarts, kind ≠ .endOfText ∧ kind ≠ .kwElse := by
        decide
      have helse : headKind (ts' ++ more) ≠ .kwElse := by
        rcases headKind_of_declarations hss with rfl | hnext
        · rw [List.nil_append, hmore]
          decide
        · cases ts' with
          | nil => exact absurd hnext (by decide)
          | cons u rest' => exact (hstarts _ hnext).2
      simp only [boundPerToken, List.length_append, List.length_cons] at hbound hrounds
      obtain ⟨_, nextId₁, hdecl, s', rfl, hs'⟩ := hread bound (ts' ++ more)
        (by simp only [boundPerToken, List.length_cons]; omega) helse nextId noted
      have hfewer : ts'.length < rounds := by omega
      obtain ⟨ss', nextId₂, hrest, hss'⟩ := ih hss
        (by rw [boundPerToken]; omega) hfewer nextId₁ (found.push s')
      refine ⟨s' :: ss', nextId₂, ?_, by simp [renameStmts, hs', hss']⟩
      have hk : ¬ (Cursor.peek ⟨t :: rest ++ ts' ++ more, nextId, noted⟩).kind = .endOfText :=
        (hstarts _ ht).1
      have hdecl : readers bound .declaration ⟨t :: rest ++ (ts' ++ more), nextId, noted⟩ =
          .ok s' ⟨ts' ++ more, nextId₁, noted⟩ := hdecl
      unfold declarations
      rw [if_neg hk, List.append_assoc, hdecl]
      simp only [hrest]
      simp

end Parser

/-- Tokens that spell a program, with a semicolon behind every simple statement, are read as this
program, up to identities. -/
theorem Program.parse_of_spells {front back : List Token} {p : Program}
    (h : Spells Semicolon .declarations front p)
    (hback : (back.headD (.endAt 0)).kind = .endOfText) (nextId : NodeId) :
    ∃ p' next, Program.parse nextId (front ++ back) = (.ok p', next) ∧
      renameStmts Parser.bare p' = renameStmts Parser.bare p := by
  have hlength : front.length < (front ++ back).length + 1 := by
    rw [List.length_append]
    omega
  have hbound : Parser.boundPerToken * (front.length + 1) ≤
      Parser.boundPerToken * ((front ++ back).length + 1) := Nat.mul_le_mul_left _ hlength
  obtain ⟨p', next, hread, hp⟩ := Parser.declarations_of_spells h hbound hlength hback nextId
    #[] #[]
  refine ⟨p', next, ?_, hp⟩
  simp only [Program.parse, hread]
  simp

end Scripting
