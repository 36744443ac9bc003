import Scripting.Proofs.Program.Completeness
import Scripting.Proofs.Program.Derivation
import Scripting.Proofs.Program.Tokens

/-!
# Reading what was written down

Whatever was read can be written down and read again: the tokens of a tree spell it, since every
tree that is read keeps what the grammar asks for.
-/

namespace Scripting

open Grammar

namespace Grammar

variable {ts : List Token}

lemma semicolon_mark : Semicolon [.semicolon] :=
  ⟨_, rfl, rfl⟩

/-- The token of a literal spells it. -/
lemma spells_literal (value : Literal) :
    Spells Semicolon (.expression .primary) [value.token] (.literal value) := by
  cases value with
  | nil => exact .nilLiteral rfl
  | bool b =>
    cases b with
    | false => exact .falseLiteral rfl
    | true => exact .trueLiteral rfl
  | number x => exact .literal (t := (Literal.number x).token) (by simp [Literal.token])
  | text s => exact .literal (t := (Literal.text s).token) (by simp [Literal.token])

/-- Names with commas between them. -/
lemma Names.intersperse {names : List Token} (h : Names ts names) :
    Names (names.intersperse .comma) names := by
  induction h with
  | last hname => exact .last hname
  | cons hname _ hrest ih =>
    cases hrest with
    | last hname' => exact .cons hname rfl (.last hname')
    | cons hname' hcomma' hrest' => exact .cons hname rfl ih

lemma Parameters.intersperse {params : List Token} (h : Parameters ts params) :
    Parameters (params.intersperse .comma) params := by
  cases h with
  | none => exact .none
  | some hnames hlength => exact .some hnames.intersperse hlength

/-- The tokens of a block spell its statements. -/
lemma spells_block {ss : List Stmt} (h : Spells Semicolon .declarations (stmtsTokens ss) ss) :
    Spells Semicolon .block (.openBrace :: (stmtsTokens ss ++ [Token.closeBrace])) ss :=
  .block rfl h rfl

/-- The tokens of a callable thing, its parameters and its body. -/
lemma spells_callable {params : List Token} {body : List Stmt}
    (hparams : Parameters (params.intersperse .comma) params)
    (hbody : Spells Semicolon .declarations (stmtsTokens body) body) :
    Spells Semicolon .callable (.openParen :: (params.intersperse .comma ++
      .closeParen :: .openBrace :: (stmtsTokens body ++ [Token.closeBrace]))) (params, body) :=
  .callable rfl hparams rfl (spells_block hbody)

/-- Getters alone are members. -/
lemma spells_getters {gs : List GetterDecl}
    (hgs : ∀ g ∈ gs, Spells Semicolon .getter g.tokens g) :
    Spells Semicolon .members (gettersTokens gs) ([], gs) := by
  induction gs with
  | nil => exact .noMembers
  | cons g gs ih =>
    obtain ⟨hg, hgs⟩ := List.forall_mem_cons.mp hgs
    exact .property hg (ih hgs)

/-- Methods come first, then getters. -/
lemma spells_members {fs : List FunctionDecl} {gs : List GetterDecl}
    (hfs : ∀ f ∈ fs, Spells Semicolon .function f.tokens f)
    (hgs : ∀ g ∈ gs, Spells Semicolon .getter g.tokens g) :
    Spells Semicolon .members (functionsTokens fs ++ gettersTokens gs) (fs, gs) := by
  induction fs with
  | nil => exact spells_getters hgs
  | cons f fs ih =>
    obtain ⟨hf, hfs⟩ := List.forall_mem_cons.mp hfs
    rw [functionsTokens, List.append_assoc]
    exact .method hf (ih hfs)

/-- A tight expression may stand where any expression may. -/
lemma Spells.loosen {Ends : List Token → Prop} {e : Expr}
    (h : Spells Ends (.expression .primary) ts e) : Spells Ends (.expression .assignment) ts e :=
  .tighter rfl <| .tighter rfl <| .tighter rfl <| .tighter rfl <| .tighter rfl <| .tighter rfl <|
    .tighter rfl <| .tighter rfl <| .tighter rfl <| .tighter rfl <| .tighter rfl h

/-- What the tokens of a tree are for each class. A statement that no `else` can follow is written
so that none can. -/
def Rendered : (phrase : Phrase) → phrase.Tree → Prop
  | .expression s, e => Spells Semicolon (.expression s) e.tokens e
  | .optional, value => ∀ e ∈ value, Spells Semicolon (.expression .assignment) e.tokens e
  | .listing, es => Spells Semicolon .listing (listingTokens es) es
  | .arguments, es => Spells Semicolon .arguments (listingTokens es) es
  | .callable, (params, body) => Parameters (params.intersperse .comma) params ∧
      Spells Semicolon .declarations (stmtsTokens body) body
  | .block, ss => Spells Semicolon .declarations (stmtsTokens ss) ss
  | .function, f => Spells Semicolon .function f.tokens f
  | .getter, g => Spells Semicolon .getter g.tokens g
  | .members, (fs, gs) => (∀ f ∈ fs, Spells Semicolon .function f.tokens f) ∧
      ∀ g ∈ gs, Spells Semicolon .getter g.tokens g
  | .varClause, s => Spells Semicolon .declaration s.tokens s
  | .initializer, clause => ∀ s ∈ clause, Spells Semicolon .declaration s.tokens s
  | .statement ending, s => ∃ ending', Spells Semicolon (.statement ending') s.tokens s ∧
      (ending = .closed → ending' = .closed)
  | .declaration, s => Spells Semicolon .declaration s.tokens s
  | .declarations, ss => Spells Semicolon .declarations (stmtsTokens ss) ss

/-- Several statements in place of one are written as a block. -/
lemma rendered_gather {s s' : Stmt} (hs : Spells Semicolon .declaration s.tokens s)
    (hs' : Spells Semicolon .declaration s'.tokens s') (ending : Ending) :
    Rendered (.statement ending) (gather [s, s']) :=
  ⟨.closed, .blockStmt (spells_block (.next hs (.next hs' .done))), fun _ => rfl⟩

/-- The tokens of a loop with a condition. -/
lemma rendered_while {condition : Expr} {body : Stmt} {ending : Ending}
    (hc : Spells Semicolon (.expression .assignment) condition.tokens condition)
    (hb : Rendered (.statement ending) body) :
    Rendered (.statement ending) (.whileStmt condition body) := by
  obtain ⟨ending', hb, hending⟩ := hb
  exact ⟨ending', .whileStmt rfl rfl hc rfl hb, hending⟩

/-- The tokens of a loop with three clauses. -/
lemma rendered_loop {initializer : Option Stmt} {condition increment : Option Expr} {body : Stmt}
    {ending : Ending} (hi : Rendered .initializer initializer)
    (hc : Rendered .optional condition) (hs : Rendered .optional increment)
    (hb : Rendered (.statement ending) body) :
    Rendered (.statement ending) (loop initializer condition increment body) := by
  have hcondition : Spells Semicolon (.expression .assignment)
      (condition.getD (.literal (.bool true))).tokens
      (condition.getD (.literal (.bool true))) := by
    cases condition with
    | none => exact (spells_literal (.bool true)).loosen
    | some e => exact hc e rfl
  have hround : Rendered (.statement ending)
      (gather (body :: (increment.map Stmt.expression).toList)) := by
    cases increment with
    | none => exact hb
    | some e =>
      obtain ⟨ending', hb, -⟩ := hb
      exact rendered_gather (.statement hb)
        (.statement (.expression (hs e rfl) semicolon_mark)) ending
  have hwhile := rendered_while hcondition hround
  cases initializer with
  | none => exact hwhile
  | some s =>
    obtain ⟨ending', hwhile, -⟩ := hwhile
    exact rendered_gather (hi s rfl) (.statement hwhile) ending

/-- The tokens of a class. -/
lemma rendered_classDecl {name : Token} {superclass : Option Expr} {methods : List FunctionDecl}
    {getters : List GetterDecl} (hname : name.kind = .identifier)
    (hsuper : Superclass ts superclass) (hmembers : Rendered .members (methods, getters)) :
    Rendered .declaration (.classDecl name superclass methods getters) := by
  have hmembers := spells_members hmembers.1 hmembers.2
  cases hsuper with
  | none => exact .classDecl rfl hname .none rfl hmembers rfl
  | @some _ name' id _ hname' =>
    have hless : Superclass [.mark .less "<", name'] (some (.name id name')) := .some rfl hname'
    exact .classDecl rfl hname hless rfl hmembers rfl

/-- Whatever the grammar spells is spelled by its own tokens. -/
theorem Spells.rendered {Ends : List Token → Prop} {phrase : Phrase} {tree : phrase.Tree}
    (h : Spells Ends phrase ts tree) : Rendered phrase tree := by
  induction h with
  | tighter hs _ ih => exact .tighter hs ih
  | assign hname _ _ ih => exact .assign hname rfl ih
  | set _ _ hname _ _ ihobject ih => exact .set ihobject rfl hname rfl ih
  | ternary _ _ _ _ _ ihcondition ihfirst ihsecond =>
    exact .ternary ihcondition rfl ihfirst rfl ihsecond
  | binary hs _ hoperator _ ihleft ihright => exact .binary hs ihleft hoperator ihright
  | logical hs _ hoperator _ ihleft ihright => exact .logical hs ihleft hoperator ihright
  | unary hoperator _ ih => exact .unary hoperator ih
  | call _ _ _ hparen ihcallee iharguments => exact .call ihcallee rfl iharguments hparen
  | get _ _ hname ih => exact .get ih rfl hname
  | nilGet _ _ hname ih => exact .nilGet ih rfl hname
  | falseLiteral _ => exact spells_literal (.bool false)
  | trueLiteral _ => exact spells_literal (.bool true)
  | nilLiteral _ => exact spells_literal .nil
  | @literal t _ => exact spells_literal (t.literal.getD .nil)
  | this hkeyword => exact .this hkeyword
  | super hkeyword _ hmethod => exact .super hkeyword rfl hmethod
  | name hname => exact .name hname
  | @lambda keyword _ _ _ _ _ ih =>
    have hfun : (⟨.kwFun, "fun", none, keyword.line⟩ : Token).kind = .kwFun := rfl
    exact .lambda hfun (spells_callable ih.1 ih.2)
  | grouping _ _ _ ih => exact .grouping rfl ih rfl
  | absent =>
    intro e he
    cases he
  | present _ ih =>
    rintro e ⟨⟩
    exact ih
  | last _ ih => exact .last ih
  | more _ _ hrest ih ihrest =>
    cases hrest with
    | last _ => exact .more ih rfl ihrest
    | more _ _ _ => exact .more ih rfl ihrest
  | noArguments => exact .noArguments
  | arguments _ hlength ih => exact .arguments ih hlength
  | callable _ hparams _ _ ih => exact ⟨hparams.intersperse, ih⟩
  | block _ _ _ ih => exact ih
  | function hname _ ih => exact .function hname (spells_callable ih.1 ih.2)
  | getter hname _ ih => exact .getter hname (spells_block ih)
  | noMembers => exact ⟨by simp, by simp⟩
  | method _ _ ih ihrest => exact ⟨List.forall_mem_cons.mpr ⟨ih, ihrest.1⟩, ihrest.2⟩
  | property _ _ ih ihrest => exact ⟨ihrest.1, List.forall_mem_cons.mpr ⟨ih, ihrest.2⟩⟩
  | uninitialized hname => exact .varDecl rfl (.uninitialized hname) semicolon_mark
  | initialized hname _ _ ih => exact .varDecl rfl (.initialized hname rfl ih) semicolon_mark
  | noInitializer =>
    intro s hs
    cases hs
  | varInitializer _ _ ih =>
    rintro s ⟨⟩
    exact ih
  | expressionInitializer _ ih =>
    rintro s ⟨⟩
    exact .statement (.expression ih semicolon_mark)
  | expression _ _ ih => exact ⟨.closed, .expression ih semicolon_mark, fun _ => rfl⟩
  | print hkeyword _ _ ih => exact ⟨.closed, .print hkeyword ih semicolon_mark, fun _ => rfl⟩
  | breakStmt hkeyword _ => exact ⟨.closed, .breakStmt hkeyword semicolon_mark, fun _ => rfl⟩
  | @returnStmt _ _ _ value hkeyword _ _ ih =>
    cases value with
    | none => exact ⟨.closed, .returnStmt hkeyword .absent semicolon_mark, fun _ => rfl⟩
    | some e =>
      exact ⟨.closed, .returnStmt hkeyword (.present (ih e rfl)) semicolon_mark, fun _ => rfl⟩
  | blockStmt _ ih => exact ⟨.closed, .blockStmt (spells_block ih), fun _ => rfl⟩
  | ifOnly _ _ _ _ _ ihcondition ihconsequent =>
    obtain ⟨ending', hconsequent, -⟩ := ihconsequent
    refine ⟨.opened, .ifOnly rfl rfl ihcondition rfl hconsequent, ?_⟩
    rintro ⟨⟩
  | ifElse _ _ _ _ _ _ _ ihcondition ihconsequent ihalternative =>
    obtain ⟨ending', hconsequent, hclosed⟩ := ihconsequent
    obtain rfl := hclosed rfl
    obtain ⟨ending', halternative, hending⟩ := ihalternative
    exact ⟨ending', .ifElse rfl rfl ihcondition rfl hconsequent rfl halternative, hending⟩
  | whileStmt _ _ _ _ _ ihcondition ihbody => exact rendered_while ihcondition ihbody
  | forStmt _ _ _ _ _ _ _ _ _ ihinitializer ihcondition ihincrement ihbody =>
    exact rendered_loop ihinitializer ihcondition ihincrement ihbody
  | classDecl _ hname hsuper _ _ _ ih => exact rendered_classDecl hname hsuper ih
  | functionDecl _ _ ih => exact .functionDecl rfl ih
  | getterDecl _ _ ih => exact .getterDecl rfl ih
  | varDecl _ _ _ ih => exact ih
  | statement _ ih =>
    obtain ⟨ending', hs, -⟩ := ih
    exact .statement hs
  | done => exact .done
  | next _ _ ih ihrest => exact .next ih ihrest

end Grammar

/-- A program that was read is read again from its own tokens, up to identities. -/
theorem Program.parse_tokens {tokens : List Token} {nextId next : NodeId} {p : Program}
    (h : Program.parse nextId tokens = (.ok p, next)) (nextId' : NodeId) (line : Nat) :
    ∃ p' next', Program.parse nextId' (p.tokens ++ [.endAt line]) = (.ok p', next') ∧
      renameStmts Parser.bare p' = renameStmts Parser.bare p := by
  obtain ⟨front, back, -, -, -, hp⟩ := Program.derives_of_parse h
  have hp : Spells Semicolon .declarations p.tokens p := hp.rendered
  exact Program.parse_of_spells hp rfl nextId'

/-- A loop with three clauses between two `else`s, a class and a lambda, with few semicolons. -/
theorem Program.parse_tokens_nested :
    let source := "if (a) for (var i = 0; ; i = i + 1) if (b) c ? d : e ?: f else (g) else " ++
      "fun () \x7b return \x7d () class A < B \x7b h \x7b break \x7d m(x, y) \x7b \x7d \x7d"
    ∃ tokens p next p' next', scan source = .ok tokens ∧
      Program.parse 0 tokens = (.ok p, next) ∧ p.length = 2 ∧
      Program.parse next (p.tokens ++ [.endAt 1]) = (.ok p', next') ∧
      renameStmts Parser.bare p' = renameStmts Parser.bare p := by
  intro source
  obtain ⟨tokens, p, next, hscan, h, hlength⟩ :=
    exists_parse_of_any source (·.length = 2) (by decide +kernel)
  obtain ⟨p', next', hparse, hp⟩ := Program.parse_tokens h next 1
  exact ⟨tokens, p, next, p', next', hscan, h, of_decide_eq_true hlength, hparse, hp⟩

end Scripting
