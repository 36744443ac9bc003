import Scripting.Proofs.Program.Derivation
import Scripting.Proofs.Token.Lexemes

/-!
# The literals of a program

Every token of a script that stands for a constant comes to one literal of its program, and this has
the value of the token. Beyond that there are only the conditions that loops leave out, which always
hold. The clauses of a loop change places, so that literals need not be in the order of the script.
-/

namespace Scripting

/-- A program is what some script without faults was read as. -/
def Program.FromScript (p : Program) : Prop :=
  ∃ source tokens nextId next, scan source = .ok tokens ∧
    Program.parse nextId tokens = (.ok p, next)

mutual

/-- The literals in an expression. -/
def Expr.literals : Expr → List Literal
  | .literal value => [value]
  | .grouping inner => inner.literals
  | .unary _ operand => operand.literals
  | .binary left _ right => left.literals ++ right.literals
  | .logical left _ right => left.literals ++ right.literals
  | .ternary condition first second =>
    condition.literals ++ (first.literals ++ second.literals)
  | .name _ _ => []
  | .assign _ _ value => value.literals
  | .call callee _ arguments => callee.literals ++ exprsLiterals arguments
  | .get object _ => object.literals
  | .nilGet object _ => object.literals
  | .set object _ value => object.literals ++ value.literals
  | .this _ _ => []
  | .super _ _ _ => []
  | .lambda declaration => declaration.literals

/-- The literals in expressions. -/
def exprsLiterals : List Expr → List Literal
  | [] => []
  | e :: es => e.literals ++ exprsLiterals es

/-- The literals in a function. -/
def FunctionDecl.literals : FunctionDecl → List Literal
  | .mk _ _ body => stmtsLiterals body

/-- The literals in methods. -/
def functionsLiterals : List FunctionDecl → List Literal
  | [] => []
  | f :: fs => f.literals ++ functionsLiterals fs

/-- The literals in a getter. -/
def GetterDecl.literals : GetterDecl → List Literal
  | .mk _ body => stmtsLiterals body

/-- The literals in getters. -/
def gettersLiterals : List GetterDecl → List Literal
  | [] => []
  | g :: gs => g.literals ++ gettersLiterals gs

/-- The literals in a statement. -/
def Stmt.literals : Stmt → List Literal
  | .expression value => value.literals
  | .print _ value => value.literals
  | .var _ none => []
  | .var _ (some value) => value.literals
  | .block body => stmtsLiterals body
  | .function declaration => declaration.literals
  | .getter declaration => declaration.literals
  | .classDecl _ none methods getters => functionsLiterals methods ++ gettersLiterals getters
  | .classDecl _ (some superclass) methods getters =>
    superclass.literals ++ (functionsLiterals methods ++ gettersLiterals getters)
  | .ifStmt condition consequent none => condition.literals ++ consequent.literals
  | .ifStmt condition consequent (some alternative) =>
    condition.literals ++ (consequent.literals ++ alternative.literals)
  | .whileStmt condition body => condition.literals ++ body.literals
  | .breakStmt _ => []
  | .returnStmt _ none => []
  | .returnStmt _ (some value) => value.literals

/-- The literals in statements. -/
def stmtsLiterals : List Stmt → List Literal
  | [] => []
  | s :: ss => s.literals ++ stmtsLiterals ss

end

/-- The literals in a program. -/
abbrev Program.literals (p : Program) : List Literal :=
  stmtsLiterals p

/-- The kinds of tokens that stand for constants. -/
def TokenKind.isConstant : TokenKind → Bool
  | .kwFalse => true
  | .kwTrue => true
  | .kwNil => true
  | .number => true
  | .textLiteral => true
  | _ => false

/-- The constant that a token stands for. -/
def Token.constant? (t : Token) : Option Literal :=
  match t.kind with
  | .kwFalse => some (.bool false)
  | .kwTrue => some (.bool true)
  | .kwNil => some .nil
  | .number => t.literal
  | .textLiteral => t.literal
  | _ => none

lemma Token.constant?_eq_none {t : Token} (h : t.kind.isConstant = false) : t.constant? = none := by
  unfold constant?
  split <;> simp_all [TokenKind.isConstant]

/-- Numbers and texts have a value. -/
def Valued (ts : List Token) : Prop :=
  ∀ t ∈ ts, t.kind ∈ [.number, .textLiteral] → t.literal.isSome

namespace Grammar

/-- Literals are the constants of tokens that have their values, up to the order, and besides the
conditions of a number of loops. -/
def Accounts (literals : List Literal) (ts : List Token) : Prop :=
  Valued ts → ∃ added, literals.Perm
    (ts.filterMap Token.constant? ++ List.replicate added (.bool true))

namespace Accounts

variable {literals literals' : List Literal} {ts ts' : List Token}

lemma nil : Accounts [] [] :=
  fun _ => ⟨0, .refl _⟩

/-- The condition of a loop that has none. -/
lemma always : Accounts [.bool true] [] :=
  fun _ => ⟨1, .refl _⟩

lemma perm (h : Accounts literals ts) (hp : literals'.Perm literals) : Accounts literals' ts :=
  fun hv => (h hv).imp fun _ ha => hp.trans ha

lemma append (h : Accounts literals ts) (h' : Accounts literals' ts') :
    Accounts (literals ++ literals') (ts ++ ts') := by
  intro hv
  obtain ⟨hv, hv'⟩ := List.forall_mem_append.mp hv
  obtain ⟨added, ha⟩ := h hv
  obtain ⟨added', ha'⟩ := h' hv'
  refine ⟨added + added', (ha.append ha').trans ?_⟩
  rw [List.filterMap_append, ← List.replicate_append_replicate]
  simp only [List.append_assoc]
  refine List.Perm.append_left _ ?_
  simp only [← List.append_assoc]
  exact List.Perm.append_right _ List.perm_append_comm

/-- Tokens behind others, without constants. -/
lemma behind (h : Accounts literals ts) (h' : Accounts [] ts') : Accounts literals (ts ++ ts') := by
  simpa using h.append h'

lemma constant {t : Token} {value : Literal} (h : t.constant? = some value) :
    Accounts [value] [t] := by
  refine fun _ => ⟨0, ?_⟩
  rw [List.filterMap_cons_some h]
  exact .refl _

/-- A token that stands for no constant. -/
lemma skip {t : Token} (h : Accounts literals ts) (hk : t.kind.isConstant = false) :
    Accounts literals (t :: ts) := by
  intro hv
  rw [List.filterMap_cons_none (Token.constant?_eq_none hk)]
  exact h (List.forall_mem_of_forall_mem_cons hv)

/-- A token of a kind that stands for no constant. -/
lemma mark {t : Token} {kind : TokenKind} (h : Accounts literals ts) (hk : t.kind = kind)
    (hn : kind.isConstant = false) : Accounts literals (t :: ts) :=
  h.skip (hk ▸ hn)

end Accounts

open Accounts

lemma isConstant_of_mem_binaryOperators {s : Stratum} {kind : TokenKind}
    (h : kind ∈ s.binaryOperators) : kind.isConstant = false := by
  have table : ∀ kind ∈ s.binaryOperators, kind.isConstant = false := by
    cases s <;> decide
  exact table kind h

lemma isConstant_of_mem_logicalOperators {s : Stratum} {kind : TokenKind}
    (h : kind ∈ s.logicalOperators) : kind.isConstant = false := by
  have table : ∀ kind ∈ s.logicalOperators, kind.isConstant = false := by
    cases s <;> decide
  exact table kind h

lemma Names.accounts {ts names : List Token} (h : Names ts names) : Accounts [] ts := by
  induction h with
  | last hname => exact nil.mark hname rfl
  | cons hname hcomma _ ih => exact (ih.mark hcomma rfl).mark hname rfl

lemma Parameters.accounts {ts params : List Token} (h : Parameters ts params) :
    Accounts [] ts := by
  cases h with
  | none => exact nil
  | some hnames _ => exact hnames.accounts

lemma Terminator.accounts {ts : List Token} (h : Terminator ts) : Accounts [] ts := by
  cases h with
  | none => exact nil
  | semicolon ht => exact nil.mark ht rfl

/-- What the literals are for each syntactic class. -/
def Accounted : (phrase : Phrase) → List Token → phrase.Tree → Prop
  | .expression _, ts, e => Accounts e.literals ts
  | .optional, ts, value => Accounts (value.elim [] Expr.literals) ts
  | .listing, ts, es => Accounts (exprsLiterals es) ts
  | .arguments, ts, es => Accounts (exprsLiterals es) ts
  | .callable, ts, (_, body) => Accounts (stmtsLiterals body) ts
  | .block, ts, ss => Accounts (stmtsLiterals ss) ts
  | .function, ts, f => Accounts f.literals ts
  | .getter, ts, g => Accounts g.literals ts
  | .members, ts, (fs, gs) => Accounts (functionsLiterals fs ++ gettersLiterals gs) ts
  | .varClause, ts, s => Accounts s.literals ts
  | .initializer, ts, clause => Accounts (clause.elim [] Stmt.literals) ts
  | .statement _, ts, s => Accounts s.literals ts
  | .declaration, ts, s => Accounts s.literals ts
  | .declarations, ts, ss => Accounts (stmtsLiterals ss) ts

lemma literals_gather (ss : List Stmt) : (gather ss).literals = stmtsLiterals ss := by
  unfold gather
  split <;> simp [Stmt.literals, stmtsLiterals]

/-- The literals of a loop with three clauses, the last of which comes behind the body. -/
lemma literals_loop (initializer : Option Stmt) (condition increment : Option Expr) (body : Stmt) :
    (loop initializer condition increment body).literals =
      initializer.elim [] Stmt.literals ++ ((condition.getD (.literal (.bool true))).literals ++
        (body.literals ++ increment.elim [] Expr.literals)) := by
  cases initializer <;> cases increment <;>
    simp [loop, literals_gather, Stmt.literals, stmtsLiterals]

lemma accounts_loop {ts ts' ts'' body : List Token} {first second closing : Token}
    {initializer : Option Stmt} {condition increment : Option Expr} {s : Stmt}
    (hinitializer : Accounts (initializer.elim [] Stmt.literals) ts)
    (hfirst : first.kind = .semicolon) (hcondition : Accounts (condition.elim [] Expr.literals) ts')
    (hsecond : second.kind = .semicolon)
    (hincrement : Accounts (increment.elim [] Expr.literals) ts'')
    (hclosing : closing.kind = .rightParen) (hbody : Accounts s.literals body) :
    Accounts (loop initializer condition increment s).literals
      (ts ++ first :: (ts' ++ second :: (ts'' ++ closing :: body))) := by
  have hcondition : Accounts (condition.getD (.literal (.bool true))).literals ts' := by
    cases condition with
    | none => exact always.append hcondition
    | some e => exact hcondition
  have hrest := hincrement.append (hbody.mark hclosing rfl)
  have hmiddle := hcondition.append (hrest.mark hsecond rfl)
  refine (hinitializer.append (hmiddle.mark hfirst rfl)).perm ?_
  rw [literals_loop]
  exact (List.perm_append_comm.append_left _).append_left _

/-- A superclass is a name, and has no literals. -/
lemma Superclass.accounts_members {ts ts' : List Token} {superclass : Option Expr}
    {methods : List FunctionDecl} {getters : List GetterDecl} (h : Superclass ts superclass)
    (name : Token)
    (hmembers : Accounts (functionsLiterals methods ++ gettersLiterals getters) ts') :
    Accounts (Stmt.classDecl name superclass methods getters).literals (ts ++ ts') := by
  cases h with
  | none => exact hmembers
  | some hless hname => exact (hmembers.mark hname rfl).mark hless rfl

/-- The constants among the tokens that the grammar spells a tree with are its literals. -/
theorem Spells.accounted {phrase : Phrase} {ts : List Token} {tree : phrase.Tree}
    (h : Derives phrase ts tree) : Accounted phrase ts tree := by
  induction h with
  | tighter _ _ ih => exact ih
  | assign hname hequals _ ih => exact (ih.mark hequals rfl).mark hname rfl
  | set _ hdot hname hequals _ ihobject ih =>
    exact ihobject.append (((ih.mark hequals rfl).mark hname rfl).mark hdot rfl)
  | ternary _ hquestion _ hcolon _ ihcondition ihfirst ihsecond =>
    exact ihcondition.append
      ((ihfirst.append (ihsecond.mark hcolon rfl)).mark hquestion rfl)
  | binary _ _ hoperator _ ihleft ihright =>
    exact ihleft.append (ihright.skip (isConstant_of_mem_binaryOperators hoperator))
  | logical _ _ hoperator _ ihleft ihright =>
    exact ihleft.append (ihright.skip (isConstant_of_mem_logicalOperators hoperator))
  | @unary operator _ _ hoperator _ ih =>
    have table : ∀ kind ∈ [TokenKind.bang, .minus], kind.isConstant = false := by
      decide
    exact ih.skip (table _ hoperator)
  | call _ hopening _ hparen ihcallee iharguments =>
    exact ihcallee.append ((iharguments.behind (nil.mark hparen rfl)).mark hopening rfl)
  | get _ hdot hname ih => exact ih.behind ((nil.mark hname rfl).mark hdot rfl)
  | nilGet _ hdot hname ih => exact ih.behind ((nil.mark hname rfl).mark hdot rfl)
  | falseLiteral ht => exact constant (by rw [Token.constant?, ht])
  | trueLiteral ht => exact constant (by rw [Token.constant?, ht])
  | nilLiteral ht => exact constant (by rw [Token.constant?, ht])
  | @literal t ht =>
    intro hv
    obtain ⟨value, hvalue⟩ := Option.isSome_iff_exists.mp (hv t List.mem_cons_self ht)
    have hconstant : t.constant? = some value := by
      rcases (by simpa using ht : t.kind = .number ∨ t.kind = .textLiteral) with ht | ht
      · rw [Token.constant?, ht, hvalue]
      · rw [Token.constant?, ht, hvalue]
    have := constant hconstant hv
    rwa [hvalue]
  | this ht => exact nil.mark ht rfl
  | super hkeyword hdot hmethod =>
    exact ((nil.mark hmethod rfl).mark hdot rfl).mark hkeyword rfl
  | name ht => exact nil.mark ht rfl
  | lambda hkeyword _ ih => exact ih.mark hkeyword rfl
  | grouping hopening _ hclosing ih =>
    exact (ih.behind (nil.mark hclosing rfl)).mark hopening rfl
  | absent => exact nil
  | present _ ih => exact ih
  | last _ ih => exact ih.perm (by rw [exprsLiterals, exprsLiterals, List.append_nil])
  | more _ hcomma _ ih ihrest => exact ih.append (ihrest.mark hcomma rfl)
  | noArguments => exact nil
  | arguments _ _ ih => exact ih
  | callable hopening hparams hclosing _ ih =>
    exact (hparams.accounts.append (ih.mark hclosing rfl)).mark hopening rfl
  | block hopening _ hclosing ih =>
    exact (ih.behind (nil.mark hclosing rfl)).mark hopening rfl
  | function hname _ ih => exact ih.mark hname rfl
  | getter hname _ ih => exact ih.mark hname rfl
  | noMembers => exact nil
  | method _ _ ih ihrest =>
    exact (ih.append ihrest).perm (by rw [functionsLiterals, List.append_assoc])
  | property _ _ ih ihrest =>
    exact (ih.append ihrest).perm (List.perm_append_comm_assoc _ _ _)
  | uninitialized hname => exact nil.mark hname rfl
  | initialized hname hequals _ ih => exact (ih.mark hequals rfl).mark hname rfl
  | noInitializer => exact nil
  | varInitializer hkeyword _ ih => exact ih.mark hkeyword rfl
  | expressionInitializer _ ih => exact ih
  | expression _ hending ih => exact ih.behind hending.accounts
  | print hkeyword _ hending ih => exact (ih.behind hending.accounts).mark hkeyword rfl
  | breakStmt hkeyword hending => exact hending.accounts.mark hkeyword rfl
  | @returnStmt _ _ _ value hkeyword _ hending ih =>
    cases value with
    | none => exact (ih.behind hending.accounts).mark hkeyword rfl
    | some e => exact (ih.behind hending.accounts).mark hkeyword rfl
  | blockStmt _ ih => exact ih
  | ifOnly hkeyword hopening _ hclosing _ ihcondition ihconsequent =>
    exact ((ihcondition.append (ihconsequent.mark hclosing rfl)).mark hopening rfl).mark
      hkeyword rfl
  | ifElse hkeyword hopening _ hclosing _ hkeyword' _ ihcondition ihconsequent ihalternative =>
    exact ((ihcondition.append ((ihconsequent.append (ihalternative.mark hkeyword' rfl)).mark
      hclosing rfl)).mark hopening rfl).mark hkeyword rfl
  | whileStmt hkeyword hopening _ hclosing _ ihcondition ihbody =>
    exact ((ihcondition.append (ihbody.mark hclosing rfl)).mark hopening rfl).mark hkeyword rfl
  | forStmt hkeyword hopening _ hfirst _ hsecond _ hclosing _ ihinitializer ihcondition
      ihincrement ihbody =>
    exact ((accounts_loop ihinitializer hfirst ihcondition hsecond ihincrement hclosing
      ihbody).mark hopening rfl).mark hkeyword rfl
  | @classDecl _ name _ _ _ _ _ _ _ hkeyword hname hsuper hopening _ hclosing ih =>
    have hmembers := (ih.behind (nil.mark hclosing rfl)).mark hopening rfl
    exact ((hsuper.accounts_members name hmembers).mark hname rfl).mark hkeyword rfl
  | functionDecl hkeyword _ ih => exact ih.mark hkeyword rfl
  | getterDecl hkeyword _ ih => exact ih.mark hkeyword rfl
  | varDecl hkeyword _ hending ih => exact (ih.behind hending.accounts).mark hkeyword rfl
  | statement _ ih => exact ih
  | done => exact nil
  | next _ _ ih ihrest => exact ih.append ihrest

end Grammar

/-- The numbers and the texts of a script without faults have the values of their lexemes. -/
lemma exists_lexeme_of_scan {source : String} {tokens : List Token}
    (hscan : scan source = .ok tokens) {t : Token} (ht : t ∈ tokens)
    (hk : t.kind ∈ [.number, .textLiteral]) :
    ∃ value, t.literal = some value ∧ Scan.Lexeme t.kind t.lexeme.toList (some value) := by
  obtain ⟨gap, pieces, -, rfl, -, hfits⟩ := (scan_eq_ok_iff.mp hscan).exists_pieces
  rcases List.mem_append.mp ht with ht | ht
  · obtain ⟨piece, hpiece, rfl⟩ := List.mem_map.mp ht
    obtain ⟨front, back, he⟩ := List.append_of_mem hpiece
    have hlexeme := (hfits front piece back he).lexeme
    have hsome := hlexeme.isSome_literal_iff.mpr (by simpa using hk)
    obtain ⟨value, hvalue⟩ := Option.isSome_iff_exists.mp hsome
    exact ⟨value, hvalue, hvalue ▸ hlexeme⟩
  · obtain rfl := List.mem_singleton.mp ht
    simp [Token.endAt] at hk

/-- The literals of a program that was read are the constants of its script, up to their order, and
besides the conditions that loops leave out. -/
theorem Program.literals_of_parse {source : String} {tokens : List Token} {nextId next : NodeId}
    {p : Program} (hscan : scan source = .ok tokens)
    (h : Program.parse nextId tokens = (.ok p, next)) :
    ∃ added, p.literals.Perm
      (tokens.filterMap Token.constant? ++ List.replicate added (.bool true)) := by
  obtain ⟨front, line, rfl⟩ := exists_end_of_scan hscan
  have hfront := (scan_eq_ok_iff.mp hscan).kind_ne_of_mem_dropLast
  rw [List.dropLast_concat] at hfront
  obtain ⟨front', back, he, hkinds, hk, hp⟩ := Program.derives_of_parse h
  obtain rfl := Program.front_eq_of_read he hfront hkinds hk
  have hvalued : Valued front' := fun t ht hk => by
    obtain ⟨value, hvalue, -⟩ := exists_lexeme_of_scan hscan (List.mem_append_left _ ht) hk
    rw [hvalue, Option.isSome_some]
  obtain ⟨added, ha⟩ := hp.accounted hvalued
  refine ⟨added, ?_⟩
  have hend : [Token.endAt line].filterMap Token.constant? = [] := rfl
  rwa [List.filterMap_append, hend, List.append_nil]

end Scripting
