import Scripting.Proofs.Eval.Faults
import Scripting.Proofs.Program.Derivation
import Scripting.Proofs.Resolution.Members

/-!
# What programs are built of

The tree of a program has room for more than scripts can say: any token could stand for an operator
or for a name, and any expression for a superclass. `Place.Built` leaves that out, for the root of a
place. All places of a program that was read are built so, and its names are identifiers of the
script.
-/

namespace Scripting

/-- An identifier among the tokens of a script, which is no reserved word. -/
structure Token.IsNameIn (tokens : List Token) (t : Token) : Prop where
  mem : t ∈ tokens
  kind_eq : t.kind = .identifier
  notMem_keywords : t.lexeme ∉ keywords.map Prod.fst

section

variable (Name : Token → Prop)

/-- The operator of an expression is one that can stand there, and its names are such. Only a
lambda has a name that is made up. -/
def Expr.Built : Expr → Prop
  | .unary operator _ => operator.kind ∈ unaryOperators
  | .binary _ operator _ => operator.kind ∈ binaryOperators
  | .logical _ operator _ => operator.kind ∈ [.kwAnd, .kwOr]
  | .name _ token => Name token
  | .assign _ token _ => Name token
  | .get _ token => Name token
  | .nilGet _ token => Name token
  | .set _ token _ => Name token
  | .super _ _ method => Name method
  | .lambda declaration => ∃ line, declaration.name = ⟨.kwFun, "lambda", none, line⟩
  | _ => True

/-- What a statement declares has a name, and so have the members of a class. A superclass is given
by a name. -/
def Stmt.Built : Stmt → Prop
  | .var name _ => Name name
  | .function declaration => Name declaration.name
  | .getter declaration => Name declaration.name
  | .classDecl name superclass methods getters =>
    Name name ∧ (∀ e ∈ superclass, ∃ id superName, e = .name id superName) ∧
      (∀ method ∈ methods, Name method.name) ∧ ∀ getter ∈ getters, Name getter.name
  | _ => True

/-- The root of a place is built as in a script. -/
def Place.Built : Place → Prop
  | .expr e => e.Built Name
  | .function declaration => ∀ param ∈ declaration.params, Name param
  | .stmt s => s.Built Name
  | _ => True

end

/-! ### Everywhere in a place -/

namespace Place

variable {q : Place → Prop} {x y : Place} {ks : List FrameKind}

/-- Something holds of a place and of all that is written inside of it. -/
def Everywhere (q : Place → Prop) (x : Place) : Prop :=
  ∀ ks y, x.Holds ks y → q y

lemma Everywhere.self (h : x.Everywhere q) : q x :=
  h [] x .self

lemma Everywhere.of_holds (h : x.Everywhere q) (hy : x.Holds ks y) : y.Everywhere q :=
  fun _ z hz => h _ z (hy.trans hz)

lemma Everywhere.part {r : Resolution} {z : Part} (h : x.Everywhere q) (hz : z ∈ x.parts r) :
    z.place.Everywhere q :=
  h.of_holds (.part .self hz)

/-- What is written inside of a place is the place, or it is inside of one of its parts. -/
lemma Holds.eq_or_of_part (h : x.Holds ks y) :
    y = x ∨ ∃ r, ∃ z ∈ x.parts r, ∃ ks', z.place.Holds ks' y := by
  induction h with
  | self => exact .inl rfl
  | @part ks z r y hz hy ih =>
    rcases ih with rfl | ⟨r', z', hz', ks', hh⟩
    · exact .inr ⟨r, y, hy, [], .self⟩
    · exact .inr ⟨r', z', hz', _, hh.part hy⟩

lemma everywhere_of_parts (hx : q x) (hparts : ∀ r, ∀ y ∈ x.parts r, y.place.Everywhere q) :
    x.Everywhere q := by
  intro ks y hy
  rcases hy.eq_or_of_part with rfl | ⟨r, z, hz, ks', hh⟩
  · exact hx
  · exact hparts r z hz ks' y hh

end Place

/-! ### Programs that were read -/

namespace Grammar

open Place

variable {Name : Token → Prop}

/-- What the trees of each syntactic class are built of. -/
def Built (Name : Token → Prop) : (phrase : Phrase) → phrase.Tree → Prop
  | .expression _, e => (Place.expr e).Everywhere (Place.Built Name)
  | .optional, value => ∀ e ∈ value, (Place.expr e).Everywhere (Place.Built Name)
  | .listing, es => (Place.exprs es).Everywhere (Place.Built Name)
  | .arguments, es => (Place.exprs es).Everywhere (Place.Built Name)
  | .callable, (params, body) => (∀ param ∈ params, Name param) ∧
      (Place.stmts body).Everywhere (Place.Built Name)
  | .block, ss => (Place.stmts ss).Everywhere (Place.Built Name)
  | .function, f => Name f.name ∧ (Place.function f).Everywhere (Place.Built Name)
  | .getter, g => Name g.name ∧ (Place.getter g).Everywhere (Place.Built Name)
  | .members, (fs, gs) =>
    ((∀ f ∈ fs, Name f.name) ∧ (Place.functions fs).Everywhere (Place.Built Name)) ∧
      (∀ g ∈ gs, Name g.name) ∧ (Place.getters gs).Everywhere (Place.Built Name)
  | .varClause, s => (Place.stmt s).Everywhere (Place.Built Name)
  | .initializer, clause => ∀ s ∈ clause, (Place.stmt s).Everywhere (Place.Built Name)
  | .statement _, s => (Place.stmt s).Everywhere (Place.Built Name)
  | .declaration, s => (Place.stmt s).Everywhere (Place.Built Name)
  | .declarations, ss => (Place.stmts ss).Everywhere (Place.Built Name)

lemma Stratum.mem_binaryOperators {s : Stratum} {kind : TokenKind}
    (h : kind ∈ s.binaryOperators) : kind ∈ Scripting.binaryOperators := by
  have table : s.binaryOperators ⊆ Scripting.binaryOperators := by
    cases s <;> decide
  exact table h

lemma Stratum.mem_logicalOperators {s : Stratum} {kind : TokenKind}
    (h : kind ∈ s.logicalOperators) : kind ∈ [TokenKind.kwAnd, .kwOr] := by
  have table : s.logicalOperators ⊆ [.kwAnd, .kwOr] := by
    cases s <;> decide
  exact table h

lemma Names.forall_mem {ts names : List Token} (h : Names ts names)
    (hts : ∀ t ∈ ts, t.kind = .identifier → Name t) : ∀ name ∈ names, Name name := by
  induction h with
  | last hname =>
    rw [List.forall_mem_singleton] at hts ⊢
    exact hts hname
  | cons hname _ _ ih =>
    rw [List.forall_mem_cons, List.forall_mem_cons] at hts
    rw [List.forall_mem_cons]
    exact ⟨hts.1 hname, ih hts.2.2⟩

lemma Parameters.forall_mem {ts params : List Token} (h : Parameters ts params)
    (hts : ∀ t ∈ ts, t.kind = .identifier → Name t) : ∀ param ∈ params, Name param := by
  cases h with
  | none => simp
  | some hnames _ => exact hnames.forall_mem hts

/-- One statement for several is built of them. -/
lemma everywhere_gather {ss : List Stmt} (h : (Place.stmts ss).Everywhere (Place.Built Name)) :
    (Place.stmt (gather ss)).Everywhere (Place.Built Name) := by
  unfold gather
  split
  · next s => exact h.part (z := ⟨.stmt s, [], .start⟩) List.mem_cons_self
  · exact everywhere_of_parts trivial fun r => forall_mem_single h

lemma everywhere_stmts {ss : List Stmt}
    (h : ∀ s ∈ ss, (Place.stmt s).Everywhere (Place.Built Name)) :
    (Place.stmts ss).Everywhere (Place.Built Name) := by
  induction ss with
  | nil => exact everywhere_of_parts trivial fun r => forall_mem_none
  | cons s ss ih =>
    rw [List.forall_mem_cons] at h
    exact everywhere_of_parts trivial fun r => forall_mem_pair h.1 (ih h.2)

lemma built_loop {initializer : Option Stmt} {condition increment : Option Expr} {body : Stmt}
    {ending : Ending} (hi : Built Name .initializer initializer)
    (hc : Built Name .optional condition) (hs : Built Name .optional increment)
    (hb : Built Name (.statement ending) body) :
    Built Name (.statement ending) (loop initializer condition increment body) := by
  have hcondition : (Place.expr (condition.getD (.literal (.bool true)))).Everywhere
      (Place.Built Name) := by
    cases condition with
    | none => exact everywhere_of_parts trivial fun r => forall_mem_none
    | some e => exact hc e rfl
  have hround : (Place.stmt (gather (body :: (increment.map Stmt.expression).toList))).Everywhere
      (Place.Built Name) := by
    refine everywhere_gather (everywhere_stmts (List.forall_mem_cons.mpr ⟨hb, ?_⟩))
    intro s hstep
    obtain ⟨e, he, rfl⟩ := Option.map_eq_some_iff.mp (Option.mem_toList.mp hstep)
    exact everywhere_of_parts trivial fun r => forall_mem_single (hs e he)
  have hwhile := everywhere_of_parts (q := Place.Built Name) (x := .stmt (.whileStmt _ _)) trivial
    fun r => forall_mem_pair hcondition hround
  refine everywhere_gather (everywhere_stmts ?_)
  rw [List.forall_mem_append, List.forall_mem_singleton]
  exact ⟨fun s hs => hi s (Option.mem_toList.mp hs), hwhile⟩

lemma built_classDecl {name : Token} {ts : List Token} {superclass : Option Expr}
    {methods : List FunctionDecl} {getters : List GetterDecl} (hname : Name name)
    (hsuper : Superclass ts superclass) (hts : ∀ t ∈ ts, t.kind = .identifier → Name t)
    (hmembers : Built Name .members (methods, getters)) :
    Built Name .declaration (.classDecl name superclass methods getters) := by
  obtain ⟨⟨hmethodNames, hmethods⟩, hgetterNames, hgetters⟩ := hmembers
  cases hsuper with
  | none =>
    refine everywhere_of_parts ⟨hname, by simp, hmethodNames, hgetterNames⟩ fun r => ?_
    exact forall_mem_pair hmethods hgetters
  | @some less superName id _ hsuperName =>
    refine everywhere_of_parts ⟨hname, ?_, hmethodNames, hgetterNames⟩ fun r => ?_
    · rintro e ⟨⟩
      exact ⟨id, superName, rfl⟩
    · refine forall_mem_triple (everywhere_of_parts ?_ fun r => forall_mem_none) hmethods hgetters
      exact hts superName (by simp) hsuperName

/-- Whatever the grammar spells is built of the operators that there are, and its names are
identifiers among its tokens. -/
theorem Spells.built {Ends : List Token → Prop} {phrase : Phrase} {ts : List Token}
    {tree : phrase.Tree} (h : Spells Ends phrase ts tree)
    (hts : ∀ t ∈ ts, t.kind = .identifier → Name t) : Built Name phrase tree := by
  induction h with try simp only [List.forall_mem_append, List.forall_mem_cons] at hts
  | tighter _ _ ih => exact ih hts
  | assign hname _ _ ih =>
    obtain ⟨hname', -, hvalue⟩ := hts
    exact everywhere_of_parts (hname' hname) fun r => forall_mem_single (ih hvalue)
  | set _ _ hname _ _ ihobject ih =>
    obtain ⟨hobject, -, hname', -, hvalue⟩ := hts
    exact everywhere_of_parts (hname' hname) fun r => forall_mem_pair (ihobject hobject) (ih hvalue)
  | ternary _ _ _ _ _ ihcondition ihfirst ihsecond =>
    obtain ⟨hcondition, -, hfirst, -, hsecond⟩ := hts
    exact everywhere_of_parts trivial fun r =>
      forall_mem_triple (ihcondition hcondition) (ihfirst hfirst) (ihsecond hsecond)
  | binary _ _ hoperator _ ihleft ihright =>
    obtain ⟨hleft, -, hright⟩ := hts
    exact everywhere_of_parts (Stratum.mem_binaryOperators hoperator) fun r =>
      forall_mem_pair (ihleft hleft) (ihright hright)
  | logical _ _ hoperator _ ihleft ihright =>
    obtain ⟨hleft, -, hright⟩ := hts
    exact everywhere_of_parts (Stratum.mem_logicalOperators hoperator) fun r =>
      forall_mem_pair (ihleft hleft) (ihright hright)
  | unary hoperator _ ih =>
    exact everywhere_of_parts hoperator fun r => forall_mem_single (ih hts.2)
  | call _ _ _ _ ihcallee iharguments =>
    obtain ⟨hcallee, -, harguments, -⟩ := hts
    exact everywhere_of_parts trivial fun r =>
      forall_mem_pair (ihcallee hcallee) (iharguments harguments)
  | get _ _ hname ih =>
    obtain ⟨hobject, -, hname', -⟩ := hts
    exact everywhere_of_parts (hname' hname) fun r => forall_mem_single (ih hobject)
  | nilGet _ _ hname ih =>
    obtain ⟨hobject, -, hname', -⟩ := hts
    exact everywhere_of_parts (hname' hname) fun r => forall_mem_single (ih hobject)
  | falseLiteral _ => exact everywhere_of_parts trivial fun r => forall_mem_none
  | trueLiteral _ => exact everywhere_of_parts trivial fun r => forall_mem_none
  | nilLiteral _ => exact everywhere_of_parts trivial fun r => forall_mem_none
  | literal _ => exact everywhere_of_parts trivial fun r => forall_mem_none
  | this _ => exact everywhere_of_parts trivial fun r => forall_mem_none
  | super _ _ hmethod =>
    obtain ⟨-, -, hmethod', -⟩ := hts
    exact everywhere_of_parts (hmethod' hmethod) fun r => forall_mem_none
  | name hname =>
    exact everywhere_of_parts (hts.1 hname) fun r => forall_mem_none
  | @lambda keyword _ _ _ _ _ ih =>
    obtain ⟨hparams, hbody⟩ := ih hts.2
    refine everywhere_of_parts ⟨keyword.line, rfl⟩ fun r => forall_mem_single ?_
    exact everywhere_of_parts hparams fun r => forall_mem_single hbody
  | grouping _ _ _ ih =>
    exact everywhere_of_parts trivial fun r => forall_mem_single (ih hts.2.1)
  | absent =>
    intro e he
    cases he
  | present _ ih =>
    rintro e ⟨⟩
    exact ih hts
  | last _ ih =>
    exact everywhere_of_parts trivial fun r =>
      forall_mem_pair (ih hts) (everywhere_of_parts trivial fun r => forall_mem_none)
  | more _ _ _ ih ihrest =>
    obtain ⟨he, -, hrest⟩ := hts
    exact everywhere_of_parts trivial fun r => forall_mem_pair (ih he) (ihrest hrest)
  | noArguments => exact everywhere_of_parts trivial fun r => forall_mem_none
  | arguments _ _ ih => exact ih hts
  | callable _ hparams _ _ ih =>
    obtain ⟨-, hnames, -, hbody⟩ := hts
    exact ⟨hparams.forall_mem hnames, ih hbody⟩
  | block _ _ _ ih => exact ih hts.2.1
  | function hname _ ih =>
    obtain ⟨hparams, hbody⟩ := ih hts.2
    exact ⟨hts.1 hname, everywhere_of_parts hparams fun r => forall_mem_single hbody⟩
  | getter hname _ ih =>
    exact ⟨hts.1 hname, everywhere_of_parts trivial fun r => forall_mem_single (ih hts.2)⟩
  | noMembers =>
    exact ⟨⟨by simp, everywhere_of_parts trivial fun r => forall_mem_none⟩, by simp,
      everywhere_of_parts trivial fun r => forall_mem_none⟩
  | method _ _ ih ihrest =>
    obtain ⟨hname, hmethod⟩ := ih hts.1
    obtain ⟨⟨hnames, hmethods⟩, hgetters⟩ := ihrest hts.2
    exact ⟨⟨List.forall_mem_cons.mpr ⟨hname, hnames⟩,
      everywhere_of_parts trivial fun r => forall_mem_pair hmethod hmethods⟩, hgetters⟩
  | property _ _ ih ihrest =>
    obtain ⟨hname, hgetter⟩ := ih hts.1
    obtain ⟨hmethods, hnames, hgetters⟩ := ihrest hts.2
    exact ⟨hmethods, List.forall_mem_cons.mpr ⟨hname, hnames⟩,
      everywhere_of_parts trivial fun r => forall_mem_pair hgetter hgetters⟩
  | uninitialized hname =>
    exact everywhere_of_parts (hts.1 hname) fun r => forall_mem_none
  | initialized hname _ _ ih =>
    obtain ⟨hname', -, hvalue⟩ := hts
    exact everywhere_of_parts (hname' hname) fun r => forall_mem_single (ih hvalue)
  | noInitializer =>
    intro s hs
    cases hs
  | varInitializer _ _ ih =>
    rintro s ⟨⟩
    exact ih hts.2
  | expressionInitializer _ ih =>
    rintro s ⟨⟩
    exact everywhere_of_parts trivial fun r => forall_mem_single (ih hts)
  | expression _ _ ih => exact everywhere_of_parts trivial fun r => forall_mem_single (ih hts.1)
  | print _ _ _ ih => exact everywhere_of_parts trivial fun r => forall_mem_single (ih hts.2.1)
  | breakStmt _ _ => exact everywhere_of_parts trivial fun r => forall_mem_none
  | @returnStmt _ _ _ value _ _ _ ih =>
    cases value with
    | none => exact everywhere_of_parts trivial fun r => forall_mem_none
    | some e => exact everywhere_of_parts trivial fun r => forall_mem_single (ih hts.2.1 e rfl)
  | blockStmt _ ih => exact everywhere_of_parts trivial fun r => forall_mem_single (ih hts)
  | ifOnly _ _ _ _ _ ihcondition ihconsequent =>
    obtain ⟨-, -, hcondition, -, hconsequent⟩ := hts
    exact everywhere_of_parts trivial fun r =>
      forall_mem_pair (ihcondition hcondition) (ihconsequent hconsequent)
  | ifElse _ _ _ _ _ _ _ ihcondition ihconsequent ihalternative =>
    obtain ⟨-, -, hcondition, -, hconsequent, -, halternative⟩ := hts
    exact everywhere_of_parts trivial fun r => forall_mem_triple (ihcondition hcondition)
      (ihconsequent hconsequent) (ihalternative halternative)
  | whileStmt _ _ _ _ _ ihcondition ihbody =>
    obtain ⟨-, -, hcondition, -, hbody⟩ := hts
    exact everywhere_of_parts trivial fun r =>
      forall_mem_pair (ihcondition hcondition) (ihbody hbody)
  | forStmt _ _ _ _ _ _ _ _ _ ihinitializer ihcondition ihincrement ihbody =>
    obtain ⟨-, -, hinitializer, -, hcondition, -, hincrement, -, hbody⟩ := hts
    exact built_loop (ihinitializer hinitializer) (ihcondition hcondition)
      (ihincrement hincrement) (ihbody hbody)
  | classDecl _ hname hsuper _ _ _ ih =>
    obtain ⟨-, hname', hsuperclass, -, hmembers, -⟩ := hts
    exact built_classDecl (hname' hname) hsuper hsuperclass (ih hmembers)
  | functionDecl _ _ ih =>
    obtain ⟨hname, hfunction⟩ := ih hts.2
    exact everywhere_of_parts hname fun r => forall_mem_single hfunction
  | getterDecl _ _ ih =>
    obtain ⟨hname, hgetter⟩ := ih hts.2
    exact everywhere_of_parts hname fun r => forall_mem_single hgetter
  | varDecl _ _ _ ih => exact ih hts.2.1
  | statement _ ih => exact ih hts
  | done => exact everywhere_of_parts trivial fun r => forall_mem_none
  | next _ _ ih ihrest =>
    exact everywhere_of_parts trivial fun r => forall_mem_pair (ih hts.1) (ihrest hts.2)

end Grammar

/-- The identifiers of a script without faults are no reserved words. -/
lemma isNameIn_of_scan {source : String} {tokens : List Token} (hscan : scan source = .ok tokens)
    {t : Token} (ht : t ∈ tokens) (hk : t.kind = .identifier) : t.IsNameIn tokens := by
  refine ⟨ht, hk, fun hmem => ?_⟩
  have table : ∀ word ∈ keywords.map Prod.fst, TokenKind.ofWord word ≠ .identifier := by
    decide
  exact table _ hmem ((scan_spelled hscan t ht).isName hk).ofWord_eq

/-- All places of a program that was read from a script are built as in a script. -/
theorem Program.built_of_parse {source : String} {tokens : List Token} {nextId next : NodeId}
    {p : Program} (hscan : scan source = .ok tokens)
    (h : Program.parse nextId tokens = (.ok p, next)) :
    (Place.stmts p).Everywhere (Place.Built (Token.IsNameIn tokens)) := by
  obtain ⟨front, back, rfl, -, -, hp⟩ := Program.derives_of_parse h
  exact hp.built fun t ht hk => isNameIn_of_scan hscan (List.mem_append_left back ht) hk

end Scripting
