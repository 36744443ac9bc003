import Scripting.Proofs.Resolution.Places

/-!
# Sites

A site is a place in an accepted program. The scopes that are open there are laid out as what they
were opened for demands, and the table gives every reference the distance that its name has. A
`break` is only found where there is a loop, and a `return` where there is a function.
-/

namespace Scripting

open Resolution

/-! ### The scopes at a place -/

/-- A well-formed statement declares at most its name. -/
lemma Stmt.resolve_scopes : (s : Stmt) → s.WellFormed → (r : Resolution) →
    (s.resolve r).scopes =
      match s.declared? with
      | some name => introduceScope r.scopes name.lexeme
      | none => r.scopes
  | .expression value, _, r => (value.walked r).scopes_eq
  | .print _ value, _, r => (value.walked r).scopes_eq
  | .var name none, _, r => by
    rw [Stmt.resolve, introduce_eq]
    rfl
  | .var name (some value), _, r => by
    rw [Stmt.resolve, define_eq, (value.walked _).scopes_eq, declare_eq]
    rfl
  | .block body, _, r => (stmts_walked body r.openScope).tail_eq
  | .function declaration, _, r => by
    rw [Stmt.resolve, (declaration.walked _).scopes_eq, introduce_eq]
    rfl
  | .getter declaration, _, r => by
    rw [Stmt.resolve, (declaration.walked _).scopes_eq, introduce_eq]
    rfl
  | .classDecl name none methods getters, _, r => by
    rw [Stmt.resolve_classDecl_none]
    simp only [closeScope]
    rw [(getters_walked getters _).scopes_eq, (functions_walked methods _).scopes_eq,
      atMembers_none_eq]
    rfl
  | .classDecl name (some superclass) methods getters, _, r => by
    rw [Stmt.resolve_classDecl_some]
    simp only [closeScope]
    rw [(getters_walked getters _).scopes_eq, (functions_walked methods _).scopes_eq,
      atMembers_some_eq]
    exact (superclass.walked _).scopes_eq.trans (r.atSuperclass_spec name superclass).2
  | .ifStmt condition consequent none, h, r => by
    have hc := consequent.resolve_scopes h.2.2 (condition.resolve r)
    rw [h.2.1] at hc
    exact hc.trans (condition.walked r).scopes_eq
  | .ifStmt condition consequent (some alternative), h, r => by
    have hc := consequent.resolve_scopes h.2.1.2 (condition.resolve r)
    have ha := alternative.resolve_scopes h.2.2.2 (consequent.resolve (condition.resolve r))
    rw [h.2.1.1] at hc
    rw [h.2.2.1] at ha
    exact ha.trans (hc.trans (condition.walked r).scopes_eq)
  | .whileStmt condition body, h, r => by
    have hb := body.resolve_scopes h.2.2 (condition.resolve r).enterLoop
    rw [h.2.1] at hb
    exact hb.trans (condition.walked r).scopes_eq
  | .breakStmt keyword, _, r => failIf_scopes r _ _ _
  | .returnStmt keyword none, _, r => failIf_scopes r _ _ _
  | .returnStmt keyword (some value), _, r =>
    (value.walked _).scopes_eq.trans (failIf_scopes r _ _ _)

/-- The scopes are what they were opened for: exactly the scopes for a receiver have `this` in them,
and exactly those for a superclass have `super`, each directly around one for a receiver. -/
inductive Layout : List FrameKind → List Scope → Prop
  | nil : Layout [] []
  | scope {kind : FrameKind} {scope : Scope} {ks : List FrameKind} {scopes : List Scope} :
    kind = .block ∨ kind = .call → ¬ scope.has "this" → ¬ scope.has "super" → Layout ks scopes →
      Layout (kind :: ks) (scope :: scopes)
  | members {inner : Scope} {ks : List FrameKind} {scopes : List Scope} :
    inner.has "this" → ¬ inner.has "super" → Layout ks scopes →
      Layout (.receiver :: ks) (inner :: scopes)
  | derived {inner outer : Scope} {ks : List FrameKind} {scopes : List Scope} :
    inner.has "this" → ¬ inner.has "super" → ¬ outer.has "this" → outer.has "super" →
      Layout ks scopes → Layout (.receiver :: .superclass :: ks) (inner :: outer :: scopes)

namespace Layout

variable {ks : List FrameKind} {scopes : List Scope}

lemma length_eq (h : Layout ks scopes) : ks.length = scopes.length := by
  induction h with
  | nil => rfl
  | scope _ _ _ _ ih => simp [ih]
  | members _ _ _ ih => simp [ih]
  | derived _ _ _ _ _ ih => simp [ih]

lemma enter (h : Layout ks scopes) {name : Token} (hn : name.IsName) (complete : Bool) :
    Layout ks (enterScope scopes name.lexeme complete) := by
  have hthis := hn.ne_this.symm
  have hsuper := hn.ne_super.symm
  cases h with
  | nil => exact .nil
  | scope hk ht hs hl =>
    exact .scope hk (by simpa [hthis] using ht) (by simpa [hsuper] using hs) hl
  | members ht hs hl => exact .members (by simp [ht]) (by simpa [hsuper] using hs) hl
  | derived ht hs ht' hs' hl =>
    exact .derived (by simp [ht]) (by simpa [hsuper] using hs) ht' hs' hl

lemma introduce (h : Layout ks scopes) {name : Token} (hn : name.IsName) :
    Layout ks (introduceScope scopes name.lexeme) :=
  (h.enter hn false).enter hn true

lemma parameters (h : Layout ks scopes) {params : List Token}
    (hp : ∀ param ∈ params, param.IsName) :
    Layout (.call :: ks) (parameterScopes params scopes) := by
  have fold : ∀ (params : List Token) (inner : List Scope), (∀ param ∈ params, param.IsName) →
      Layout (.call :: ks) inner → Layout (.call :: ks)
        (params.foldl (fun scopes param => introduceScope scopes param.lexeme) inner) := by
    intro params
    induction params with
    | nil => exact fun inner _ hl => hl
    | cons param params ih =>
      intro inner hp hl
      exact ih _ (fun other ho => hp other (List.mem_cons_of_mem _ ho))
        (hl.introduce (hp param List.mem_cons_self))
  exact fold params _ hp (.scope (.inr rfl) (by simp) (by simp) h)

/-- A scope for a superclass is never the innermost. -/
lemma head?_ne_superclass (h : Layout ks scopes) : ks.head? ≠ some .superclass := by
  cases h with
  | nil => simp
  | scope hk _ _ _ =>
    rcases hk with rfl | rfl
    · simp
    · simp
  | members _ _ _ => simp
  | derived _ _ _ _ _ => simp

/-- The innermost scope with `this` is that of the innermost receiver. -/
lemma findIdx?_this (h : Layout ks scopes) :
    scopes.findIdx? (Record.has · "this") = ks.findIdx? (· = .receiver) := by
  induction h with
  | nil => rfl
  | scope hk ht _ _ ih =>
    rcases hk with rfl | rfl
    · simp [List.findIdx?_cons, ht, ih]
    · simp [List.findIdx?_cons, ht, ih]
  | members ht _ _ _ => simp [List.findIdx?_cons, ht]
  | derived ht _ _ _ _ _ => simp [List.findIdx?_cons, ht]

/-- The innermost scope with `super` is that of the innermost superclass. -/
lemma findIdx?_super (h : Layout ks scopes) :
    scopes.findIdx? (Record.has · "super") = ks.findIdx? (· = .superclass) := by
  induction h with
  | nil => rfl
  | scope hk _ hs _ ih =>
    rcases hk with rfl | rfl
    · simp [List.findIdx?_cons, hs, ih]
    · simp [List.findIdx?_cons, hs, ih]
  | members _ hs _ ih => simp [List.findIdx?_cons, hs, ih]
  | derived _ hs _ hs' _ _ => simp [List.findIdx?_cons, hs, hs']

/-- Directly inside of the scope that has `super` is one that has `this`. -/
lemma this_of_super (h : Layout ks scopes) {distance : Nat}
    (hd : scopes.findIdx? (Record.has · "super") = some distance) :
    ∃ inner scope, distance = inner + 1 ∧ scopes[inner]? = some scope ∧ scope.has "this" := by
  -- what is found further out is found one further out from here
  have further : ∀ {scope : Scope} {scopes : List Scope} {found : Nat},
      (∃ inner s, found = inner + 1 ∧ scopes[inner]? = some s ∧ Record.has s "this") →
        ∃ inner s, found + 1 = inner + 1 ∧ (scope :: scopes)[inner]? = some s ∧
          Record.has s "this" := by
    rintro scope scopes found ⟨inner, s, rfl, hs, ht⟩
    exact ⟨inner + 1, s, rfl, by simpa using hs, ht⟩
  induction h generalizing distance with
  | nil => simp at hd
  | scope _ _ hs _ ih =>
    rw [List.findIdx?_cons, if_neg hs] at hd
    obtain ⟨found, hf, rfl⟩ := Option.map_eq_some_iff.mp hd
    exact further (ih hf)
  | members _ hs _ ih =>
    rw [List.findIdx?_cons, if_neg hs] at hd
    obtain ⟨found, hf, rfl⟩ := Option.map_eq_some_iff.mp hd
    exact further (ih hf)
  | @derived inner outer ks scopes ht hs _ hs' _ _ =>
    rw [List.findIdx?_cons, if_neg hs] at hd
    obtain ⟨found, hf, rfl⟩ := Option.map_eq_some_iff.mp hd
    rw [List.findIdx?_cons, if_pos hs'] at hf
    obtain rfl : 0 = found := by simpa using hf
    exact ⟨0, inner, rfl, by simp, ht⟩

end Layout

/-- Some scope has a name. -/
def Resolution.Knows (scopes : List Scope) (name : String) : Prop :=
  ∃ scope ∈ scopes, scope.has name

namespace Resolution.Knows

variable {scopes : List Scope} {name : String}

lemma cons (h : Knows scopes name) (scope : Scope) : Knows (scope :: scopes) name := by
  obtain ⟨s, hs, hn⟩ := h
  exact ⟨s, List.mem_cons_of_mem _ hs, hn⟩

lemma enter (h : Knows scopes name) (other : String) (complete : Bool) :
    Knows (enterScope scopes other complete) name := by
  cases scopes with
  | nil => exact h
  | cons scope rest =>
    obtain ⟨s, hs, hn⟩ := h
    rcases List.mem_cons.mp hs with rfl | hs
    · exact ⟨_, List.mem_cons_self, by simp [hn]⟩
    · exact ⟨s, List.mem_cons_of_mem _ hs, hn⟩

lemma introduce (h : Knows scopes name) (other : String) :
    Knows (introduceScope scopes other) name :=
  (h.enter other false).enter other true

lemma parameters (h : Knows scopes name) (params : List Token) :
    Knows (parameterScopes params scopes) name := by
  have fold : ∀ (params : List Token) (inner : List Scope), Knows inner name →
      Knows (params.foldl (fun scopes param => introduceScope scopes param.lexeme) inner) name := by
    intro params
    induction params with
    | nil => exact fun inner hi => hi
    | cons param params ih => exact fun inner hi => ih _ (hi.introduce param.lexeme)
  exact fold params _ (h.cons [])

end Resolution.Knows

/-- What is known of every place in an accepted program: it is well-formed, its walk found no
mistake and what the table says, and the scopes are what they were opened for. In a derived class,
`super` is known; only the name of the superclass itself stands before that. -/
structure Site (table : Distances) (ks : List FrameKind) (r : Resolution) (x : Place) : Prop where
  wellFormed : x.WellFormed
  agrees : Agrees table x.ids r (x.resolve r)
  layout : Layout ks r.scopes
  knows_super : r.classContext = .derived →
    Knows r.scopes "super" ∨ ∃ id name, x = .expr (.name id name)

/-- The scopes at a part are what they were opened for, and `super` is known as for a site. -/
def Part.Opens (ks : List FrameKind) (y : Part) : Prop :=
  Layout (y.opened ++ ks) y.state.scopes ∧
    (y.state.classContext = .derived →
      Knows y.state.scopes "super" ∨ ∃ id name, y.place = .expr (.name id name))

section

variable {ks : List FrameKind} {r : Resolution}

/-- A part in the same scopes and the same class. -/
lemma Part.opens_of_eq (hl : Layout ks r.scopes)
    (hk : r.classContext = .derived → Knows r.scopes "super") {place : Place} {r' : Resolution}
    (hs : r'.scopes = r.scopes) (hc : r'.classContext = r.classContext) :
    Part.Opens ks ⟨place, [], r'⟩ := by
  refine ⟨?_, fun h => .inl ?_⟩
  · rw [List.nil_append, hs]
    exact hl
  · rw [hs]
    exact hk (hc ▸ h)

/-- A part after an expression. -/
lemma Part.opens_after (hl : Layout ks r.scopes)
    (hk : r.classContext = .derived → Knows r.scopes "super") {place : Place} {r' : Resolution}
    {ids : List NodeId} (h : WalkedInside ids r r') : Part.Opens ks ⟨place, [], r'⟩ :=
  Part.opens_of_eq hl hk h.scopes_eq h.classContext_eq

lemma Expr.opens_parts (hl : Layout ks r.scopes)
    (hk : r.classContext = .derived → Knows r.scopes "super") (e : Expr) :
    ∀ y ∈ e.parts r, y.Opens ks := by
  have hr {place : Place} : Part.Opens ks ⟨place, [], r⟩ := Part.opens_of_eq hl hk rfl rfl
  cases e with
  | literal value => exact forall_mem_none
  | name id name => exact forall_mem_none
  | this id keyword => exact forall_mem_none
  | super id keyword method => exact forall_mem_none
  | binary left operator right =>
    exact forall_mem_pair hr (Part.opens_after hl hk (left.walked r))
  | logical left operator right =>
    exact forall_mem_pair hr (Part.opens_after hl hk (left.walked r))
  | ternary condition first second =>
    exact forall_mem_triple hr (Part.opens_after hl hk (condition.walked r))
      (Part.opens_after hl hk ((condition.walked r).trans (first.walked _)))
  | call callee paren arguments =>
    exact forall_mem_pair hr (Part.opens_after hl hk (callee.walked r))
  | set object name value =>
    exact forall_mem_pair hr (Part.opens_after hl hk (object.walked r))
  | _ => exact forall_mem_single hr

lemma Part.opens_function (hl : Layout ks r.scopes)
    (hk : r.classContext = .derived → Knows r.scopes "super") {params : List Token}
    (hp : ∀ param ∈ params, param.IsName) (place : Place) :
    Part.Opens ks ⟨place, [.call], r.enterFunction params⟩ := by
  rw [enterFunction_eq]
  exact ⟨hl.parameters hp, fun h => .inl ((hk h).parameters params)⟩

lemma Part.opens_members (hl : Layout ks r.scopes) {name : Token} (hn : name.IsName)
    {r' : Resolution} {ids : List NodeId} (h : WalkedInside ids (r.atMembers name none) r')
    (place : Place) : Part.Opens ks ⟨place, [.receiver], r'⟩ := by
  have hs := h.scopes_eq
  have hc := h.classContext_eq
  rw [atMembers_none_eq] at hs hc
  refine ⟨?_, fun hd => ?_⟩
  · rw [hs]
    exact .members (by decide) (by decide) (hl.introduce hn)
  · rw [hc] at hd
    cases hd

lemma Part.opens_derived (hl : Layout ks r.scopes) {name : Token} (hn : name.IsName)
    {superclass : Expr} {r' : Resolution} {ids : List NodeId}
    (h : WalkedInside ids (r.atMembers name (some superclass)) r') (place : Place) :
    Part.Opens ks ⟨place, [.receiver, .superclass], r'⟩ := by
  have hs := h.scopes_eq
  rw [atMembers_some_eq] at hs
  refine ⟨?_, fun _ => .inl ?_⟩
  · rw [hs]
    refine .derived (by decide) (by decide) (by decide) (by decide) ?_
    rw [(superclass.walked _).scopes_eq, (r.atSuperclass_spec name superclass).2]
    exact hl.introduce hn
  · rw [hs]
    exact ⟨[("super", true)], by simp, by decide⟩

lemma Stmt.opens_parts (hl : Layout ks r.scopes)
    (hk : r.classContext = .derived → Knows r.scopes "super") {s : Stmt} (hw : s.WellFormed) :
    ∀ y ∈ s.parts r, y.Opens ks := by
  have hr {place : Place} : Part.Opens ks ⟨place, [], r⟩ := Part.opens_of_eq hl hk rfl rfl
  have introduced {place : Place} {name : Token} (hn : name.IsName) :
      Part.Opens ks ⟨place, [], r.introduce name⟩ := by
    rw [introduce_eq]
    exact ⟨hl.introduce hn, fun h => .inl ((hk h).introduce _)⟩
  cases s with
  | expression value => exact forall_mem_single hr
  | print keyword value => exact forall_mem_single hr
  | var name initializer =>
    cases initializer with
    | none => exact forall_mem_none
    | some value =>
      apply forall_mem_single
      rw [declare_eq]
      exact ⟨hl.enter hw.1 false, fun h => .inl ((hk h).enter _ _)⟩
  | block body =>
    exact forall_mem_single
      ⟨.scope (.inl rfl) (by simp) (by simp) hl, fun h => .inl ((hk h).cons [])⟩
  | function declaration => exact forall_mem_single (introduced hw.1)
  | getter declaration => exact forall_mem_single (introduced hw.1)
  | classDecl name superclass methods getters =>
    cases superclass with
    | none =>
      exact forall_mem_pair (Part.opens_members hl hw.1 ⟨.refl [] _, rfl⟩ _)
        (Part.opens_members hl hw.1 (functions_walked methods _) _)
    | some superclass =>
      obtain ⟨hn, ⟨id, superName, rfl, -⟩, -⟩ := hw
      refine forall_mem_triple ⟨?_, fun _ => .inr ⟨id, superName, rfl⟩⟩
        (Part.opens_derived hl hn ⟨.refl [] _, rfl⟩ _)
        (Part.opens_derived hl hn (functions_walked methods _) _)
      rw [(r.atSuperclass_spec name _).2]
      exact hl.introduce hn
  | ifStmt condition consequent alternative =>
    have hc {place : Place} : Part.Opens ks ⟨place, [], condition.resolve r⟩ :=
      Part.opens_after hl hk (condition.walked r)
    cases alternative with
    | none => exact forall_mem_pair hr hc
    | some alternative =>
      refine forall_mem_triple hr hc (Part.opens_of_eq hl hk ?_ ?_)
      · have hs := consequent.resolve_scopes hw.2.1.2 (condition.resolve r)
        rw [hw.2.1.1] at hs
        exact hs.trans (condition.walked r).scopes_eq
      · exact (consequent.walked _).classContext_eq.trans (condition.walked r).classContext_eq
  | whileStmt condition body =>
    exact forall_mem_pair hr (Part.opens_of_eq hl hk (condition.walked r).scopes_eq
      (condition.walked r).classContext_eq)
  | breakStmt keyword => exact forall_mem_none
  | returnStmt keyword value =>
    cases value with
    | none => exact forall_mem_none
    | some value =>
      exact forall_mem_single (Part.opens_of_eq hl hk (failIf_scopes r _ _ _)
        (walked_failIf r _ _ _).classContext_eq)

lemma Place.opens_parts (hl : Layout ks r.scopes)
    (hk : r.classContext = .derived → Knows r.scopes "super") {x : Place} (hw : x.WellFormed) :
    ∀ y ∈ x.parts r, y.Opens ks := by
  have hr {place : Place} : Part.Opens ks ⟨place, [], r⟩ := Part.opens_of_eq hl hk rfl rfl
  cases x with
  | expr e => exact Expr.opens_parts hl hk e
  | exprs es =>
    cases es with
    | nil => exact forall_mem_none
    | cons e es => exact forall_mem_pair hr (Part.opens_after hl hk (e.walked r))
  | function d =>
    obtain ⟨name, params, body⟩ := d
    exact forall_mem_single (Part.opens_function hl hk hw.1 _)
  | functions ds =>
    cases ds with
    | nil => exact forall_mem_none
    | cons d ds => exact forall_mem_pair hr (Part.opens_after hl hk (d.walked r))
  | getter d => exact forall_mem_single (Part.opens_function hl hk (by simp) _)
  | getters ds =>
    cases ds with
    | nil => exact forall_mem_none
    | cons d ds => exact forall_mem_pair hr (Part.opens_after hl hk (d.walked r))
  | stmt s => exact Stmt.opens_parts hl hk hw
  | stmts ss =>
    cases ss with
    | nil => exact forall_mem_none
    | cons s ss =>
      refine forall_mem_pair hr ?_
      have hs := s.resolve_scopes hw.1 r
      have hc := (s.walked r).classContext_eq
      cases hd : s.declared? with
      | none =>
        rw [hd] at hs
        exact Part.opens_of_eq hl hk hs hc
      | some name =>
        rw [hd] at hs
        have hn := s.declared?_isName hw.1 hd
        refine ⟨?_, fun h => .inl ?_⟩
        · rw [hs]
          exact hl.introduce hn
        · rw [hs]
          exact (hk (hc ▸ h)).introduce _

end

/-- The parts of a site are sites. -/
lemma Site.part {table : Distances} {ks : List FrameKind} {r : Resolution} {x : Place} {y : Part}
    (h : Site table ks r x) (hy : y ∈ x.parts r) : Site table (y.opened ++ ks) y.state y.place := by
  have hk : r.classContext = .derived → Knows r.scopes "super" := by
    intro hd
    rcases h.knows_super hd with hs | ⟨id, name, rfl⟩
    · exact hs
    · simp [Place.parts, Expr.parts] at hy
  have ho := Place.opens_parts h.layout hk h.wellFormed y hy
  exact ⟨Place.wellFormed_parts h.wellFormed y hy, Place.agrees_parts h.agrees y hy, ho.1, ho.2⟩

/-- A well-formed program in which resolving finds no mistake, and what the table says. -/
structure Program.Accepted (table : Distances) (p : Program) : Prop where
  wellFormed : StmtsWellFormed p
  agrees : Agrees table (stmtsIds p) .start p.resolve

/-- Every place in an accepted program is a site. -/
theorem Located.site {table : Distances} {p : Program} (hp : p.Accepted table)
    {ks : List FrameKind} {r : Resolution} {x : Place} (h : Located p ks r x) :
    Site table ks r x := by
  induction h with
  | program => exact ⟨hp.wellFormed, hp.agrees, .nil, fun h => by cases h⟩
  | part _ hy ih => exact ih.part hy

/-! ### What sites say about their nodes -/

/-- The identity and the name of a reference. -/
def Expr.reference? : Expr → Option (NodeId × Token)
  | .name id token => some (id, token)
  | .assign id token _ => some (id, token)
  | .this id keyword => some (id, keyword)
  | .super id keyword _ => some (id, keyword)
  | _ => none

lemma Expr.mem_ids_of_reference? {e : Expr} {id : NodeId} {token : Token}
    (h : e.reference? = some (id, token)) : id ∈ e.ids := by
  cases e <;> simp_all [Expr.reference?, Expr.ids]

namespace Site

variable {table : Distances} {ks : List FrameKind} {r : Resolution}

lemma classContext_of_super {id : NodeId} {keyword method : Token}
    (h : Site table ks r (.expr (.super id keyword method))) : r.classContext = .derived := by
  have he := h.agrees.errors_eq
  simp only [Place.resolve, Expr.resolve] at he
  cases hc : r.classContext with
  | outside => simp [hc, fail] at he
  | plain => simp [hc, fail] at he
  | derived => rfl

/-- The table gives a reference the distance of its name at its place. -/
theorem get?_eq {e : Expr} {id : NodeId} {name : Token} (h : Site table ks r (.expr e))
    (hr : e.reference? = some (id, name)) : table.get? id = r.distance? name.lexeme := by
  have ha := h.agrees
  cases e with
  | name nodeId nodeName =>
    obtain ⟨rfl, rfl⟩ : nodeId = id ∧ nodeName = name := by simpa [Expr.reference?] using hr
    have hl := Agrees.get?_of_link (ha.congr (failIf_found r _ _ _) rfl rfl)
    rw [hl, distance?, failIf_scopes, distance?]
  | assign nodeId nodeName value =>
    obtain ⟨rfl, rfl⟩ : nodeId = id ∧ nodeName = name := by simpa [Expr.reference?] using hr
    have hs := ha.split (value.walked r).toNoted (walked_link _ nodeId nodeName).toNoted
    rw [hs.2.get?_of_link, distance?, (value.walked r).scopes_eq, distance?]
  | this nodeId keyword =>
    obtain ⟨rfl, rfl⟩ : nodeId = id ∧ keyword = name := by simpa [Expr.reference?] using hr
    simp only [Place.resolve, Expr.resolve] at ha
    split at ha
    · have he := ha.errors_eq
      simp [fail] at he
    · exact ha.get?_of_link
  | super nodeId keyword method =>
    obtain ⟨rfl, rfl⟩ : nodeId = id ∧ keyword = name := by simpa [Expr.reference?] using hr
    simp only [Place.resolve, Expr.resolve, h.classContext_of_super] at ha
    exact ha.get?_of_link
  | _ => simp [Expr.reference?] at hr

/-- A `super` has a distance, and directly inside of the scope there is one with `this`. -/
lemma distance?_super {id : NodeId} {keyword method : Token}
    (h : Site table ks r (.expr (.super id keyword method))) :
    ∃ inner scope, r.distance? "super" = some (inner + 1) ∧ r.scopes[inner]? = some scope ∧
      scope.has "this" := by
  rcases h.knows_super h.classContext_of_super with ⟨scope, hs, hn⟩ | ⟨_, _, he⟩
  · cases hd : r.distance? "super" with
    | none => exact absurd hn (by simpa using List.findIdx?_eq_none_iff.mp hd scope hs)
    | some distance =>
      obtain ⟨inner, scope, rfl, hs, ht⟩ := h.layout.this_of_super hd
      exact ⟨inner, scope, rfl, hs, ht⟩
  · simp at he

end Site

/-! ### Where `break` and `return` may stand -/

/-- If there is no mistake in a list of statements, there is none in any of them. -/
lemma errors_eq_of_mem {s : Stmt} {ss : List Stmt} {r : Resolution} (hs : s ∈ ss)
    (h : (resolveStmts ss r).errors = #[]) :
    ∃ r' : Resolution, r'.loopDepth = r.loopDepth ∧ r'.inFunction = r.inFunction ∧
      (s.resolve r').errors = #[] := by
  induction ss generalizing r with
  | nil => simp at hs
  | cons first rest ih =>
    rcases List.mem_cons.mp hs with rfl | hs
    · exact ⟨r, rfl, rfl, (stmts_walked rest _).errors_eq h⟩
    · obtain ⟨r', hl, hf, he⟩ := ih hs h
      have hw := first.walked r
      exact ⟨r', hl.trans hw.loopDepth_eq, hf.trans hw.inFunction_eq, he⟩

/-- A statement that breaks out of a loop stands in one, unless there is a mistake. -/
lemma Stmt.Breaks.loopDepth_ne {s : Stmt} (hb : s.Breaks) {r : Resolution}
    (h : (s.resolve r).errors = #[]) : r.loopDepth ≠ 0 := by
  induction hb generalizing r with
  | here keyword =>
    intro hl
    simp [Stmt.resolve, failIf, fail, hl] at h
  | block hs _ ih =>
    obtain ⟨r', hl, -, he⟩ := errors_eq_of_mem (r := r.openScope) hs h
    rw [show r.loopDepth = r'.loopDepth from hl.symm]
    exact ih he
  | @consequent condition s alternative _ ih =>
    rw [← (condition.walked r).loopDepth_eq]
    cases alternative with
    | none => exact ih h
    | some other => exact ih ((other.walked _).errors_eq h)
  | @alternative condition consequent s _ ih =>
    rw [← (condition.walked r).loopDepth_eq, ← (consequent.walked _).loopDepth_eq]
    exact ih h

/-- A statement that returns from a function stands in one, unless there is a mistake. -/
lemma Stmt.Returns.inFunction_eq {s : Stmt} (hr : s.Returns) {r : Resolution}
    (h : (s.resolve r).errors = #[]) : r.inFunction = true := by
  induction hr generalizing r with
  | here keyword value =>
    by_contra hf
    have he : (r.failIf (!r.inFunction) .returnAtTop keyword).errors = #[] := by
      cases value with
      | none => exact h
      | some value => exact (value.walked _).errors_eq h
    rw [Bool.not_eq_true] at hf
    simp [failIf, fail, hf] at he
  | block hs _ ih =>
    obtain ⟨r', -, hf, he⟩ := errors_eq_of_mem (r := r.openScope) hs h
    rw [show r.inFunction = r'.inFunction from hf.symm]
    exact ih he
  | @consequent condition s alternative _ ih =>
    rw [← (condition.walked r).inFunction_eq]
    cases alternative with
    | none => exact ih h
    | some other => exact ih ((other.walked _).errors_eq h)
  | @alternative condition consequent s _ ih =>
    rw [← (condition.walked r).inFunction_eq, ← (consequent.walked _).inFunction_eq]
    exact ih h
  | @loop condition s _ ih =>
    rw [← (condition.walked r).inFunction_eq]
    exact ih (r := (condition.resolve r).enterLoop) h

/-- The body of a function breaks out of no loop around the function. -/
lemma Site.not_breaks {table : Distances} {ks : List FrameKind} {r : Resolution}
    {params : List Token} {body : List Stmt}
    (h : Site table ks (r.enterFunction params) (.stmts body)) {s : Stmt} (hs : s ∈ body) :
    ¬ s.Breaks := by
  intro hb
  obtain ⟨r', hl, -, he⟩ := errors_eq_of_mem hs h.agrees.errors_eq
  rw [enterFunction_eq] at hl
  exact hb.loopDepth_ne he hl

/-- The statements of an accepted program break out of nothing and return from nothing. -/
lemma Program.Accepted.not_breaks {table : Distances} {p : Program} (h : p.Accepted table)
    {s : Stmt} (hs : s ∈ p) : ¬ s.Breaks ∧ ¬ s.Returns := by
  obtain ⟨r', hl, hf, he⟩ := errors_eq_of_mem hs h.agrees.errors_eq
  constructor
  · intro hb
    exact hb.loopDepth_ne he hl
  · intro hr
    rw [hr.inFunction_eq he] at hf
    cases hf

/-! ### Members of classes -/

/-- The walk through methods comes by each of them in the same scopes. -/
lemma Located.function_of_mem {p : Program} {ks : List FrameKind} {r : Resolution}
    {d : FunctionDecl} {ds : List FunctionDecl} (h : Located p ks r (.functions ds))
    (hd : d ∈ ds) : ∃ r', Located p ks r' (.function d) ∧ r'.scopes = r.scopes := by
  induction ds generalizing r with
  | nil => simp at hd
  | cons first rest ih =>
    rcases List.mem_cons.mp hd with rfl | hd
    · exact ⟨r, .part h List.mem_cons_self, rfl⟩
    · obtain ⟨r', hl, hs⟩ := ih (.part h (List.mem_cons_of_mem _ List.mem_cons_self)) hd
      exact ⟨r', hl, hs.trans (first.walked r).scopes_eq⟩

lemma Located.getter_of_mem {p : Program} {ks : List FrameKind} {r : Resolution}
    {d : GetterDecl} {ds : List GetterDecl} (h : Located p ks r (.getters ds))
    (hd : d ∈ ds) : ∃ r', Located p ks r' (.getter d) ∧ r'.scopes = r.scopes := by
  induction ds generalizing r with
  | nil => simp at hd
  | cons first rest ih =>
    rcases List.mem_cons.mp hd with rfl | hd
    · exact ⟨r, .part h List.mem_cons_self, rfl⟩
    · obtain ⟨r', hl, hs⟩ := ih (.part h (List.mem_cons_of_mem _ List.mem_cons_self)) hd
      exact ⟨r', hl, hs.trans (first.walked r).scopes_eq⟩

end Scripting
