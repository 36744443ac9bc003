import Scripting.Proofs.Resolution.Sites

/-!
# Inside of members

A place that the walk comes by is outside of all classes, or it is written in a member of a class
statement with only blocks and functions in between. Then the innermost scopes for a receiver and
for a superclass are those of that class. So a `super` has a distance of at least two, and the scope
directly inside of the one it leads to has the receiver of the same class.
-/

namespace Scripting

open Resolution

/-- A place is written inside of another one, with scopes in between that are opened for the given,
the innermost first. -/
inductive Place.Holds (x : Place) : List FrameKind → Place → Prop
  | self : x.Holds [] x
  | part {ks : List FrameKind} {z : Place} {r : Resolution} {y : Part} :
    x.Holds ks z → y ∈ z.parts r → x.Holds (y.opened ++ ks) y.place

/-- Only blocks and calls. -/
def LocalKinds (ks : List FrameKind) : Prop :=
  ∀ k ∈ ks, k = .block ∨ k = .call

/-- A place is written inside of another one, and in no class inside of that. -/
def Place.HoldsLocally (x y : Place) : Prop :=
  ∃ ks, x.Holds ks y ∧ LocalKinds ks

/-- A method or a getter of a class statement. -/
inductive Stmt.Member : Stmt → Place → Prop
  | method {name : Token} {superclass : Option Expr} {methods : List FunctionDecl}
      {getters : List GetterDecl} {d : FunctionDecl} :
    d ∈ methods → Member (.classDecl name superclass methods getters) (.function d)
  | getter {name : Token} {superclass : Option Expr} {methods : List FunctionDecl}
      {getters : List GetterDecl} {d : GetterDecl} :
    d ∈ getters → Member (.classDecl name superclass methods getters) (.getter d)

/-- For what scopes are opened around the members of a class. -/
def memberKinds : Option Expr → List FrameKind
  | none => [.receiver]
  | some _ => [.receiver, .superclass]

/-- The kind of class that members are in. -/
def memberContext : Option Expr → ClassContext
  | none => .plain
  | some _ => .derived

namespace LocalKinds

variable {ks ks' : List FrameKind}

lemma nil : LocalKinds [] := by
  simp [LocalKinds]

lemma append (h : LocalKinds ks) (h' : LocalKinds ks') : LocalKinds (ks ++ ks') := by
  intro k hk
  rcases List.mem_append.mp hk with hk | hk
  · exact h k hk
  · exact h' k hk

/-- What is neither a block nor a call is looked for further out. -/
lemma findIdx?_append (h : LocalKinds ks) {kind : FrameKind} (hb : kind ≠ .block)
    (hc : kind ≠ .call) :
    (ks ++ ks').findIdx? (· = kind) = (ks'.findIdx? (· = kind)).map (· + ks.length) := by
  have hnone : ks.findIdx? (· = kind) = none := by
    rw [List.findIdx?_eq_none_iff]
    intro k hk
    rcases h k hk with rfl | rfl
    · simpa using hb.symm
    · simpa using hc.symm
  rw [List.findIdx?_append, hnone, Option.none_or]

end LocalKinds

namespace Place.Holds

variable {x y z : Place} {ks ks' : List FrameKind}

lemma trans (h : x.Holds ks y) (h' : y.Holds ks' z) : x.Holds (ks' ++ ks) z := by
  induction h' with
  | self => exact h
  | part _ hy ih =>
    rw [List.append_assoc]
    exact ih.part hy

/-- What is written inside of a declaration is inside of its call. -/
lemma call_mem (h : x.Holds ks y) (hx : ∀ r, ∀ part ∈ x.parts r, .call ∈ part.opened) :
    y = x ∨ .call ∈ ks := by
  induction h with
  | self => exact .inl rfl
  | part _ hy ih =>
    rcases ih with rfl | ih
    · exact .inr (List.mem_append_left _ (hx _ _ hy))
    · exact .inr (List.mem_append_right _ ih)

end Place.Holds

/-! ### Parts of places -/

/-- A part of a place in the same class as the place. -/
def Part.Within (r : Resolution) (y : Part) : Prop :=
  LocalKinds y.opened ∧ y.state.classContext = r.classContext

/-- The methods or the getters of a class statement. -/
def Part.OfClass (superclass : Option Expr) (methods : List FunctionDecl)
    (getters : List GetterDecl) (y : Part) : Prop :=
  y.opened = memberKinds superclass ∧ y.state.classContext = memberContext superclass ∧
    (y.place = .functions methods ∨ y.place = .getters getters)

section

variable {r r' : Resolution} {place : Place}

lemma Part.within_of_eq (h : r'.classContext = r.classContext) :
    Part.Within r ⟨place, [], r'⟩ :=
  ⟨.nil, h⟩

lemma Part.within_function (params : List Token) :
    Part.Within r ⟨place, [.call], r.enterFunction params⟩ := by
  refine ⟨by simp [LocalKinds], ?_⟩
  rw [enterFunction_eq]

lemma Expr.within_parts (e : Expr) : ∀ y ∈ e.parts r, y.Within r := by
  have hr {place : Place} : Part.Within r ⟨place, [], r⟩ := Part.within_of_eq rfl
  cases e with
  | literal value => exact forall_mem_none
  | name id name => exact forall_mem_none
  | this id keyword => exact forall_mem_none
  | super id keyword method => exact forall_mem_none
  | binary left operator right =>
    exact forall_mem_pair hr (Part.within_of_eq (left.walked r).classContext_eq)
  | logical left operator right =>
    exact forall_mem_pair hr (Part.within_of_eq (left.walked r).classContext_eq)
  | ternary condition first second =>
    exact forall_mem_triple hr (Part.within_of_eq (condition.walked r).classContext_eq)
      (Part.within_of_eq ((condition.walked r).trans (first.walked _)).classContext_eq)
  | call callee paren arguments =>
    exact forall_mem_pair hr (Part.within_of_eq (callee.walked r).classContext_eq)
  | set object name value =>
    exact forall_mem_pair hr (Part.within_of_eq (object.walked r).classContext_eq)
  | _ => exact forall_mem_single hr

/-- The parts of a statement other than a class are in the class around it. -/
lemma Stmt.within_parts (s : Stmt) (hs : ∀ name superclass methods getters,
    s ≠ .classDecl name superclass methods getters) : ∀ y ∈ s.parts r, y.Within r := by
  have hr {place : Place} : Part.Within r ⟨place, [], r⟩ := Part.within_of_eq rfl
  have introduced {place : Place} {name : Token} : Part.Within r ⟨place, [], r.introduce name⟩ := by
    rw [introduce_eq]
    exact Part.within_of_eq rfl
  cases s with
  | expression value => exact forall_mem_single hr
  | print keyword value => exact forall_mem_single hr
  | var name initializer =>
    cases initializer with
    | none => exact forall_mem_none
    | some value =>
      apply forall_mem_single
      rw [declare_eq]
      exact Part.within_of_eq rfl
  | block body => exact forall_mem_single ⟨by simp [LocalKinds], rfl⟩
  | function declaration => exact forall_mem_single introduced
  | getter declaration => exact forall_mem_single introduced
  | classDecl name superclass methods getters =>
    exact absurd rfl (hs name superclass methods getters)
  | ifStmt condition consequent alternative =>
    have hc {place : Place} : Part.Within r ⟨place, [], condition.resolve r⟩ :=
      Part.within_of_eq (condition.walked r).classContext_eq
    cases alternative with
    | none => exact forall_mem_pair hr hc
    | some alternative =>
      exact forall_mem_triple hr hc (Part.within_of_eq
        ((consequent.walked _).classContext_eq.trans (condition.walked r).classContext_eq))
  | whileStmt condition body =>
    exact forall_mem_pair hr (Part.within_of_eq (condition.walked r).classContext_eq)
  | breakStmt keyword => exact forall_mem_none
  | returnStmt keyword value =>
    cases value with
    | none => exact forall_mem_none
    | some value =>
      exact forall_mem_single (Part.within_of_eq (walked_failIf r _ _ _).classContext_eq)

/-- The parts of a class statement are the name of the superclass and the members. -/
lemma Stmt.class_parts {name : Token} {superclass : Option Expr} {methods : List FunctionDecl}
    {getters : List GetterDecl}
    (hw : (Stmt.classDecl name superclass methods getters).WellFormed) :
    ∀ y ∈ (Stmt.classDecl name superclass methods getters).parts r,
      (∃ id token, y.place = .expr (.name id token)) ∨
        y.OfClass superclass methods getters := by
  cases superclass with
  | none =>
    refine forall_mem_pair (.inr ⟨rfl, ?_, .inl rfl⟩) (.inr ⟨rfl, ?_, .inr rfl⟩)
    · rw [atMembers_none_eq]
      rfl
    · refine (functions_walked methods _).classContext_eq.trans ?_
      rw [atMembers_none_eq]
      rfl
  | some superclass =>
    obtain ⟨-, ⟨id, superName, rfl, -⟩, -⟩ := hw
    have hclass : (r.atMembers name (some (.name id superName))).classContext = .derived := by
      rw [atMembers_some_eq]
      exact (Expr.walked _ _).classContext_eq.trans (r.atSuperclass_spec name _).1.classContext_eq
    refine forall_mem_triple (.inl ⟨id, superName, rfl⟩) (.inr ⟨rfl, hclass, .inl rfl⟩)
      (.inr ⟨rfl, ?_, .inr rfl⟩)
    exact (functions_walked methods _).classContext_eq.trans hclass

/-- The parts of a place are in the same class as the place, unless this is a class statement. -/
lemma Place.within_parts (x : Place) (hx : ∀ name superclass methods getters,
    x ≠ .stmt (.classDecl name superclass methods getters)) : ∀ y ∈ x.parts r, y.Within r := by
  have hr {place : Place} : Part.Within r ⟨place, [], r⟩ := Part.within_of_eq rfl
  cases x with
  | expr e => exact e.within_parts
  | exprs es =>
    cases es with
    | nil => exact forall_mem_none
    | cons e es => exact forall_mem_pair hr (Part.within_of_eq (e.walked r).classContext_eq)
  | function d => exact forall_mem_single (Part.within_function d.params)
  | functions ds =>
    cases ds with
    | nil => exact forall_mem_none
    | cons d ds => exact forall_mem_pair hr (Part.within_of_eq (d.walked r).classContext_eq)
  | getter d => exact forall_mem_single (Part.within_function [])
  | getters ds =>
    cases ds with
    | nil => exact forall_mem_none
    | cons d ds => exact forall_mem_pair hr (Part.within_of_eq (d.walked r).classContext_eq)
  | stmt s =>
    refine s.within_parts fun name superclass methods getters he => ?_
    exact hx name superclass methods getters (congrArg Place.stmt he)
  | stmts ss =>
    cases ss with
    | nil => exact forall_mem_none
    | cons s ss => exact forall_mem_pair hr (Part.within_of_eq (s.walked r).classContext_eq)

end

/-! ### The class around a place -/

/-- A place is inside of a member of a class statement, and of no other class in that member. -/
structure MemberOf (p : Program) (ks : List FrameKind) (r : Resolution) (x : Place)
    (inner ks₀ : List FrameKind) (name : Token) (superclass : Option Expr)
    (methods : List FunctionDecl) (getters : List GetterDecl) : Prop where
  located : ∃ r₀, Located p ks₀ r₀ (.stmt (.classDecl name superclass methods getters))
  member : ∃ d, (Stmt.classDecl name superclass methods getters).Member d ∧ d.Holds inner x
  kinds_eq : ks = inner ++ (memberKinds superclass ++ ks₀)
  inner_local : LocalKinds inner
  context_eq : r.classContext = memberContext superclass

/-- Where a place stands with regard to classes. -/
inductive Owned (p : Program) : List FrameKind → Resolution → Place → Prop
  | outside {ks : List FrameKind} {r : Resolution} {x : Place} :
    LocalKinds ks → r.classContext = .outside → Owned p ks r x
  | superclass {ks : List FrameKind} {r : Resolution} (id : NodeId) (token : Token) :
    Owned p ks r (.expr (.name id token))
  | methods {ks₀ : List FrameKind} {r r₀ : Resolution} {name : Token} {superclass : Option Expr}
      {methods ds : List FunctionDecl} {getters : List GetterDecl} :
    Located p ks₀ r₀ (.stmt (.classDecl name superclass methods getters)) → ds ⊆ methods →
      r.classContext = memberContext superclass →
        Owned p (memberKinds superclass ++ ks₀) r (.functions ds)
  | getters {ks₀ : List FrameKind} {r r₀ : Resolution} {name : Token} {superclass : Option Expr}
      {methods : List FunctionDecl} {getters ds : List GetterDecl} :
    Located p ks₀ r₀ (.stmt (.classDecl name superclass methods getters)) → ds ⊆ getters →
      r.classContext = memberContext superclass →
        Owned p (memberKinds superclass ++ ks₀) r (.getters ds)
  | member {ks inner ks₀ : List FrameKind} {r : Resolution} {x : Place} {name : Token}
      {superclass : Option Expr} {methods : List FunctionDecl} {getters : List GetterDecl} :
    MemberOf p ks r x inner ks₀ name superclass methods getters → Owned p ks r x

/-- The members of a class statement are those of this class, wherever the statement stands. -/
lemma Owned.of_class {p : Program} {ks : List FrameKind} {r : Resolution} {name : Token}
    {superclass : Option Expr} {methods : List FunctionDecl} {getters : List GetterDecl} {y : Part}
    (h : Located p ks r (.stmt (.classDecl name superclass methods getters)))
    (hy : y.OfClass superclass methods getters) :
    Owned p (y.opened ++ ks) y.state y.place := by
  obtain ⟨place, opened, state⟩ := y
  obtain ⟨rfl, hc, hp | hp⟩ := hy
  · obtain rfl : place = _ := hp
    exact .methods h (List.Subset.refl _) hc
  · obtain rfl : place = _ := hp
    exact .getters h (List.Subset.refl _) hc

/-- A part that opens scopes for blocks and calls only is in the same member. -/
lemma MemberOf.part {p : Program} {ks inner ks₀ : List FrameKind} {r : Resolution} {x : Place}
    {name : Token} {superclass : Option Expr} {methods : List FunctionDecl}
    {getters : List GetterDecl} {y : Part}
    (h : MemberOf p ks r x inner ks₀ name superclass methods getters) (hy : y ∈ x.parts r)
    (hw : y.Within r) :
    MemberOf p (y.opened ++ ks) y.state y.place (y.opened ++ inner) ks₀ name superclass methods
      getters where
  located := h.located
  member := by
    obtain ⟨d, hd, hh⟩ := h.member
    exact ⟨d, hd, hh.part hy⟩
  kinds_eq := by rw [h.kinds_eq, List.append_assoc]
  inner_local := hw.1.append h.inner_local
  context_eq := hw.2.trans h.context_eq

/-- Every place in a well-formed program is outside of all classes or in a member of one. -/
theorem Located.owned {p : Program} (hp : StmtsWellFormed p) {ks : List FrameKind} {r : Resolution}
    {x : Place} (h : Located p ks r x) : Owned p ks r x := by
  have wellFormed : ∀ {ks r x}, Located p ks r x → x.WellFormed := by
    intro ks r x h
    induction h with
    | program => exact hp
    | part _ hy ih => exact Place.wellFormed_parts ih _ hy
  induction h with
  | program => exact .outside .nil rfl
  | @part ks r x y hl hy ih =>
    by_cases hclass : ∃ name superclass methods getters,
        x = .stmt (.classDecl name superclass methods getters)
    · obtain ⟨name, superclass, methods, getters, rfl⟩ := hclass
      rcases Stmt.class_parts (wellFormed hl) y hy with ⟨id, token, he⟩ | hy
      · rw [he]
        exact .superclass id token
      · exact .of_class hl hy
    · have hw := x.within_parts (fun name superclass methods getters he =>
        hclass ⟨name, superclass, methods, getters, he⟩) y hy
      cases ih with
      | outside hk hc => exact .outside (hw.1.append hk) (hw.2.trans hc)
      | superclass id token => simp [Place.parts, Expr.parts] at hy
      | member hm => exact .member (hm.part hy hw)
      | @methods ks₀ r r₀ name superclass methods ds getters hs hd hc =>
        -- the walk takes the methods one by one
        cases ds with
        | nil => simp [Place.parts] at hy
        | cons d ds =>
          have hmem := List.cons_subset.mp hd
          rcases List.mem_cons.mp hy with rfl | hy
          · exact .member ⟨⟨r₀, hs⟩, ⟨_, .method hmem.1, .self⟩, rfl, .nil, hc⟩
          · obtain rfl := List.mem_singleton.mp hy
            exact .methods hs hmem.2 (hw.2.trans hc)
      | @getters ks₀ r r₀ name superclass methods getters ds hs hd hc =>
        cases ds with
        | nil => simp [Place.parts] at hy
        | cons d ds =>
          have hmem := List.cons_subset.mp hd
          rcases List.mem_cons.mp hy with rfl | hy
          · exact .member ⟨⟨r₀, hs⟩, ⟨_, .getter hmem.1, .self⟩, rfl, .nil, hc⟩
          · obtain rfl := List.mem_singleton.mp hy
            exact .getters hs hmem.2 (hw.2.trans hc)

/-- Code stands directly in a block or in a call, if it is not at the top. -/
lemma MemberOf.call_mem {p : Program} {ks inner ks₀ : List FrameKind} {r : Resolution} {x : Place}
    {name : Token} {superclass : Option Expr} {methods : List FunctionDecl}
    {getters : List GetterDecl}
    (h : MemberOf p ks r x inner ks₀ name superclass methods getters)
    (hf : ∀ d, x ≠ .function d) (hg : ∀ d, x ≠ .getter d) : .call ∈ inner := by
  obtain ⟨d, hd, hh⟩ := h.member
  cases hd with
  | method _ =>
    exact (hh.call_mem fun r => forall_mem_single List.mem_cons_self).resolve_left (hf _)
  | getter _ =>
    exact (hh.call_mem fun r => forall_mem_single List.mem_cons_self).resolve_left (hg _)

/-! ### The distances of `this` and `super` -/

/-- A `super` is written in a member of a class with a superclass. Its distance is at least two and
leads to the scope with this superclass; the scope directly inside has the receiver. -/
theorem Located.super_memberOf {table : Distances} {p : Program} (hp : p.Accepted table)
    {ks : List FrameKind} {r : Resolution} {id : NodeId} {keyword method : Token}
    (h : Located p ks r (.expr (.super id keyword method))) :
    ∃ inner ks₀ name superclass methods getters,
      MemberOf p ks r (.expr (.super id keyword method)) inner ks₀ name (some superclass) methods
        getters ∧
      ks.findIdx? (· = .receiver) = some inner.length ∧
      ks.findIdx? (· = .superclass) = some (inner.length + 1) ∧
      table.get? id = some (inner.length + 1) ∧ inner ≠ [] ∧
      (∃ scope, r.scopes[inner.length]? = some scope ∧ scope.has "this") ∧
      ∃ scope, r.scopes[inner.length + 1]? = some scope ∧ scope.has "super" := by
  have hsite := h.site hp
  have hcontext := hsite.classContext_of_super
  have hkey : keyword.lexeme = "super" := hsite.wellFormed
  cases h.owned hp.wellFormed with
  | outside _ hc =>
    rw [hc] at hcontext
    cases hcontext
  | @member ks inner ks₀ r x name superclass methods getters hm =>
    cases superclass with
    | none =>
      have hc := hm.context_eq
      rw [hcontext] at hc
      cases hc
    | some superclass =>
      have hk := hm.kinds_eq
      have hreceiver : ks.findIdx? (· = .receiver) = some inner.length := by
        rw [hk, hm.inner_local.findIdx?_append (by decide) (by decide)]
        simp [memberKinds, List.findIdx?_cons]
      have hsuper : ks.findIdx? (· = .superclass) = some (inner.length + 1) := by
        rw [hk, hm.inner_local.findIdx?_append (by decide) (by decide)]
        simp [memberKinds, List.findIdx?_cons, Nat.add_comm]
      have hthis := hsite.layout.findIdx?_this.trans hreceiver
      have hdistance := hsite.layout.findIdx?_super.trans hsuper
      refine ⟨inner, ks₀, name, superclass, methods, getters, hm, hreceiver, hsuper, ?_, ?_, ?_, ?_⟩
      · rw [hsite.get?_eq rfl, hkey]
        exact hdistance
      · exact List.ne_nil_of_mem (hm.call_mem (by simp) (by simp))
      · obtain ⟨hlt, hn, -⟩ := List.findIdx?_eq_some_iff_getElem.mp hthis
        exact ⟨_, List.getElem?_eq_getElem hlt, hn⟩
      · obtain ⟨hlt, hn, -⟩ := List.findIdx?_eq_some_iff_getElem.mp hdistance
        exact ⟨_, List.getElem?_eq_getElem hlt, hn⟩

/-- A `this` is written in a member of a class, and its distance leads to the scope with the
receiver of that class. -/
theorem Located.get?_this {table : Distances} {p : Program} (hp : p.Accepted table)
    {ks : List FrameKind} {r : Resolution} {id : NodeId} {keyword : Token}
    (h : Located p ks r (.expr (.this id keyword))) :
    ∃ distance, table.get? id = some distance ∧ ks.findIdx? (· = .receiver) = some distance := by
  have hsite := h.site hp
  have hkey : keyword.lexeme = "this" := hsite.wellFormed
  have hget : table.get? id = ks.findIdx? (· = .receiver) := by
    rw [hsite.get?_eq rfl, hkey]
    exact hsite.layout.findIdx?_this
  cases h.owned hp.wellFormed with
  | outside _ hc =>
    have he := hsite.agrees.errors_eq
    simp [Place.resolve, Expr.resolve, hc, fail] at he
  | member hm =>
    have hmem : .receiver ∈ ks := by
      rw [hm.kinds_eq]
      refine List.mem_append_right _ (List.mem_append_left _ ?_)
      unfold memberKinds
      split <;> simp
    obtain ⟨distance, hd⟩ : ∃ distance, ks.findIdx? (· = .receiver) = some distance := by
      rw [← Option.isSome_iff_exists, List.findIdx?_isSome, List.any_eq_true]
      exact ⟨_, hmem, by simp⟩
    exact ⟨distance, hget.trans hd, hd⟩

end Scripting
