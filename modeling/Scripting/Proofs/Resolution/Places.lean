import Scripting.Proofs.Resolution.Walk

/-!
# Places in a program

The walk through a program comes by every part of its tree. `Located` says in which state it does,
and for what the scopes that are open then were opened: a block, a call, the receiver or the
superclass of members. What holds of a place holds of its parts: it is well-formed, there is no
mistake in it, and a table of distances agrees with what the walk found there.
-/

namespace Scripting

open Resolution

/-- The parts of a program that the walk comes by. -/
inductive Place where
  | expr (e : Expr)
  | exprs (es : List Expr)
  | function (d : FunctionDecl)
  | functions (ds : List FunctionDecl)
  | getter (d : GetterDecl)
  | getters (ds : List GetterDecl)
  | stmt (s : Stmt)
  | stmts (ss : List Stmt)

namespace Place

/-- Walk through a place. -/
def resolve : Place → Resolution → Resolution
  | .expr e, r => e.resolve r
  | .exprs es, r => resolveExprs es r
  | .function d, r => d.resolve r
  | .functions ds, r => resolveFunctions ds r
  | .getter d, r => d.resolve r
  | .getters ds, r => resolveGetters ds r
  | .stmt s, r => s.resolve r
  | .stmts ss, r => resolveStmts ss r

/-- The identities in a place. -/
def ids : Place → List NodeId
  | .expr e => e.ids
  | .exprs es => exprsIds es
  | .function d => d.ids
  | .functions ds => functionsIds ds
  | .getter d => d.ids
  | .getters ds => gettersIds ds
  | .stmt s => s.ids
  | .stmts ss => stmtsIds ss

/-- A well-formed place. -/
def WellFormed : Place → Prop
  | .expr e => e.WellFormed
  | .exprs es => ExprsWellFormed es
  | .function d => d.WellFormed
  | .functions ds => FunctionsWellFormed ds
  | .getter d => d.WellFormed
  | .getters ds => GettersWellFormed ds
  | .stmt s => s.WellFormed
  | .stmts ss => StmtsWellFormed ss

end Place

/-- A part of a place: where the walk is when it comes there from the place, and for what it has
opened scopes on the way, the innermost first. -/
structure Part where
  place : Place
  opened : List FrameKind
  state : Resolution

/-! What is to be shown of each of a few things. -/

section

variable {α : Type} {P : α → Prop} {a b c : α}

lemma forall_mem_none : ∀ y ∈ ([] : List α), P y := by
  simp

lemma forall_mem_single (ha : P a) : ∀ y ∈ [a], P y := by
  simpa using ha

lemma forall_mem_pair (ha : P a) (hb : P b) : ∀ y ∈ [a, b], P y := by
  simpa using ⟨ha, hb⟩

lemma forall_mem_triple (ha : P a) (hb : P b) (hc : P c) : ∀ y ∈ [a, b, c], P y := by
  simpa using ⟨ha, hb, hc⟩

end

/-- The parts of an expression, walked through in order from a state. -/
def Expr.parts (r : Resolution) : Expr → List Part
  | .literal _ => []
  | .grouping inner => [⟨.expr inner, [], r⟩]
  | .unary _ operand => [⟨.expr operand, [], r⟩]
  | .binary left _ right => [⟨.expr left, [], r⟩, ⟨.expr right, [], left.resolve r⟩]
  | .logical left _ right => [⟨.expr left, [], r⟩, ⟨.expr right, [], left.resolve r⟩]
  | .ternary condition first second =>
    [⟨.expr condition, [], r⟩, ⟨.expr first, [], condition.resolve r⟩,
      ⟨.expr second, [], first.resolve (condition.resolve r)⟩]
  | .name _ _ => []
  | .assign _ _ value => [⟨.expr value, [], r⟩]
  | .call callee _ arguments =>
    [⟨.expr callee, [], r⟩, ⟨.exprs arguments, [], callee.resolve r⟩]
  | .get object _ => [⟨.expr object, [], r⟩]
  | .nilGet object _ => [⟨.expr object, [], r⟩]
  | .set object _ value => [⟨.expr object, [], r⟩, ⟨.expr value, [], object.resolve r⟩]
  | .this _ _ => []
  | .super _ _ _ => []
  | .lambda declaration => [⟨.function declaration, [], r⟩]

/-- The parts of a statement. The members of a class have a scope for the receiver, and around that
one for the superclass, if there is one. -/
def Stmt.parts (r : Resolution) : Stmt → List Part
  | .expression value => [⟨.expr value, [], r⟩]
  | .print _ value => [⟨.expr value, [], r⟩]
  | .var _ none => []
  | .var name (some value) => [⟨.expr value, [], r.declare name⟩]
  | .block body => [⟨.stmts body, [.block], r.openScope⟩]
  | .function declaration => [⟨.function declaration, [], r.introduce declaration.name⟩]
  | .getter declaration => [⟨.getter declaration, [], r.introduce declaration.name⟩]
  | .classDecl name none methods getters =>
    [⟨.functions methods, [.receiver], r.atMembers name none⟩,
      ⟨.getters getters, [.receiver], resolveFunctions methods (r.atMembers name none)⟩]
  | .classDecl name (some superclass) methods getters =>
    [⟨.expr superclass, [], r.atSuperclass name superclass⟩,
      ⟨.functions methods, [.receiver, .superclass], r.atMembers name (some superclass)⟩,
      ⟨.getters getters, [.receiver, .superclass],
        resolveFunctions methods (r.atMembers name (some superclass))⟩]
  | .ifStmt condition consequent none =>
    [⟨.expr condition, [], r⟩, ⟨.stmt consequent, [], condition.resolve r⟩]
  | .ifStmt condition consequent (some alternative) =>
    [⟨.expr condition, [], r⟩, ⟨.stmt consequent, [], condition.resolve r⟩,
      ⟨.stmt alternative, [], consequent.resolve (condition.resolve r)⟩]
  | .whileStmt condition body =>
    [⟨.expr condition, [], r⟩,
      ⟨.stmt body, [], (condition.resolve r).enterLoop⟩]
  | .breakStmt _ => []
  | .returnStmt _ none => []
  | .returnStmt keyword (some value) =>
    [⟨.expr value, [], r.failIf (!r.inFunction) .returnAtTop keyword⟩]

/-- The parts of a place, walked through in order from a state. -/
def Place.parts (r : Resolution) : Place → List Part
  | .expr e => e.parts r
  | .exprs [] => []
  | .exprs (e :: es) => [⟨.expr e, [], r⟩, ⟨.exprs es, [], e.resolve r⟩]
  | .function d => [⟨.stmts d.body, [.call], r.enterFunction d.params⟩]
  | .functions [] => []
  | .functions (d :: ds) => [⟨.function d, [], r⟩, ⟨.functions ds, [], d.resolve r⟩]
  | .getter d => [⟨.stmts d.body, [.call], r.enterFunction []⟩]
  | .getters [] => []
  | .getters (d :: ds) => [⟨.getter d, [], r⟩, ⟨.getters ds, [], d.resolve r⟩]
  | .stmt s => s.parts r
  | .stmts [] => []
  | .stmts (s :: ss) => [⟨.stmt s, [], r⟩, ⟨.stmts ss, [], s.resolve r⟩]

/-- The walk through a program comes by a place in a state, with scopes open for the given. -/
inductive Located (p : Program) : List FrameKind → Resolution → Place → Prop
  | program : Located p [] .start (.stmts p)
  | part {ks : List FrameKind} {r : Resolution} {x : Place} {y : Part} :
    Located p ks r x → y ∈ x.parts r → Located p (y.opened ++ ks) y.state y.place

/-! ### What the walk found at a place -/

/-- A table gives the nodes that were walked by between two states the distances that were found,
and no mistake was. -/
structure Resolution.Agrees (table : Distances) (ids : List NodeId) (r r' : Resolution) :
    Prop where
  nodup : ids.Nodup
  errors_eq : r'.errors = #[]
  links : ∃ links, r'.found.toList = r.found.toList ++ links ∧
    ∀ id ∈ ids, ∀ distance, table.get? id = some distance ↔ (id, distance) ∈ links

namespace Resolution

lemma Noted.errors_eq {ids : List NodeId} {r r' : Resolution} (h : Noted ids r r')
    (he : r'.errors = #[]) : r.errors = #[] := by
  obtain ⟨mistakes, hm⟩ := h.errors
  rw [he] at hm
  simp only [List.nil_eq, List.append_eq_nil_iff, Array.toList_eq_nil_iff] at hm
  exact hm.1

namespace Agrees

variable {table : Distances} {ids ids' : List NodeId} {r r' r'' r₁ r₁' : Resolution}

/-- Scopes and surroundings do not matter. -/
lemma congr (h : Agrees table ids r r') (hf : r₁.found = r.found) (hf' : r₁'.found = r'.found)
    (he : r₁'.errors = r'.errors) : Agrees table ids r₁ r₁' := by
  refine ⟨h.nodup, ?_, ?_⟩
  · rw [he, h.errors_eq]
  · rw [hf, hf']
    exact h.links

/-- A walk in two parts, of which each comes by nodes of its own. -/
lemma split (h : Agrees table (ids ++ ids') r r'') (hw : Noted ids r r')
    (hw' : Noted ids' r' r'') : Agrees table ids r r' ∧ Agrees table ids' r' r'' := by
  obtain ⟨links, hl, hi⟩ := h.links
  obtain ⟨links₁, hl₁, hi₁⟩ := hw.found
  obtain ⟨links₂, hl₂, hi₂⟩ := hw'.found
  obtain ⟨hn₁, hn₂, hd⟩ := List.nodup_append.mp h.nodup
  obtain rfl : links = links₁ ++ links₂ := by
    rw [hl₂, hl₁, List.append_assoc] at hl
    exact (List.append_cancel_left hl).symm
  constructor
  · refine ⟨hn₁, hw'.errors_eq h.errors_eq, links₁, hl₁, fun id hid distance => ?_⟩
    rw [hi id (List.mem_append_left _ hid), List.mem_append]
    constructor
    · rintro (hm | hm)
      · exact hm
      · exact absurd rfl (hd id hid id (hi₂.subset (List.mem_map_of_mem hm)))
    · exact .inl
  · refine ⟨hn₂, h.errors_eq, links₂, hl₂, fun id hid distance => ?_⟩
    rw [hi id (List.mem_append_right _ hid), List.mem_append]
    constructor
    · rintro (hm | hm)
      · exact absurd rfl (hd id (hi₁.subset (List.mem_map_of_mem hm)) id hid)
      · exact hm
    · exact .inr

/-- A reference that the walk has just come by has the distance of its name. -/
lemma get?_of_link {id : NodeId} {name : Token}
    (h : Agrees table [id] r (r.link id name)) : table.get? id = r.distance? name.lexeme := by
  obtain ⟨links, hl, hi⟩ := h.links
  apply Option.ext
  intro distance
  rw [hi id List.mem_cons_self]
  unfold link at hl
  cases hd : r.distance? name.lexeme with
  | none =>
    rw [hd] at hl
    obtain rfl : links = [] := by simpa using hl
    simp
  | some found =>
    rw [hd] at hl
    obtain rfl : links = [(id, found)] := by simpa using hl.symm
    simp [eq_comm]

end Agrees

end Resolution

/-- A table agrees with the walk through a part. -/
def Part.Agrees (table : Distances) (y : Part) : Prop :=
  Resolution.Agrees table y.place.ids y.state (y.place.resolve y.state)

lemma Expr.agrees_parts {table : Distances} {e : Expr} {r : Resolution}
    (h : Agrees table e.ids r (e.resolve r)) : ∀ y ∈ e.parts r, y.Agrees table := by
  cases e with
  | literal value => exact forall_mem_none
  | grouping inner => exact forall_mem_single h
  | unary operator operand => exact forall_mem_single h
  | binary left operator right =>
    have hs := h.split (left.walked r).toNoted (right.walked _).toNoted
    exact forall_mem_pair hs.1 hs.2
  | logical left operator right =>
    have hs := h.split (left.walked r).toNoted (right.walked _).toNoted
    exact forall_mem_pair hs.1 hs.2
  | ternary condition first second =>
    have hs := h.split (condition.walked r).toNoted
      ((first.walked _).trans (second.walked _)).toNoted
    have hs' := hs.2.split (first.walked _).toNoted (second.walked _).toNoted
    exact forall_mem_triple hs.1 hs'.1 hs'.2
  | name id name => exact forall_mem_none
  | assign id name value =>
    exact forall_mem_single ((h.split (value.walked r).toNoted (walked_link _ id name).toNoted).1)
  | call callee paren arguments =>
    have hs := h.split (callee.walked r).toNoted (exprs_walked arguments _).toNoted
    exact forall_mem_pair hs.1 hs.2
  | get object name => exact forall_mem_single h
  | nilGet object name => exact forall_mem_single h
  | set object name value =>
    have hs := h.split (object.walked r).toNoted (value.walked _).toNoted
    exact forall_mem_pair hs.1 hs.2
  | this id keyword => exact forall_mem_none
  | super id keyword method => exact forall_mem_none
  | lambda declaration => exact forall_mem_single h

/-- The body of a function, with no mistake in the function. -/
lemma Resolution.Agrees.body {table : Distances} {ids : List NodeId} {r r' : Resolution}
    {params : List Token} (h : Agrees table ids r (r'.leaveFunction r)) :
    Agrees table ids (r.enterFunction params) r' := by
  rw [enterFunction_eq]
  exact h.congr rfl rfl rfl

lemma Stmt.agrees_parts {table : Distances} {s : Stmt} {r : Resolution}
    (h : Agrees table s.ids r (s.resolve r)) : ∀ y ∈ s.parts r, y.Agrees table := by
  cases s with
  | expression value => exact forall_mem_single h
  | print keyword value => exact forall_mem_single h
  | var name initializer =>
    cases initializer with
    | none => exact forall_mem_none
    | some value =>
      apply forall_mem_single
      rw [Stmt.resolve, define_eq] at h
      refine h.congr ?_ rfl rfl
      rw [declare_eq]
  | block body => exact forall_mem_single (h.congr rfl rfl rfl)
  | function declaration =>
    apply forall_mem_single
    refine h.congr ?_ rfl rfl
    rw [introduce_eq]
  | getter declaration =>
    apply forall_mem_single
    refine h.congr ?_ rfl rfl
    rw [introduce_eq]
  | classDecl name superclass methods getters =>
    cases superclass with
    | none =>
      have hm := functions_walked methods (r.atMembers name none)
      have hg := getters_walked getters (resolveFunctions methods (r.atMembers name none))
      have hs : Agrees table (functionsIds methods ++ gettersIds getters) (r.atMembers name none)
          (resolveGetters getters (resolveFunctions methods (r.atMembers name none))) := by
        rw [Stmt.resolve_classDecl_none] at h
        refine h.congr ?_ rfl rfl
        rw [atMembers_none_eq]
      have hs := hs.split hm.toNoted hg.toNoted
      exact forall_mem_pair hs.1 hs.2
    | some superclass =>
      have hw := superclass.walked (r.atSuperclass name superclass)
      have hm := functions_walked methods (r.atMembers name (some superclass))
      have hg := getters_walked getters
        (resolveFunctions methods (r.atMembers name (some superclass)))
      have ho := r.walked_atMembers name superclass
      have hs : Agrees table (superclass.ids ++ (functionsIds methods ++ gettersIds getters))
          (r.atSuperclass name superclass) (resolveGetters getters
            (resolveFunctions methods (r.atMembers name (some superclass)))) := by
        rw [Stmt.resolve_classDecl_some] at h
        exact h.congr (r.atSuperclass_found name superclass) rfl rfl
      have hs := hs.split hw.toNoted (ho.trans (hm.trans hg).toWalked).toNoted
      have hs' := (hs.2.congr (by rw [atMembers_some_eq]) rfl rfl).split hm.toNoted hg.toNoted
      exact forall_mem_triple hs.1 hs'.1 hs'.2
  | ifStmt condition consequent alternative =>
    cases alternative with
    | none =>
      have hs := h.split (condition.walked r).toNoted (consequent.walked _).toNoted
      exact forall_mem_pair hs.1 hs.2
    | some alternative =>
      have hs := h.split (condition.walked r).toNoted
        ((consequent.walked _).trans (alternative.walked _)).toNoted
      have hs' := hs.2.split (consequent.walked _).toNoted (alternative.walked _).toNoted
      exact forall_mem_triple hs.1 hs'.1 hs'.2
  | whileStmt condition body =>
    have hb := body.walked (condition.resolve r).enterLoop
    have hs : Agrees table (condition.ids ++ body.ids) r
        (body.resolve (condition.resolve r).enterLoop) := h.congr rfl rfl rfl
    have hs := hs.split (condition.walked r).toNoted ⟨hb.found, hb.errors⟩
    exact forall_mem_pair hs.1 (hs.2.congr rfl rfl rfl)
  | breakStmt keyword => exact forall_mem_none
  | returnStmt keyword value =>
    cases value with
    | none => exact forall_mem_none
    | some value => exact forall_mem_single (h.congr (failIf_found r _ _ _) rfl rfl)

lemma Place.agrees_parts {table : Distances} {x : Place} {r : Resolution}
    (h : Agrees table x.ids r (x.resolve r)) : ∀ y ∈ x.parts r, y.Agrees table := by
  cases x with
  | expr e => exact Expr.agrees_parts h
  | exprs es =>
    cases es with
    | nil => exact forall_mem_none
    | cons e es =>
      have hs := h.split (e.walked r).toNoted (exprs_walked es _).toNoted
      exact forall_mem_pair hs.1 hs.2
  | function d =>
    apply forall_mem_single
    obtain ⟨name, params, body⟩ := d
    exact Resolution.Agrees.body h
  | functions ds =>
    cases ds with
    | nil => exact forall_mem_none
    | cons d ds =>
      have hs := h.split (d.walked r).toNoted (functions_walked ds _).toNoted
      exact forall_mem_pair hs.1 hs.2
  | getter d =>
    apply forall_mem_single
    obtain ⟨name, body⟩ := d
    exact Resolution.Agrees.body h
  | getters ds =>
    cases ds with
    | nil => exact forall_mem_none
    | cons d ds =>
      have hs := h.split (d.walked r).toNoted (getters_walked ds _).toNoted
      exact forall_mem_pair hs.1 hs.2
  | stmt s => exact Stmt.agrees_parts h
  | stmts ss =>
    cases ss with
    | nil => exact forall_mem_none
    | cons s ss =>
      have hs := h.split (s.walked r).toNoted (stmts_walked ss _).toNoted
      exact forall_mem_pair hs.1 hs.2

/-! ### The shape of parts -/

lemma Expr.wellFormed_parts {e : Expr} {r : Resolution} (h : e.WellFormed) :
    ∀ y ∈ e.parts r, y.place.WellFormed := by
  cases e with
  | literal value => exact forall_mem_none
  | name id name => exact forall_mem_none
  | this id keyword => exact forall_mem_none
  | super id keyword method => exact forall_mem_none
  | ternary condition first second => exact forall_mem_triple h.1 h.2.1 h.2.2
  | assign id name value => exact forall_mem_single h.2
  | binary left operator right => exact forall_mem_pair h.1 h.2
  | logical left operator right => exact forall_mem_pair h.1 h.2
  | call callee paren arguments => exact forall_mem_pair h.1 h.2
  | set object name value => exact forall_mem_pair h.1 h.2
  | _ => exact forall_mem_single h

lemma Stmt.wellFormed_parts {s : Stmt} {r : Resolution} (h : s.WellFormed) :
    ∀ y ∈ s.parts r, y.place.WellFormed := by
  cases s with
  | expression value => exact forall_mem_single h
  | print keyword value => exact forall_mem_single h
  | var name initializer =>
    cases initializer with
    | none => exact forall_mem_none
    | some value => exact forall_mem_single h.2
  | block body => exact forall_mem_single h
  | function declaration => exact forall_mem_single h.2
  | getter declaration => exact forall_mem_single h.2
  | classDecl name superclass methods getters =>
    cases superclass with
    | none => exact forall_mem_pair h.2.1 h.2.2
    | some superclass =>
      obtain ⟨-, ⟨id, superName, rfl, hn⟩, hm, hg⟩ := h
      exact forall_mem_triple hn hm hg
  | ifStmt condition consequent alternative =>
    cases alternative with
    | none => exact forall_mem_pair h.1 h.2.2
    | some alternative => exact forall_mem_triple h.1 h.2.1.2 h.2.2.2
  | whileStmt condition body => exact forall_mem_pair h.1 h.2.2
  | breakStmt keyword => exact forall_mem_none
  | returnStmt keyword value =>
    cases value with
    | none => exact forall_mem_none
    | some value => exact forall_mem_single h

lemma Place.wellFormed_parts {x : Place} {r : Resolution} (h : x.WellFormed) :
    ∀ y ∈ x.parts r, y.place.WellFormed := by
  cases x with
  | expr e => exact Expr.wellFormed_parts h
  | stmt s => exact Stmt.wellFormed_parts h
  | function d =>
    apply forall_mem_single
    obtain ⟨name, params, body⟩ := d
    exact h.2
  | getter d =>
    apply forall_mem_single
    obtain ⟨name, body⟩ := d
    exact h
  | exprs es =>
    cases es with
    | nil => exact forall_mem_none
    | cons e es => exact forall_mem_pair h.1 h.2
  | functions ds =>
    cases ds with
    | nil => exact forall_mem_none
    | cons d ds => exact forall_mem_pair h.1 h.2
  | getters ds =>
    cases ds with
    | nil => exact forall_mem_none
    | cons d ds => exact forall_mem_pair h.1 h.2
  | stmts ss =>
    cases ss with
    | nil => exact forall_mem_none
    | cons s ss => exact forall_mem_pair h.1 h.2

/-! ### The nodes in a place -/

lemma Expr.ids_parts {e : Expr} {r : Resolution} : ∀ y ∈ e.parts r, y.place.ids ⊆ e.ids := by
  cases e <;> simp [Expr.parts, Expr.ids, Place.ids]

lemma Stmt.ids_parts {s : Stmt} {r : Resolution} : ∀ y ∈ s.parts r, y.place.ids ⊆ s.ids := by
  cases s with
  | var name initializer => cases initializer <;> simp [Stmt.parts, Stmt.ids, Place.ids]
  | classDecl name superclass methods getters =>
    cases superclass <;> simp [Stmt.parts, Stmt.ids, Place.ids]
  | ifStmt condition consequent alternative =>
    cases alternative <;> simp [Stmt.parts, Stmt.ids, Place.ids]
  | returnStmt keyword value => cases value <;> simp [Stmt.parts, Stmt.ids, Place.ids]
  | _ => simp [Stmt.parts, Stmt.ids, Place.ids]

lemma Place.ids_parts {x : Place} {r : Resolution} : ∀ y ∈ x.parts r, y.place.ids ⊆ x.ids := by
  cases x with
  | expr e => exact Expr.ids_parts
  | stmt s => exact Stmt.ids_parts
  | function d =>
    obtain ⟨name, params, body⟩ := d
    exact forall_mem_single (List.Subset.refl _)
  | getter d =>
    obtain ⟨name, body⟩ := d
    exact forall_mem_single (List.Subset.refl _)
  | exprs es => cases es <;> simp [Place.parts, Place.ids, exprsIds]
  | functions ds => cases ds <;> simp [Place.parts, Place.ids, functionsIds]
  | getters ds => cases ds <;> simp [Place.parts, Place.ids, gettersIds]
  | stmts ss => cases ss <;> simp [Place.parts, Place.ids, stmtsIds]

/-- The nodes in a place of a program are nodes of the program. -/
lemma Located.ids_subset {p : Program} {ks : List FrameKind} {r : Resolution} {x : Place}
    (h : Located p ks r x) : x.ids ⊆ stmtsIds p := by
  induction h with
  | program => exact List.Subset.refl _
  | part _ hy ih => exact List.Subset.trans (Place.ids_parts _ hy) ih

end Scripting
