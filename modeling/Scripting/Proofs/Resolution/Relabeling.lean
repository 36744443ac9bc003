import Scripting.Proofs.Program.Relabeling

/-!
# Relabelled names are resolved alike

The walks through two places that differ by a relabelling go together: the scopes that are open have
the same names, spelled as the marks say, and what is found is the same. A reference keeps its
distance because nothing within a marked scope has the new spelling from the start, so that the new
spelling is found exactly where the old one was, and the old one is found where it was without
meaning the marked scope.
-/

namespace Scripting

open Resolution Relabeling

namespace Relabeling

variable (ρ : Relabeling) {α : Type}

/-- A record whose names are spelled as its mark says. -/
def record (mark : Bool) (r : Record α) : Record α :=
  r.map fun (name, entry) => (ρ.word mark name, entry)

@[simp] lemma record_false (r : Record α) : ρ.record false r = r := by
  simp [record]

@[simp] lemma record_nil (mark : Bool) : ρ.record mark ([] : Record α) = [] := rfl

lemma record_cons (mark : Bool) (name : String) (entry : α) (r : Record α) :
    ρ.record mark ((name, entry) :: r) = (ρ.word mark name, entry) :: ρ.record mark r := rfl

variable {ρ} {mark : Bool} {name other : String} {r : Record α}

/-- Names that are not spelled in the new way stay apart. -/
lemma word_inj (h : mark = true → name ≠ ρ.new) (h' : mark = true → other ≠ ρ.new) :
    ρ.word mark name = ρ.word mark other ↔ name = other := by
  cases mark with
  | false => simp
  | true =>
    have h := h rfl
    have h' := h' rfl
    simp only [word, true_and]
    split_ifs with hn ho ho
    · simp [hn, ho]
    · exact ⟨fun he => absurd he.symm h', fun he => absurd (he ▸ hn) ho⟩
    · exact ⟨fun he => absurd he h, fun he => absurd (he ▸ ho) hn⟩
    · rfl

lemma has_cons_eq_false {entry : α} (h : Record.has ((other, entry) :: r) name = false) :
    other ≠ name ∧ r.has name = false := by
  have hne : other ≠ name := by
    rintro rfl
    simp [Record.has, Record.get?] at h
  have hb : (name == other) = false := by simpa using hne.symm
  simp only [Record.has, Record.get?, List.lookup_cons, hb] at h ⊢
  exact ⟨hne, h⟩

/-- A record has the same entry under a name, however that is spelled. -/
lemma get?_record (hr : mark = true → r.has ρ.new = false) (hn : mark = true → name ≠ ρ.new) :
    (ρ.record mark r).get? (ρ.word mark name) = r.get? name := by
  induction r with
  | nil => rfl
  | cons head rest ih =>
    obtain ⟨other, entry⟩ := head
    have ho : mark = true → other ≠ ρ.new := fun hm => (has_cons_eq_false (hr hm)).1
    have ih := ih fun hm => (has_cons_eq_false (hr hm)).2
    have hb : (ρ.word mark name == ρ.word mark other) = (name == other) := by
      rw [Bool.eq_iff_iff, beq_iff_eq, beq_iff_eq, word_inj hn ho]
    simp only [record_cons, Record.get?, List.lookup_cons, hb] at ih ⊢
    rw [ih]

lemma has_record (hr : mark = true → r.has ρ.new = false) (hn : mark = true → name ≠ ρ.new) :
    (ρ.record mark r).has (ρ.word mark name) = r.has name := by
  rw [Record.has, get?_record hr hn]
  rfl

/-- Entering a name and spelling it otherwise may be done in any order. -/
lemma record_insert (hr : mark = true → r.has ρ.new = false) (hn : mark = true → name ≠ ρ.new)
    (entry : α) :
    ρ.record mark (r.insert name entry) = (ρ.record mark r).insert (ρ.word mark name) entry := by
  induction r with
  | nil => rfl
  | cons head rest ih =>
    obtain ⟨other, held⟩ := head
    have ho : mark = true → other ≠ ρ.new := fun hm => (has_cons_eq_false (hr hm)).1
    have ih := ih fun hm => (has_cons_eq_false (hr hm)).2
    simp only [record_cons, Record.insert, word_inj ho hn]
    split
    · rfl
    · rw [record_cons, ih]

lemma has_insert_new {entry : α} (hr : r.has ρ.new = false) (hn : name ≠ ρ.new) :
    (r.insert name entry).has ρ.new = false := by
  simp [hr, Ne.symm hn]

/-- A name that a record does not have, it does not have when others are spelled otherwise. -/
lemma has_record_eq_false (hn : mark = true → name ≠ ρ.new) (h : r.has name = false) :
    (ρ.record mark r).has name = false := by
  induction r with
  | nil => rfl
  | cons head rest ih =>
    obtain ⟨other, entry⟩ := head
    obtain ⟨hne, hrest⟩ := has_cons_eq_false h
    have hw : ρ.word mark other ≠ name := by
      unfold word
      split
      · next hm => exact fun he => hn hm.1 he.symm
      · exact hne
    have hb : (name == ρ.word mark other) = false := by simpa using hw.symm
    have ih := ih hrest
    simp only [record_cons, Record.has, Record.get?, List.lookup_cons, hb] at ih ⊢
    exact ih

/-- The new spelling is in no record that has neither of the two. -/
lemma has_new_record_eq_false (hold : r.has ρ.old = false) (hnew : r.has ρ.new = false) :
    (ρ.record mark r).has ρ.new = false := by
  induction r with
  | nil => rfl
  | cons head rest ih =>
    obtain ⟨other, entry⟩ := head
    obtain ⟨ho, hold⟩ := has_cons_eq_false hold
    obtain ⟨hn, hnew⟩ := has_cons_eq_false hnew
    have hb : (ρ.new == ρ.word mark other) = false := by
      rw [ρ.word_of_ne ho]
      simpa using hn.symm
    have ih := ih hold hnew
    simp only [record_cons, Record.has, Record.get?, List.lookup_cons, hb] at ih ⊢
    exact ih

end Relabeling

/-! ### Scopes -/

/-- Scopes with marks, and the same scopes with names spelled as the marks say. The outermost mark
is for the global names, which have no scope. -/
inductive ScopesRelabeled (ρ : Relabeling) : List Bool → List Scope → List Scope → Prop
  | outermost : ScopesRelabeled ρ [false] [] []
  | scope {mark : Bool} {marks : List Bool} {scope : Scope} {scopes scopes' : List Scope} :
    (true ∈ mark :: marks → scope.has ρ.new = false) → ScopesRelabeled ρ marks scopes scopes' →
      ScopesRelabeled ρ (mark :: marks) (scope :: scopes) (ρ.record mark scope :: scopes')

namespace ScopesRelabeled

variable {ρ : Relabeling} {mark : Bool} {marks : List Bool} {scopes scopes' : List Scope}

/-- What holds within marked scopes holds in one that has a mark itself. -/
lemma of_mark {P : Prop} (h : true ∈ mark :: marks → P) : mark = true → P := by
  rintro rfl
  exact h List.mem_cons_self

/-- The names of a scope are entered alike. -/
lemma enter (h : ScopesRelabeled ρ marks scopes scopes') {name : String}
    (hn : true ∈ marks → name ≠ ρ.new) (complete : Bool) :
    ScopesRelabeled ρ marks (enterScope scopes name complete)
      (enterScope scopes' (ρ.word (marks.headD false) name) complete) := by
  cases h with
  | outermost => exact .outermost
  | @scope mark marks scope scopes scopes' hscope hrest =>
    rw [enterScope_cons, enterScope_cons]
    have hinsert := Relabeling.record_insert (of_mark hscope) (of_mark hn) complete
    rw [List.headD_cons, ← hinsert]
    exact .scope (fun hm => Relabeling.has_insert_new (hscope hm) (hn hm)) hrest

lemma ne_nil (h : ScopesRelabeled ρ marks scopes scopes') : marks ≠ [] := by
  cases h <;> simp

/-- A name that a scope does not have is not in it with the spelling that it has elsewhere. The new
spelling is in none of the scopes on the way there, no more than the old one. -/
lemma has_word_eq_false {scope : Scope} {name : String} {reach : Bool}
    (hscope : true ∈ mark :: marks → scope.has ρ.new = false)
    (hn : true ∈ mark :: marks → name ≠ ρ.new) (hreach : reach = true → true ∈ mark :: marks)
    (h : scope.has name = false) : (ρ.record mark scope).has (ρ.word reach name) = false := by
  unfold Relabeling.word
  split
  · next hold =>
    obtain ⟨hr, rfl⟩ := hold
    exact Relabeling.has_new_record_eq_false h (hscope (hreach hr))
  · exact Relabeling.has_record_eq_false (of_mark hn) h

/-- A name is found in the same scope, when it is spelled as the mark of that scope says. -/
lemma findIdx? (h : ScopesRelabeled ρ marks scopes scopes') {name : String} {found : Option Nat}
    (hn : true ∈ marks → name ≠ ρ.new) (hfound : scopes.findIdx? (Record.has · name) = found) :
    scopes'.findIdx? (Record.has · (ρ.word (markAt marks found) name)) = found := by
  induction h generalizing found with
  | outermost => exact hfound
  | @scope mark marks scope scopes scopes' hscope hrest ih =>
    rw [List.findIdx?_cons] at hfound ⊢
    cases hhas : scope.has name with
    | true =>
      rw [hhas] at hfound
      obtain rfl : some 0 = found := hfound
      rw [show markAt (mark :: marks) (some 0) = mark from rfl,
        (Relabeling.has_record (of_mark hscope) (of_mark hn)).trans hhas]
      rfl
    | false =>
      rw [hhas] at hfound
      have hmark : markAt (mark :: marks) found =
          markAt marks (scopes.findIdx? (Record.has · name)) := by
        rw [← hfound]
        cases scopes.findIdx? (Record.has · name) <;> rfl
      rw [has_word_eq_false hscope hn mem_of_markAt hhas, hmark,
        ih (fun hm => hn (List.mem_cons_of_mem _ hm)) rfl]
      exact hfound

/-- What the innermost scope holds under a name that is spelled as the mark of its scope says. -/
lemma get?_head (h : ScopesRelabeled ρ marks scopes scopes') {name : String} {complete : Bool}
    (hn : true ∈ marks → name ≠ ρ.new)
    (hget : scopes'.head?.bind (Record.get? ·
      (ρ.word (markAt marks (scopes.findIdx? (Record.has · name))) name)) = some complete) :
    scopes.head?.bind (Record.get? · name) = some complete := by
  cases h with
  | outermost => cases hget
  | @scope mark marks scope scopes scopes' hscope hrest =>
    generalize hfound : (scope :: scopes).findIdx? (Record.has · name) = found at hget
    rw [List.findIdx?_cons] at hfound
    cases hhas : scope.has name with
    | true =>
      rw [hhas] at hfound
      obtain rfl : some 0 = found := hfound
      exact (Relabeling.get?_record (of_mark hscope) (of_mark hn)).symm.trans hget
    | false =>
      have hhas' : (ρ.record mark scope).has (ρ.word (markAt (mark :: marks) found) name) = false :=
        has_word_eq_false hscope hn mem_of_markAt hhas
      have hget : (ρ.record mark scope).get? (ρ.word (markAt (mark :: marks) found) name) =
          some complete := hget
      rw [Record.has, hget] at hhas'
      cases hhas'

end ScopesRelabeled

/-! ### The walk -/

/-- Two walks go together: all but the scopes is the same. -/
structure Resolution.Relabeled (ρ : Relabeling) (marks : List Bool) (r r' : Resolution) :
    Prop where
  scopes : ScopesRelabeled ρ marks r.scopes r'.scopes
  eq : r' = { r with scopes := r'.scopes }

namespace Resolution.Relabeled

variable {ρ : Relabeling} {mark : Bool} {marks : List Bool} {r r' : Resolution}

/-- A name that is entered with its spelling. -/
lemma enter (h : r.Relabeled ρ marks r') {t t' : Token}
    (ht : ρ.Renames marks (marks.headD false) t t') (complete : Bool) :
    (r.enter t.lexeme complete).Relabeled ρ marks (r'.enter t'.lexeme complete) := by
  obtain ⟨hs, he⟩ := h
  rw [enter_eq, enter_eq, ht.eq]
  refine ⟨hs.enter ht.ne complete, ?_⟩
  rw [he]

lemma declare (h : r.Relabeled ρ marks r') {t t' : Token}
    (ht : ρ.Renames marks (marks.headD false) t t') :
    (r.declare t).Relabeled ρ marks (r'.declare t') :=
  h.enter ht false

lemma define (h : r.Relabeled ρ marks r') {t t' : Token}
    (ht : ρ.Renames marks (marks.headD false) t t') :
    (r.define t).Relabeled ρ marks (r'.define t') :=
  h.enter ht true

lemma introduce (h : r.Relabeled ρ marks r') {t t' : Token}
    (ht : ρ.Renames marks (marks.headD false) t t') :
    (r.introduce t).Relabeled ρ marks (r'.introduce t') :=
  (h.declare ht).define ht

lemma openScope (h : r.Relabeled ρ marks r') (mark : Bool) :
    r.openScope.Relabeled ρ (mark :: marks) r'.openScope := by
  obtain ⟨hs, he⟩ := h
  constructor
  · exact ScopesRelabeled.scope (fun _ => rfl) hs
  · rw [he]
    rfl

lemma closeScope (h : r.Relabeled ρ (mark :: marks) r') (hm : marks ≠ []) :
    r.closeScope.Relabeled ρ marks r'.closeScope := by
  obtain ⟨hs, he⟩ := h
  refine ⟨?_, ?_⟩
  · change ScopesRelabeled ρ marks r.scopes.tail r'.scopes.tail
    generalize r.scopes = scopes at hs
    generalize r'.scopes = scopes' at hs
    cases hs with
    | outermost => exact absurd rfl hm
    | scope _ hrest => exact hrest
  · rw [he]
    rfl

lemma enterFunction (h : r.Relabeled ρ marks r') {params params' : List Token}
    (hp : List.Forall₂ (ρ.Renames (mark :: marks) mark) params params') :
    (r.enterFunction params).Relabeled ρ (mark :: marks) (r'.enterFunction params') := by
  have fold : ∀ r r' : Resolution, r.Relabeled ρ (mark :: marks) r' →
      (params.foldl Resolution.introduce r).Relabeled ρ (mark :: marks)
        (params'.foldl Resolution.introduce r') := by
    induction hp with
    | nil => exact fun _ _ h => h
    | cons ht _ ih => exact fun _ _ h => ih _ _ (h.introduce ht)
  have hinside : Resolution.Relabeled ρ marks { r with inFunction := true, loopDepth := 0 }
      { r' with inFunction := true, loopDepth := 0 } := ⟨h.scopes, by rw [h.eq]⟩
  exact fold _ _ (hinside.openScope mark)

lemma leaveFunction {inner inner' : Resolution} (h : r.Relabeled ρ marks r')
    (hi : inner.Relabeled ρ (mark :: marks) inner') :
    (inner.leaveFunction r).Relabeled ρ marks (inner'.leaveFunction r') := by
  obtain ⟨hs, he⟩ := hi.closeScope h.scopes.ne_nil
  refine ⟨hs, ?_⟩
  rw [Resolution.leaveFunction, Resolution.leaveFunction, he, h.eq]

/-- A name is found at the same distance. -/
lemma distance?_eq (h : r.Relabeled ρ marks r') {id : NodeId} {t t' : Token}
    (hd : ρ.distance? id = r.distance? t.lexeme)
    (ht : ρ.Renames marks (ρ.reaches marks id) t t') :
    r'.distance? t'.lexeme = r.distance? t.lexeme := by
  rw [ht.eq, reaches, hd]
  exact h.scopes.findIdx? ht.ne rfl

/-- A reference gets the same distance. -/
lemma link (h : r.Relabeled ρ marks r') {id : NodeId} {t t' : Token}
    (hd : ρ.distance? id = r.distance? t.lexeme)
    (ht : ρ.Renames marks (ρ.reaches marks id) t t') :
    (r.link id t).Relabeled ρ marks (r'.link id t') := by
  obtain ⟨hs, he⟩ := h
  unfold Resolution.link
  rw [distance?_eq ⟨hs, he⟩ hd ht]
  cases r.distance? t.lexeme with
  | none => exact ⟨hs, he⟩
  | some distance =>
    refine ⟨hs, ?_⟩
    rw [he]

/-- A name that was declared and is not complete is so with its other spelling. -/
lemma isIncomplete (h : r.Relabeled ρ marks r') {id : NodeId} {t t' : Token}
    (hd : ρ.distance? id = r.distance? t.lexeme)
    (ht : ρ.Renames marks (ρ.reaches marks id) t t')
    (hi : r'.isIncomplete t'.lexeme = true) : r.isIncomplete t.lexeme = true := by
  rw [ht.eq, reaches, hd] at hi
  exact decide_eq_true (h.scopes.get?_head ht.ne (of_decide_eq_true hi))

/-- Where there was no mistake, there is none. -/
lemma failIf (h : r.Relabeled ρ marks r') {mistaken mistaken' : Bool} {fault fault' : StaticFault}
    {t t' : Token} (he : (r.failIf mistaken fault t).errors = #[])
    (hm : mistaken' = true → mistaken = true) :
    (r.failIf mistaken fault t).Relabeled ρ marks (r'.failIf mistaken' fault' t') := by
  cases mistaken with
  | true => simp [Resolution.failIf, Resolution.fail] at he
  | false =>
    obtain rfl : mistaken' = false := Bool.eq_false_iff.mpr fun h => Bool.false_ne_true (hm h)
    exact h

/-- The walk is in another class, within the same scopes. -/
lemma withContext (h : r.Relabeled ρ marks r') (classContext : ClassContext) :
    Resolution.Relabeled ρ marks { r with classContext } { r' with classContext } := by
  obtain ⟨hs, he⟩ := h
  exact ⟨hs, by rw [he]⟩

/-- The walk is again in the class that it was in before. -/
lemma withOuterContext {outer outer' : Resolution} (h : r.Relabeled ρ marks r')
    (ho : outer.Relabeled ρ marks outer') :
    Resolution.Relabeled ρ marks { r with classContext := outer.classContext }
      { r' with classContext := outer'.classContext } := by
  rw [ho.eq]
  exact h.withContext _

/-- The walk is in another loop, within the same scopes. -/
lemma withDepth (h : r.Relabeled ρ marks r') (depth : Nat → Nat) :
    Resolution.Relabeled ρ marks { r with loopDepth := depth r.loopDepth }
      { r' with loopDepth := depth r'.loopDepth } := by
  obtain ⟨hs, he⟩ := h
  exact ⟨hs, by rw [he]⟩

/-- A scope with a reserved word in it. -/
lemma openWord (h : r.Relabeled ρ marks r') {word : String} (hw : word ≠ ρ.new) :
    (r.openScope.enter word true).Relabeled ρ (false :: marks) (r'.openScope.enter word true) := by
  obtain ⟨hs, he⟩ := h
  have hempty : true ∈ false :: marks → Record.has ([(word, true)] : Scope) ρ.new = false := by
    simp [Record.has, Record.get?, Ne.symm hw]
  have hscope := ScopesRelabeled.scope hempty hs
  rw [ρ.record_false] at hscope
  constructor
  · rw [enter_eq, enter_eq]
    exact hscope
  · rw [enter_eq, enter_eq, he]
    rfl

/-- The walk comes to the superclass of a class, which is not the class itself. -/
lemma atSuperclass (h : r.Relabeled ρ marks r') {name : Token} {superclass superclass' : Expr}
    (hname : ρ.Renames marks (marks.headD false) name name)
    (hs : Scripting.Relabeled ρ marks (.expr superclass) (.expr superclass'))
    (he : (r.atSuperclass name superclass).errors = #[]) :
    (r.atSuperclass name superclass).Relabeled ρ marks (r'.atSuperclass name superclass') := by
  have hinside := (h.introduce hname).withContext .derived
  cases hs with
  | @name _ id superName superName' hsuper =>
    refine hinside.failIf he fun heq => ?_
    have heq : ρ.word (ρ.reaches marks id) superName.lexeme = name.lexeme := by
      simpa [hsuper.eq, token] using heq
    unfold word at heq
    split at heq
    · next hreach => exact absurd heq.symm (hname.ne (mem_of_markAt hreach.1))
    · exact decide_eq_true heq
  | _ => exact hinside

section Nodes

variable {table : Distances} (htable : ρ.distance? = table.get?) (h : r.Relabeled ρ marks r')
  {id : NodeId}

include htable h

/-- A reference has the distance that the table has for it. -/
lemma reference {t t' : Token} (ha : Agrees table [id] r (r.link id t))
    (ht : ρ.Renames marks (ρ.reaches marks id) t t') :
    (r.link id t).Relabeled ρ marks (r'.link id t') := by
  apply h.link _ ht
  rw [htable]
  exact ha.get?_of_link

/-- A variable is not read in its own initializer, with either spelling. -/
lemma name {name name' : Token} (ha : Agrees table [id] r ((Expr.name id name).resolve r))
    (ht : ρ.Renames marks (ρ.reaches marks id) name name') :
    ((Expr.name id name).resolve r).Relabeled ρ marks ((Expr.name id name').resolve r') := by
  have hlink : Agrees table [id]
      (r.failIf (r.isIncomplete name.lexeme) .readInOwnInitializer name) _ :=
    ha.congr (failIf_found r _ _ _) rfl rfl
  have hd : ρ.distance? id = r.distance? name.lexeme := by
    rw [htable, hlink.get?_of_link]
    simp only [Resolution.distance?, failIf_scopes]
  have he := (walked_link _ id name).toNoted.errors_eq hlink.errors_eq
  exact reference htable (h.failIf he (h.isIncomplete hd ht)) hlink ht

/-- A `this` that is not misplaced. -/
lemma this {keyword : Token} (ha : Agrees table [id] r ((Expr.this id keyword).resolve r))
    (ht : ρ.Renames marks (ρ.reaches marks id) keyword keyword) :
    ((Expr.this id keyword).resolve r).Relabeled ρ marks
      ((Expr.this id keyword).resolve r') := by
  have hcontext : r'.classContext = r.classContext := by rw [h.eq]
  rw [Expr.resolve] at ha ⊢
  rw [Expr.resolve, hcontext]
  cases hc : r.classContext with
  | outside =>
    rw [hc] at ha
    exact absurd ha.errors_eq Array.push_ne_empty
  | plain =>
    rw [hc] at ha
    exact reference htable h ha ht
  | derived =>
    rw [hc] at ha
    exact reference htable h ha ht

/-- A `super` that is not misplaced. -/
lemma super {keyword : Token} (method : Token)
    (ha : Agrees table [id] r ((Expr.super id keyword method).resolve r))
    (ht : ρ.Renames marks (ρ.reaches marks id) keyword keyword) :
    ((Expr.super id keyword method).resolve r).Relabeled ρ marks
      ((Expr.super id keyword method).resolve r') := by
  have hcontext : r'.classContext = r.classContext := by rw [h.eq]
  rw [Expr.resolve] at ha ⊢
  rw [Expr.resolve, hcontext]
  cases hc : r.classContext with
  | outside =>
    rw [hc] at ha
    exact absurd ha.errors_eq Array.push_ne_empty
  | plain =>
    rw [hc] at ha
    exact absurd ha.errors_eq Array.push_ne_empty
  | derived =>
    rw [hc] at ha
    exact reference htable h ha ht

end Nodes

end Resolution.Relabeled

section

variable {α : Type} {P : α → Prop} {a b c : α}

lemma of_forall_mem_single (h : ∀ y ∈ [a], P y) : P a := by
  simpa using h

lemma of_forall_mem_pair (h : ∀ y ∈ [a, b], P y) : P a ∧ P b := by
  simpa using h

lemma of_forall_mem_triple (h : ∀ y ∈ [a, b, c], P y) : P a ∧ P b ∧ P c := by
  simpa using h

end

/-- The walks through two places that differ by a relabelling go together, unless there is a
mistake. -/
theorem Relabeled.resolve {ρ : Relabeling} {table : Distances} {marks : List Bool} {x x' : Place}
    (h : Relabeled ρ marks x x') (htable : ρ.distance? = table.get?) (hnames : ρ.OfNames)
    {r r' : Resolution} (hr : r.Relabeled ρ marks r')
    (ha : Resolution.Agrees table x.ids r (x.resolve r)) :
    (x.resolve r).Relabeled ρ marks (x'.resolve r') := by
  have hthis : "this" ≠ ρ.new := hnames.ne_new TokenKind.ofWord_this_ne
  have hsuper : "super" ≠ ρ.new := hnames.ne_new TokenKind.ofWord_super_ne
  -- the walks through the parts follow one another
  induction h generalizing r r' with
  | literal => exact hr
  | grouping _ ih => exact ih hr ha
  | unary _ ih => exact ih hr ha
  | binary _ _ ihleft ihright =>
    obtain ⟨hleft, hright⟩ := of_forall_mem_pair (Place.agrees_parts ha)
    exact ihright (ihleft hr hleft) hright
  | logical _ _ ihleft ihright =>
    obtain ⟨hleft, hright⟩ := of_forall_mem_pair (Place.agrees_parts ha)
    exact ihright (ihleft hr hleft) hright
  | ternary _ _ _ ihcondition ihfirst ihsecond =>
    obtain ⟨hcondition, hfirst, hsecond⟩ := of_forall_mem_triple (Place.agrees_parts ha)
    exact ihsecond (ihfirst (ihcondition hr hcondition) hfirst) hsecond
  | name ht => exact hr.name htable ha ht
  | @assign _ id name name' value value' ht _ ih =>
    obtain ⟨hvalue, hlink⟩ := Resolution.Agrees.split ha (value.walked r).toNoted
      (walked_link _ id name).toNoted
    exact (ih hr hvalue).reference htable hlink ht
  | call _ _ ihcallee iharguments =>
    obtain ⟨hcallee, harguments⟩ := of_forall_mem_pair (Place.agrees_parts ha)
    exact iharguments (ihcallee hr hcallee) harguments
  | get _ ih => exact ih hr ha
  | nilGet _ ih => exact ih hr ha
  | set _ _ ihobject ihvalue =>
    obtain ⟨hobject, hvalue⟩ := of_forall_mem_pair (Place.agrees_parts ha)
    exact ihvalue (ihobject hr hobject) hvalue
  | this ht => exact hr.this htable ha ht
  | @super _ id keyword method ht => exact hr.super htable method ha ht
  | lambda _ ih => exact ih hr ha
  | noExprs => exact hr
  | exprs _ _ ih ihrest =>
    obtain ⟨hfirst, hrest⟩ := of_forall_mem_pair (Place.agrees_parts ha)
    exact ihrest (ih hr hfirst) hrest
  | function hparams _ ih =>
    have hbody := of_forall_mem_single (Place.agrees_parts ha)
    exact hr.leaveFunction (ih (hr.enterFunction hparams) hbody)
  | noFunctions => exact hr
  | functions _ _ ih ihrest =>
    obtain ⟨hfirst, hrest⟩ := of_forall_mem_pair (Place.agrees_parts ha)
    exact ihrest (ih hr hfirst) hrest
  | getter _ ih =>
    have hbody := of_forall_mem_single (Place.agrees_parts ha)
    exact hr.leaveFunction (ih (hr.enterFunction .nil) hbody)
  | noGetters => exact hr
  | getters _ _ ih ihrest =>
    obtain ⟨hfirst, hrest⟩ := of_forall_mem_pair (Place.agrees_parts ha)
    exact ihrest (ih hr hfirst) hrest
  | expression _ ih => exact ih hr ha
  | print _ ih => exact ih hr ha
  | uninitialized ht => exact hr.introduce ht
  | initialized ht _ ih =>
    have hvalue := of_forall_mem_single (Place.agrees_parts ha)
    exact (ih (hr.declare ht) hvalue).define ht
  | block _ ih =>
    have hbody := of_forall_mem_single (Place.agrees_parts ha)
    exact (ih (hr.openScope _) hbody).closeScope hr.scopes.ne_nil
  | functionDecl hname hd ih =>
    have hdeclaration := of_forall_mem_single (Place.agrees_parts ha)
    rw [Place.resolve, Place.resolve, Stmt.resolve, Stmt.resolve, hd.function_name]
    exact ih (hr.introduce hname) hdeclaration
  | getterDecl hname hd ih =>
    have hdeclaration := of_forall_mem_single (Place.agrees_parts ha)
    rw [Place.resolve, Place.resolve, Stmt.resolve, Stmt.resolve, hd.getter_name]
    exact ih (hr.introduce hname) hdeclaration
  | plainClass hname _ _ ihmethods ihgetters =>
    obtain ⟨hmethods, hgetters⟩ := of_forall_mem_pair (Place.agrees_parts ha)
    rw [Place.resolve, Place.resolve, Stmt.resolve_classDecl_none, Stmt.resolve_classDecl_none]
    have hmembers := ((hr.introduce hname).withContext .plain).openWord hthis
    have hdone := ihgetters (ihmethods hmembers hmethods) hgetters
    exact (hdone.closeScope hr.scopes.ne_nil).withOuterContext hr
  | derivedClass hname hs _ _ ihsuperclass ihmethods ihgetters =>
    obtain ⟨hsuperclass, hmethods, hgetters⟩ := of_forall_mem_triple (Place.agrees_parts ha)
    rw [Place.resolve, Place.resolve, Stmt.resolve_classDecl_some, Stmt.resolve_classDecl_some]
    have hbefore := hr.atSuperclass hname hs
      ((Expr.walked _ _).toNoted.errors_eq hsuperclass.errors_eq)
    have hmembers := ((ihsuperclass hbefore hsuperclass).openWord hsuper).openWord hthis
    have hdone := ihgetters (ihmethods hmembers hmethods) hgetters
    exact ((hdone.closeScope (List.cons_ne_nil _ _)).closeScope
      hr.scopes.ne_nil).withOuterContext hr
  | ifOnly _ _ ihcondition ihconsequent =>
    obtain ⟨hcondition, hconsequent⟩ := of_forall_mem_pair (Place.agrees_parts ha)
    exact ihconsequent (ihcondition hr hcondition) hconsequent
  | ifElse _ _ _ ihcondition ihconsequent ihalternative =>
    obtain ⟨hcondition, hconsequent, halternative⟩ := of_forall_mem_triple (Place.agrees_parts ha)
    exact ihalternative (ihconsequent (ihcondition hr hcondition) hconsequent) halternative
  | whileStmt _ _ ihcondition ihbody =>
    obtain ⟨hcondition, hbody⟩ := of_forall_mem_pair (Place.agrees_parts ha)
    have hinside := (ihcondition hr hcondition).withDepth (· + 1)
    exact (ihbody hinside hbody).withDepth (· - 1)
  | breakStmt =>
    refine hr.failIf ha.errors_eq ?_
    rw [hr.eq]
    exact id
  | returnNothing =>
    refine hr.failIf ha.errors_eq ?_
    rw [hr.eq]
    exact id
  | @returnValue _ keyword value _ _ ih =>
    have hvalue := of_forall_mem_single (Place.agrees_parts ha)
    have he := (value.walked _).toNoted.errors_eq hvalue.errors_eq
    refine ih (hr.failIf he ?_) hvalue
    rw [hr.eq]
    exact id
  | noStmts => exact hr
  | stmts _ _ ih ihrest =>
    obtain ⟨hfirst, hrest⟩ := of_forall_mem_pair (Place.agrees_parts ha)
    exact ihrest (ih hr hfirst) hrest

/-- Where a program has no mistake, a relabelled one has none either, and its references have the
same distances. -/
theorem Relabeled.resolve_program {ρ : Relabeling} {table : Distances} {p p' : Program}
    (h : Relabeled ρ [false] (.stmts p) (.stmts p')) (htable : ρ.distance? = table.get?)
    (hnames : ρ.OfNames) (ha : Resolution.Agrees table (stmtsIds p) .start p.resolve) :
    p'.resolve.found = p.resolve.found ∧ p'.resolve.errors = #[] := by
  have hr : Resolution.start.Relabeled ρ [false] .start := ⟨.outermost, rfl⟩
  have hdone : p'.resolve = { p.resolve with scopes := p'.resolve.scopes } :=
    (h.resolve htable hnames hr ha).eq
  rw [hdone]
  exact ⟨rfl, ha.errors_eq⟩

end Scripting
