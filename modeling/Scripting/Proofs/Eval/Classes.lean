import Scripting.Proofs.Eval.Outcomes
import Scripting.Proofs.Eval.Statements

/-!
# What a declaration of a class leaves

A class is made once, when its declaration is executed, and what it has under a name is the last
that its body declares. With its superclass it takes over the whole lineage of this.
-/

namespace Scripting

/-- The last one with a key. -/
def IsLast {β : Type} (key : β → String) (bs : List β) (name : String) (b : β) : Prop :=
  ∃ before later, bs = before ++ b :: later ∧ key b = name ∧ ∀ other ∈ later, key other ≠ name

/-- When one thing after the other is entered, the last one of a name is found. -/
lemma Record.get?_foldl_insert_iff {α β : Type} {key : β → String} {entry : β → α} {bs : List β}
    {name : String} {a : α} :
    get? (bs.foldl (fun record b => insert record (key b) (entry b)) []) name = some a ↔
      ∃ b, IsLast key bs name b ∧ entry b = a := by
  rw [get?_foldl_insert, get?_nil, Option.or_none, Option.map_eq_some_iff]
  refine exists_congr fun b => and_congr_left fun _ => ?_
  rw [List.find?_eq_some_iff_append]
  constructor
  · rintro ⟨hb, before, later, hbs, hnone⟩
    refine ⟨later.reverse, before.reverse, ?_, by simpa using hb, fun other ho => ?_⟩
    · simpa using congrArg List.reverse hbs
    · simpa using hnone other (List.mem_reverse.mp ho)
  · rintro ⟨before, later, rfl, hb, hnone⟩
    refine ⟨by simpa using hb, later.reverse, before.reverse, by simp, fun other ho => ?_⟩
    simpa using hnone other (List.mem_reverse.mp ho)

/-- A class has of every name the last method and the last getter of a body. All of them are closed
over one frame. -/
structure Class.HasLast (cls : Class) (closure : FrameId) (methods : List FunctionDecl)
    (getters : List GetterDecl) : Prop where
  method_iff : ∀ n f, cls.methods.get? n = some f ↔
    ∃ d, IsLast (·.name.lexeme) methods n d ∧ ⟨d, closure, n = Store.initializerName⟩ = f
  getter_iff : ∀ n g, cls.getters.get? n = some g ↔
    ∃ d, IsLast (·.name.lexeme) getters n d ∧ ⟨d, closure⟩ = g

namespace Eval

variable {m after : Machine} {name : Token} {methods : List FunctionDecl}
  {getters : List GetterDecl}

/-- The class that is bound to its name is a new one. -/
lemma exists_withClass {s : Store} {scope closure : FrameId} {name : String}
    {ancestors : List ClassId} {frame : Frame} (hf : s.frames[scope]? = some frame) :
    ∃ cls, (withClass s scope closure name ancestors methods getters).classes[s.classes.size]? =
        some cls ∧
      (withClass s scope closure name ancestors methods getters).slot? scope name =
        some (some (.classRef s.classes.size)) ∧
      cls.ancestors = ancestors ∧ cls.HasLast closure methods getters := by
  refine ⟨_, Array.getElem?_push_size, ?_, rfl, ?_, ?_⟩
  · simp [withClass, Store.define, Store.setSlot, Store.slot?, Store.addClass,
      Array.getElem?_modify, hf]
  · intro n f
    refine Record.get?_foldl_insert_iff.trans (exists_congr fun d => and_congr_right fun hd => ?_)
    obtain ⟨_, _, _, rfl, _⟩ := hd
    exact Iff.rfl
  · exact fun n g => Record.get?_foldl_insert_iff

/-- The new class is bound to its name and comes before the lineage of its superclass. -/
lemma exists_declareClass {superclass : Option ClassId} {frame : Frame}
    (hf : m.store.frames[m.scope]? = some frame)
    (h : declareClass name superclass methods getters m = .ok () after) :
    ∃ cls closure, after.store.classes[m.store.classes.size]? = some cls ∧
      after.store.slot? m.scope name.lexeme = some (some (.classRef m.store.classes.size)) ∧
      cls.ancestors = (superclass.map m.store.lineage).getD [] ∧
      cls.HasLast closure methods getters := by
  have hslot := Store.slot?_setSlot_isSome hf name.lexeme (some .nil)
  obtain ⟨frame', hf', -⟩ := (m.store.grows_define m.scope name.lexeme .nil).frame _ frame hf
  cases superclass with
  | none =>
    rw [declareClass_none hslot] at h
    cases h
    obtain ⟨cls, hcls⟩ := exists_withClass hf'
    exact ⟨cls, _, hcls⟩
  | some superclass =>
    rw [declareClass_some hslot] at h
    cases h
    obtain ⟨frame'', hf'', -⟩ := (Store.grows_openFrame _ .superclass m.scope
      [("super", some (.classRef superclass))]).frame _ frame' hf'
    obtain ⟨cls, hcls⟩ := exists_withClass hf''
    exact ⟨cls, _, hcls⟩

/-- **What a declaration of a class leaves.** The name is bound to a new class, which comes before
the lineage of the superclass, and of every name it has the last method and the last getter that its
body declares. -/
theorem ends_classDecl {superclass : Option Expr} {frame : Frame} {completion : Completion}
    (hf : m.store.frames[m.scope]? = some frame)
    (h : (Task.stmt (.classDecl name superclass methods getters)).Ends m (.ok completion) after) :
    ∃ c cls closure, m.store.classes[c]? = none ∧ after.store.classes[c]? = some cls ∧
      after.store.slot? m.scope name.lexeme = some (some (.classRef c)) ∧
      cls.HasLast closure methods getters ∧
      (superclass = none → after.store.lineage c = [c]) ∧
      ∀ e, superclass = some e → ∃ k between, (Task.expr e).Ends m (.ok (.classRef k)) between ∧
        after.store.lineage c = c :: between.store.lineage k := by
  rw [Task.ends_iff] at h
  cases superclass with
  | none =>
    obtain ⟨⟨⟩, between, hd, hdone⟩ | ⟨_, he, -⟩ := Plan.ends_act.mp h
    · obtain ⟨-, rfl⟩ := Plan.ends_done.mp hdone
      obtain ⟨cls, closure, hcls, hslot, ha, hb⟩ := exists_declareClass hf hd
      refine ⟨_, cls, closure, Array.getElem?_eq_none (Nat.le_refl _), hcls, hslot, hb,
        fun _ => ?_, by simp⟩
      simp [Store.lineage, hcls, ha]
    · cases he
  | some e =>
    obtain ⟨v, between, he, hrest⟩ | ⟨_, _, he, -⟩ := Plan.ends_call.mp h
    · have hadv : m.Advances between := he.advances
      obtain ⟨frame', hf', -⟩ := hadv.grows.frame _ frame hf
      rw [← hadv.scope_eq] at hf' ⊢
      cases v with
      | classRef k =>
        obtain ⟨⟨⟩, between', hd, hdone⟩ | ⟨_, he, -⟩ := Plan.ends_act.mp hrest
        · obtain ⟨-, rfl⟩ := Plan.ends_done.mp hdone
          obtain ⟨cls, closure, hcls, hslot, ha, hb⟩ := exists_declareClass hf' hd
          refine ⟨_, cls, closure, Option.eq_none_iff_forall_ne_some.mpr fun old hold => ?_, hcls,
            hslot, hb, by simp, ?_⟩
          · -- what was there before is still there
            have hgrown := hadv.grows.class_ _ old hold
            rw [Array.getElem?_eq_none (Nat.le_refl _)] at hgrown
            cases hgrown
          · rintro _ ⟨⟩
            exact ⟨k, between, he, by simp [Store.lineage, hcls, ha]⟩
        · cases he
      | _ => cases Plan.ends_only.mp hrest
    · cases he

end Eval

end Scripting
