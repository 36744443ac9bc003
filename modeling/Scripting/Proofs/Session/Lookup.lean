import Scripting.Proofs.Eval.Accessors
import Scripting.Proofs.Eval.Classes
import Scripting.Proofs.Session.Receivers

/-!
# The order in which properties are looked up

Fields come before getters, getters before methods and methods before host methods, however classes
and their superclasses repeat the names. This holds for every instance in every store. In a session,
`.` and calling what `?.` gives come to the same whenever a getter is found.
-/

namespace Scripting

open Eval

namespace Session

/-- **Properties are looked up in a fixed order.** The property of an instance is its field of this
name; or else the getter of the nearest class in the lineage that has one, bound to the instance,
even if a more derived class has a method of the name; or else the method of the nearest class that
has one, bound to the instance; or else a host method of the class of the instance itself; or else
there is none. What a class has under a name is what the last declaration in its body says. With
`?.`, the property is what is found. For a name that is no field, `.` gives the same, unless a
getter is found; then it ends as a call of what `?.` gives, for every expression that is evaluated
in a session. -/
theorem properties_looked_up_in_order (sink : Sink) (input : List UInt8) (network : Network)
    (time : Nat) (requests : List Request) :
    let visited := VisitedIn ((start (.start sink input network time)).runs requests)
    (∀ (s : Store) i inst name r, s.instances[i]? = some inst →
      (s.property i name = r ↔ s.Finds i inst name r)) ∧
    (∀ (m : Machine) frame name superclass methods getters completion after,
      m.store.frames[m.scope]? = some frame →
        (Task.stmt (.classDecl name superclass methods getters)).Ends m (.ok completion) after →
          ∃ c cls closure, m.store.classes[c]? = none ∧ after.store.classes[c]? = some cls ∧
            after.store.slot? m.scope name.lexeme = some (some (.classRef c)) ∧
            cls.HasLast closure methods getters ∧
            (superclass = none → after.store.lineage c = [c]) ∧
            ∀ e, superclass = some e →
              ∃ k between, (Task.expr e).Ends m (.ok (.classRef k)) between ∧
                after.store.lineage c = c :: between.store.lineage k) ∧
    ∀ object m i m₁ inst (name : Token), (Task.expr object).Ends m (.ok (.instanceRef i)) m₁ →
      m₁.store.instances[i]? = some inst →
        (∀ r s o after, m₁.store.property i name.lexeme = (r, s) →
          ((Task.expr (.nilGet object name)).Ends m o after ↔
            o = r.mapError (⟨·, name.line⟩) ∧ after = { m₁ with store := s })) ∧
        (inst.fields.get? name.lexeme = none →
          (m₁.store.NowhereIn inst.classId (·.getters.get? name.lexeme) →
            ∀ o after, (Task.expr (.get object name)).Ends m o after ↔
              (Task.expr (.nilGet object name)).Ends m o after) ∧
          ∀ g steps, m₁.store.NearestIn inst.classId (·.getters.get? name.lexeme) g →
            visited ⟨steps, .expr object, m⟩ →
              ∀ paren o after, (Task.expr (.get object name)).Ends m o after ↔
                (Task.expr (.call (.nilGet object name) paren [])).Ends m o after) := by
  intro visited
  refine ⟨fun s i inst name r hi => Store.property_eq_iff hi, ?_, ?_⟩
  · intro m frame name superclass methods getters completion after hf h
    exact ends_classDecl hf h
  · intro object m i m₁ inst name ho hi
    refine ⟨fun r s o after hp => ends_nilGet ho hp, fun hfield => ⟨fun hg o after => ?_, ?_⟩⟩
    · exact ends_get_of_no_getter ho fun _ _ hp => Store.getter?_of_nowhereIn hi hfield hg hp
    · intro g steps hg hv paren o after
      have hh : History visited _ := history_after
      obtain ⟨b, trail, hready⟩ := hh.ready _ hv
      exact ends_get_iff_ends_call ho hready hi hfield hg paren

end Session

namespace Eval.Call

/-- A call reads a property that is no field, but a getter of the class or of a superclass, while
the class itself has a method of this name. What it gives is the instance. -/
def readsGetter (c : Call) : Bool :=
  match c.task, c.steps with
  | .expr (.get object name), steps + 1 =>
    match evaluate steps object c.machine, evaluate (steps + 1) (.get object name) c.machine with
    | .ok (.instanceRef i) m, .ok (.instanceRef j) _ =>
      j = i && (m.store.instances[i]?).any fun inst =>
        (inst.fields.get? name.lexeme).isNone &&
        (m.store.findGetter? inst.classId name.lexeme).isSome &&
        (m.store.classes[inst.classId]?).any fun cls => (cls.methods.get? name.lexeme).isSome
    | _, _ => false
  | _, _ => false

/-- A call declares a class with two methods of one name. -/
def redeclares? (c : Call) : Option (Token × Option Expr × FunctionDecl × FunctionDecl) :=
  match c.task, c.steps with
  | .stmt (.classDecl name superclass [d, d'] []), steps + 1 =>
    match execute (steps + 1) (.classDecl name superclass [d, d'] []) c.machine with
    | .ok _ _ =>
      if d.name.lexeme = d'.name.lexeme ∧ (c.machine.store.frames[c.machine.scope]?).isSome then
        some (name, superclass, d, d')
      else none
    | _ => none
  | _, _ => none

variable {c : Call}

lemma exists_of_readsGetter (h : c.readsGetter) :
    ∃ steps object name i m inst g cls after, c.steps = steps + 1 ∧
      c.task = .expr (.get object name) ∧
      evaluate steps object c.machine = .ok (.instanceRef i) m ∧
      evaluate (steps + 1) (.get object name) c.machine = .ok (.instanceRef i) after ∧
      m.store.instances[i]? = some inst ∧ inst.fields.get? name.lexeme = none ∧
      m.store.findGetter? inst.classId name.lexeme = some g ∧
      m.store.classes[inst.classId]? = some cls ∧ (cls.methods.get? name.lexeme).isSome := by
  unfold readsGetter at h
  split at h
  · next object name steps ht hs =>
    split at h
    · next i m j after ho hget =>
      obtain ⟨hj, h⟩ := (Bool.and_eq_true _ _).mp h
      obtain rfl := of_decide_eq_true hj
      obtain ⟨inst, hi, h⟩ := (Option.any_eq_true _ _).mp h
      simp only [Bool.and_eq_true] at h
      obtain ⟨⟨hfield, hg⟩, h⟩ := h
      obtain ⟨cls, hcls, hmethod⟩ := (Option.any_eq_true _ _).mp h
      obtain ⟨g, hg⟩ := Option.isSome_iff_exists.mp hg
      exact ⟨steps, object, name, j, m, inst, g, cls, after, hs, ht, ho, hget, hi,
        Option.isNone_iff_eq_none.mp hfield, hg, hcls, hmethod⟩
    · cases h
  · cases h

lemma exists_of_redeclares? {name : Token} {superclass : Option Expr} {d d' : FunctionDecl}
    (h : c.redeclares? = some (name, superclass, d, d')) :
    c.task = .stmt (.classDecl name superclass [d, d'] []) ∧ d.name.lexeme = d'.name.lexeme ∧
      (∃ frame, c.machine.store.frames[c.machine.scope]? = some frame) ∧
      ∃ completion after, (Task.stmt (.classDecl name superclass [d, d'] [])).Ends c.machine
        (.ok completion) after := by
  unfold redeclares? at h
  split at h
  · next steps ht hs =>
    split at h
    · next completion after ho =>
      split_ifs at h with htest
      cases h
      exact ⟨ht, htest.1, Option.isSome_iff_exists.mp htest.2, completion, after, steps + 1, ho⟩
    · cases h
  · cases h

end Eval.Call

namespace Session

/-- A getter of a superclass comes before the methods of the class itself, which has two of them. -/
theorem properties_looked_up_in_order_mixed :
    let requests := [Request.source 30 false
      "class A \x7b n \x7b return this; \x7d \x7d class B < A \x7b n() \x7b\x7d
        n() \x7b return 1; \x7d \x7d var o = B(); print o.n == o;"]
    let visited := VisitedIn ((start (.start (.ofLimit none) [] .isolated 0)).runs requests)
    (∃ object m i m₁ inst name g cls steps after,
      visited ⟨steps, .expr object, m⟩ ∧ (Task.expr object).Ends m (.ok (.instanceRef i)) m₁ ∧
      m₁.store.instances[i]? = some inst ∧ m₁.store.classes[inst.classId]? = some cls ∧
      (cls.methods.get? name.lexeme).isSome ∧
      m₁.store.NearestIn inst.classId (·.getters.get? name.lexeme) g ∧
      m₁.store.Finds i inst name.lexeme (m₁.store.property i name.lexeme) ∧
      (Task.expr (.get object name)).Ends m (.ok (.instanceRef i)) after ∧
      (Task.expr (.call (.nilGet object name) name [])).Ends m (.ok (.instanceRef i)) after) ∧
    ∃ c name superclass d d' completion after cls f, visited c ∧
      c.task = .stmt (.classDecl name superclass [d, d'] []) ∧
      d.name.lexeme = d'.name.lexeme ∧
      (Task.stmt (.classDecl name superclass [d, d'] [])).Ends c.machine (.ok completion) after ∧
      cls ∈ after.store.classes ∧ cls.methods.get? d'.name.lexeme = some f ∧
      f.declaration = d' := by
  intro requests visited
  let runs := (start (.start (.ofLimit none) [] .isolated 0)).runs requests
  obtain ⟨hreads, hdeclares⟩ : (runs.flatMap Run.calls).any Call.readsGetter ∧
      (runs.flatMap Run.calls).any fun c => c.redeclares?.isSome := by
    decide +kernel
  obtain ⟨hlookup, hclass, hread⟩ :=
    properties_looked_up_in_order (.ofLimit none) [] .isolated 0 requests
  constructor
  · obtain ⟨⟨_, t, m⟩, hv, htest⟩ := exists_visitedIn hreads
    obtain ⟨steps, object, name, i, m₁, inst, g, cls, after, rfl, rfl, ho, hget, hi, hfield, hg,
      hcls, hmethod⟩ := Call.exists_of_readsGetter htest
    have hh : History visited _ := history_after
    have hmakes : Call.Makes ⟨steps + 1, .expr (.get object name), m⟩ ⟨steps, .expr object, m⟩ :=
      ⟨rfl, .inl ⟨rfl, rfl⟩⟩
    have hobject : visited ⟨steps, .expr object, m⟩ := hh.makes _ _ hv hmakes
    have hg := Store.nearestIn_iff.mpr hg
    have ho : (Task.expr object).Ends m (.ok (.instanceRef i)) m₁ := ⟨steps, ho⟩
    have hget : (Task.expr (.get object name)).Ends m (.ok (.instanceRef i)) after :=
      ⟨steps + 1, hget⟩
    obtain ⟨-, hlast⟩ := hread object m i m₁ inst name ho hi
    have hcall := ((hlast hfield).2 g steps hg hobject name _ after).mp hget
    exact ⟨object, m, i, m₁, inst, name, g, cls, steps, after, hobject, ho, hi, hcls, hmethod, hg,
      (hlookup _ i inst _ _ hi).mp rfl, hget, hcall⟩
  · obtain ⟨c, hv, htest⟩ := exists_visitedIn hdeclares
    obtain ⟨⟨name, superclass, d, d'⟩, htest⟩ := Option.isSome_iff_exists.mp htest
    obtain ⟨ht, hname, ⟨frame, hf⟩, completion, after, h⟩ := Call.exists_of_redeclares? htest
    obtain ⟨k, cls, closure, -, hcls, -, hlast, -⟩ :=
      hclass c.machine frame name superclass [d, d'] [] completion after hf h
    have hd' : IsLast (·.name.lexeme) [d, d'] d'.name.lexeme d' := ⟨[d], [], rfl, rfl, by simp⟩
    exact ⟨c, name, superclass, d, d', completion, after, cls, _, hv, ht, hname, h,
      Array.mem_of_getElem? hcls, (hlast.method_iff _ _).mpr ⟨d', hd', rfl⟩, rfl⟩

end Session

end Scripting
