import Scripting.Proofs.Store.Growth

/-!
# How properties are found

A property of an instance is looked for in a fixed order: among the fields, then among the getters
of the lineage of the class and then among its methods, each time in the nearest class that has one
of the name, and at last among the host methods of the class itself. `Store.Finds` has one rule for
each of these, and `property_eq_iff` says that they are what the look-up does. What is found in a
lineage is bound to the instance by a frame of its own.
-/

namespace Scripting

namespace Store

variable {α : Type} {s : Store} {i : InstanceId} {inst : Instance} {name : String}

/-- What the nearest class of a lineage has that has something of a kind. -/
def NearestIn (s : Store) (c : ClassId) (member? : Class → Option α) (a : α) : Prop :=
  ∃ before k later cls, s.lineage c = before ++ k :: later ∧ s.classes[k]? = some cls ∧
    member? cls = some a ∧ ∀ b ∈ before, ∀ cls, s.classes[b]? = some cls → member? cls = none

/-- No class of a lineage has anything of a kind. -/
def NowhereIn (s : Store) (c : ClassId) (member? : Class → Option α) : Prop :=
  ∀ k ∈ s.lineage c, ∀ cls, s.classes[k]? = some cls → member? cls = none

lemma bind_eq_none_iff {k : ClassId} {member? : Class → Option α} :
    (s.classes[k]?).bind member? = none ↔
      ∀ cls, s.classes[k]? = some cls → member? cls = none :=
  Option.bind_eq_none_iff

/-- The nearest one is what a search along the lineage comes to. -/
lemma nearestIn_iff {c : ClassId} {member? : Class → Option α} {a : α} :
    s.NearestIn c member? a ↔
      ((s.lineage c).findSome? fun k => (s.classes[k]?).bind member?) = some a := by
  rw [List.findSome?_eq_some_iff]
  constructor
  · rintro ⟨before, k, later, cls, hl, hc, ha, hnone⟩
    exact ⟨before, k, later, hl, by rw [hc, Option.bind_some, ha],
      fun b hb => bind_eq_none_iff.mpr (hnone b hb)⟩
  · rintro ⟨before, k, later, hl, ha, hnone⟩
    obtain ⟨cls, hc, ha⟩ := Option.bind_eq_some_iff.mp ha
    exact ⟨before, k, later, cls, hl, hc, ha, fun b hb => bind_eq_none_iff.mp (hnone b hb)⟩

lemma nowhereIn_iff {c : ClassId} {member? : Class → Option α} :
    s.NowhereIn c member? ↔
      ((s.lineage c).findSome? fun k => (s.classes[k]?).bind member?) = none := by
  rw [List.findSome?_eq_none_iff]
  exact forall₂_congr fun _ _ => bind_eq_none_iff.symm

/-- A member of a class as one of an instance: it is closed over a new frame, which has the instance
as its receiver and is inside of the frame that the member was closed over. -/
def bound (s : Store) (i : InstanceId) (closure : FrameId) (member : FrameId → Callable) :
    Value × Store :=
  (.callable s.callables.size,
    { s with
      frames := s.frames.push ⟨.receiver, s.chain closure, [("this", some (.instanceRef i))]⟩
      callables := s.callables.push (member s.frames.size) })

/-- What a property of an instance is, and the store that is left: by the first of the rules that
applies. -/
inductive Finds (s : Store) (i : InstanceId) (inst : Instance) (name : String) :
    Except Cause Value × Store → Prop
  | field {value : Value} : inst.fields.get? name = some value →
    Finds s i inst name (.ok value, s)
  | getter {g : Getter} : inst.fields.get? name = none →
    s.NearestIn inst.classId (·.getters.get? name) g →
      Finds s i inst name
        (.ok (s.bound i g.closure fun f => .getter { g with closure := f }).1,
          (s.bound i g.closure fun f => .getter { g with closure := f }).2)
  | method {m : Function} : inst.fields.get? name = none →
    s.NowhereIn inst.classId (·.getters.get? name) →
    s.NearestIn inst.classId (·.methods.get? name) m →
      Finds s i inst name
        (.ok (s.bound i m.closure fun f => .function { m with closure := f }).1,
          (s.bound i m.closure fun f => .function { m with closure := f }).2)
  | hostMethod {cls : Class} {host : HostClass} {method : HostMethod} :
    inst.fields.get? name = none → s.NowhereIn inst.classId (·.getters.get? name) →
    s.NowhereIn inst.classId (·.methods.get? name) → s.classes[inst.classId]? = some cls →
    cls.host = some host → host.method? name = some method →
      Finds s i inst name (.ok (.callable s.callables.size),
        { s with callables := s.callables.push (.hostMethod method i) })
  | nothing : inst.fields.get? name = none →
    s.NowhereIn inst.classId (·.getters.get? name) →
    s.NowhereIn inst.classId (·.methods.get? name) →
    (∀ cls host, s.classes[inst.classId]? = some cls → cls.host = some host →
      host.method? name = none) →
      Finds s i inst name (.error (.undefinedProperty name), s)

/-- **The order of the look-up.** What a property is, is what the rules say, and there is always one
that applies. -/
theorem property_eq_iff (hi : s.instances[i]? = some inst) {r : Except Cause Value × Store} :
    s.property i name = r ↔ s.Finds i inst name r := by
  constructor
  · rintro rfl
    unfold property
    rw [hi]
    dsimp only
    cases hfield : inst.fields.get? name with
    | some value => exact .field hfield
    | none =>
      cases hgetter : s.findGetter? inst.classId name with
      | some g => exact .getter hfield (nearestIn_iff.mpr hgetter)
      | none =>
        have hgetter := nowhereIn_iff.mpr hgetter
        cases hmethod : s.findMethod? inst.classId name with
        | some m => exact .method hfield hgetter (nearestIn_iff.mpr hmethod)
        | none =>
          have hmethod := nowhereIn_iff.mpr hmethod
          cases hhost : s.findHostMethod? inst.classId name with
          | some method =>
            obtain ⟨cls, hc, hhost⟩ := Option.bind_eq_some_iff.mp hhost
            obtain ⟨host, hh, hm⟩ := Option.bind_eq_some_iff.mp hhost
            exact .hostMethod hfield hgetter hmethod hc hh hm
          | none =>
            refine .nothing hfield hgetter hmethod fun cls host hc hh => ?_
            have hnone := bind_eq_none_iff.mp hhost cls hc
            rwa [hh] at hnone
  · intro h
    unfold property
    rw [hi]
    cases h with
    | field hfield => simp only [hfield]
    | getter hfield hgetter =>
      have hgetter : s.findGetter? inst.classId name = _ := nearestIn_iff.mp hgetter
      simp only [hfield, hgetter]
      rfl
    | method hfield hgetter hmethod =>
      have hgetter : s.findGetter? inst.classId name = _ := nowhereIn_iff.mp hgetter
      have hmethod : s.findMethod? inst.classId name = _ := nearestIn_iff.mp hmethod
      simp only [hfield, hgetter, hmethod]
      rfl
    | hostMethod hfield hgetter hmethod hc hh hm =>
      have hgetter : s.findGetter? inst.classId name = _ := nowhereIn_iff.mp hgetter
      have hmethod : s.findMethod? inst.classId name = _ := nowhereIn_iff.mp hmethod
      simp only [hfield, hgetter, hmethod, findHostMethod?, hc, Option.bind_some, hh, hm]
      rfl
    | nothing hfield hgetter hmethod hhost =>
      have hgetter : s.findGetter? inst.classId name = _ := nowhereIn_iff.mp hgetter
      have hmethod : s.findMethod? inst.classId name = _ := nowhereIn_iff.mp hmethod
      have hhost : s.findHostMethod? inst.classId name = none := by
        refine Option.bind_eq_none_iff.mpr fun cls hc => ?_
        exact Option.bind_eq_none_iff.mpr fun host hh => hhost cls host hc hh
      simp only [hfield, hgetter, hmethod, hhost]

end Store

end Scripting
