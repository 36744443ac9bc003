import Scripting.Proofs.Store.Growth

/-!
# Fields of instances

What an instance has under the name of a field is what a property of this name is, before any getter
or method is looked for, and looking it up changes nothing. Only setting the field changes it: new
instances come without fields, and what an instance stands for outside of the program is none.
-/

namespace Scripting

namespace Store

variable {s s' : Store} {i j : InstanceId} {name other : String} {value : Value}

/-- The field of an instance under a name. -/
def field? (s : Store) (i : InstanceId) (name : String) : Option Value :=
  (s.instances[i]?).bind fun inst => inst.fields.get? name

lemma field?_of_instances_eq (h : s'.instances = s.instances) (i : InstanceId) (name : String) :
    s'.field? i name = s.field? i name := by
  rw [field?, h, field?]

lemma field?_addInstance (s : Store) (c : ClassId) (handle : Option Handle) (i : InstanceId)
    (name : String) : (s.addInstance ⟨c, [], handle⟩).2.field? i name = s.field? i name := by
  simp only [field?, addInstance, Array.getElem?_push]
  split
  · next he =>
    subst he
    simp [Record.get?]
  · rfl

lemma field?_setHandle (s : Store) (j : InstanceId) (handle : Option Handle) (i : InstanceId)
    (name : String) : (s.setHandle j handle).field? i name = s.field? i name := by
  simp only [field?, setHandle, Array.getElem?_modify]
  split
  · cases s.instances[i]? <;> rfl
  · rfl

lemma field?_setField_self (hi : (s.instances[i]?).isSome) (name : String) (value : Value) :
    (s.setField i name value).field? i name = some value := by
  obtain ⟨inst, hinst⟩ := Option.isSome_iff_exists.mp hi
  simp [field?, setField, Array.getElem?_modify, hinst]

lemma field?_setField_of_ne (h : (j, other) ≠ (i, name)) :
    (s.setField i name value).field? j other = s.field? j other := by
  simp only [field?, setField, Array.getElem?_modify]
  split
  · next he =>
    subst he
    have hn : other ≠ name := fun he => h (by rw [he])
    cases s.instances[i]? with
    | none => rfl
    | some inst => simp [hn]
  · rfl

/-- A field comes before all getters and methods, and finding it leaves the store alone. -/
lemma property_of_field? (h : s.field? i name = some value) :
    s.property i name = (.ok value, s) := by
  obtain ⟨inst, hinst, hfield⟩ := Option.bind_eq_some_iff.mp h
  simp only [property, hinst, hfield]

/-- Setting a field makes no difference to other properties, those of other instances included. -/
lemma property_setField_of_ne (h : (j, other) ≠ (i, name)) :
    (s.setField i name value).property j other =
      ((s.property j other).1, (s.property j other).2.setField i name value) := by
  have hfield : (s.setField i name value).field? j other = s.field? j other :=
    field?_setField_of_ne h
  have hinst : ((s.setField i name value).instances[j]?).map Instance.classId =
      (s.instances[j]?).map Instance.classId := by
    simp only [setField, Array.getElem?_modify]
    split
    · cases s.instances[j]? <;> rfl
    · rfl
  unfold property
  cases hj : s.instances[j]? with
  | none =>
    rw [hj, Option.map_none, Option.map_eq_none_iff] at hinst
    rw [hinst]
  | some inst =>
    rw [hj, Option.map_some] at hinst
    obtain ⟨inst', hinst', hclass⟩ := Option.map_eq_some_iff.mp hinst
    simp only [field?, hinst', hj, Option.bind_some] at hfield
    -- members are looked for in classes, which are the same before and after
    have hgetter : (s.setField i name value).findGetter? = s.findGetter? := rfl
    have hmethod : (s.setField i name value).findMethod? = s.findMethod? := rfl
    have hhost : (s.setField i name value).findHostMethod? = s.findHostMethod? := rfl
    simp only [hinst', hfield, hclass, hgetter, hmethod, hhost]
    cases inst.fields.get? other with
    | some value => rfl
    | none =>
      cases s.findGetter? inst.classId other with
      | some getter => rfl
      | none =>
        cases s.findMethod? inst.classId other with
        | some method => rfl
        | none =>
          cases s.findHostMethod? inst.classId other with
          | some method => rfl
          | none => rfl

end Store

end Scripting
