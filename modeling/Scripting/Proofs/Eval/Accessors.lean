import Scripting.Proofs.Eval.Holding
import Scripting.Proofs.Eval.Outcomes
import Scripting.Proofs.Store.Lookup

/-!
# The two ways to read a property

Both `.` and `?.` look a property up, and `?.` gives what is found. So does `.`, unless that is a
getter; then `.` runs it, as calling what `?.` gives would. The only difference is that `.` holds
the instance meanwhile, which the getter does anyway, because it is bound to it.
-/

namespace Scripting

open Eval

namespace Store

variable {s s' : Store} {i : InstanceId} {inst : Instance} {name : String} {value : Value}

/-- A getter that is found in a class is bound to the instance. -/
lemma exists_property_of_nearestIn {g : Getter} (hi : s.instances[i]? = some inst)
    (hfield : inst.fields.get? name = none)
    (hg : s.NearestIn inst.classId (·.getters.get? name) g) :
    ∃ id s' g', s.property i name = (.ok (.callable id), s') ∧
      s'.callables[id]? = some (.getter g') ∧
      s'.slot? g'.closure "this" = some (some (.instanceRef i)) := by
  refine ⟨_, _, { g with closure := s.frames.size },
    (property_eq_iff hi).mpr (.getter hfield hg), ?_, ?_⟩
  · exact Array.getElem?_push_size
  · simp [bound, slot?, Record.get?_singleton]

/-- Without a getter in a class, and without a field, no getter is found. -/
lemma getter?_of_nowhereIn (hi : s.instances[i]? = some inst)
    (hfield : inst.fields.get? name = none)
    (hg : s.NowhereIn inst.classId (·.getters.get? name))
    (hp : s.property i name = (.ok value, s')) : s'.getter? value = none := by
  rw [property_eq_iff hi] at hp
  generalize hr : (Except.ok value, s') = r at hp
  cases hp with
  | field hf =>
    rw [hfield] at hf
    cases hf
  | getter _ hg' =>
    rw [nearestIn_iff, nowhereIn_iff.mp hg] at hg'
    cases hg'
  | method _ _ _ =>
    cases hr
    simp [bound, getter?]
  | hostMethod _ _ _ _ _ _ =>
    cases hr
    simp [getter?]
  | nothing _ _ _ _ => cases hr

end Store

namespace Eval

variable {α : Type} {m m₁ after : Machine} {object : Expr} {name : Token} {i : InstanceId}
  {s : Store} {o : Except Fault Value}

/-! ### Reading without running -/

/-- What a look-up comes to, a fault on the line of the name if nothing is found. -/
lemma readProperty_ends {r : Except Cause Value}
    (hp : m.store.property i name.lexeme = (r, s)) :
    (readProperty (.instanceRef i) name).Ends m (r.mapError (⟨·, name.line⟩))
      { m with store := s } := by
  unfold Exec.Ends
  rw [readProperty_instanceRef, hp]
  cases r with
  | ok value => rfl
  | error cause => rfl

variable (ho : (Task.expr object).Ends m (.ok (.instanceRef i)) m₁)

include ho

/-- With `?.`, the property of an instance is what the look-up comes to. -/
theorem ends_nilGet {r : Except Cause Value} (hp : m₁.store.property i name.lexeme = (r, s)) :
    (Task.expr (.nilGet object name)).Ends m o after ↔
      o = r.mapError (⟨·, name.line⟩) ∧ after = { m₁ with store := s } := by
  have hcall : (Task.expr object).Ends (Mode.plain.enter m) (.ok (.instanceRef i)) m₁ := ho
  have hplan : (Task.expr (.nilGet object name)).Ends m o after ↔
      (readProperty (.instanceRef i) name).Ends m₁ o after :=
    Task.ends_iff.trans ((Plan.ends_call_of_ok hcall).trans Plan.ends_only)
  rw [hplan]
  exact (readProperty_ends hp).iff

/-- With `.`, a getter that is found is run, while the instance is held. -/
lemma ends_get_of_getter? {value : Value} {g : Getter}
    (hp : m₁.store.property i name.lexeme = (.ok value, s)) (hg : s.getter? value = some g) :
    (Task.expr (.get object name)).Ends m o after ↔
      ∃ steps, (Exec.holding (.instanceRef i) (runGetter steps g)).Ends { m₁ with store := s } o
        after := by
  have hcall : (Task.expr object).Ends (Mode.plain.enter m) (.ok (.instanceRef i)) m₁ := ho
  have hread := readProperty_ends hp
  rw [Task.ends_iff]
  refine (Plan.ends_call_of_ok hcall).trans ((Plan.ends_act_of_ok hread).trans ?_)
  refine (Plan.ends_act_of_ok (x := Exec.store) rfl).trans ?_
  dsimp only
  rw [hg]
  exact Plan.ends_call_done

/-- With `.`, everything else is read as with `?.`. -/
theorem ends_get_of_no_getter
    (hg : ∀ value s, m₁.store.property i name.lexeme = (.ok value, s) → s.getter? value = none) :
    (Task.expr (.get object name)).Ends m o after ↔
      (Task.expr (.nilGet object name)).Ends m o after := by
  have hcall : (Task.expr object).Ends (Mode.plain.enter m) (.ok (.instanceRef i)) m₁ := ho
  obtain ⟨⟨r, s⟩, hp⟩ : ∃ p, m₁.store.property i name.lexeme = p := ⟨_, rfl⟩
  have hread := readProperty_ends hp
  rw [ends_nilGet ho hp, Task.ends_iff]
  refine (Plan.ends_call_of_ok hcall).trans ?_
  cases r with
  | ok value =>
    refine (Plan.ends_act_of_ok hread).trans ((Plan.ends_act_of_ok (x := Exec.store) rfl).trans ?_)
    dsimp only
    rw [hg value s hp]
    exact Plan.ends_done
  | error cause => exact Plan.ends_act_of_error hread

/-! ### Running a getter -/

/-- Calling a getter that `?.` gives runs it. -/
lemma ends_call_nilGet {id : CallableId} {g : Getter} (paren : Token)
    (hp : m₁.store.property i name.lexeme = (.ok (.callable id), s))
    (hk : s.callables[id]? = some (.getter g)) :
    (Task.expr (.call (.nilGet object name) paren [])).Ends m o after ↔
      (Task.getter g).Ends { m₁ with store := s } o after := by
  let m₂ : Machine := { m₁ with store := s }
  have hcallee : (Task.expr (.nilGet object name)).Ends (Mode.plain.enter m)
      (.ok (.callable id)) m₂ := (ends_nilGet ho hp).mpr ⟨rfl, rfl⟩
  have hnone : (Task.exprs []).Ends ((Mode.holding (.callable id)).enter m₂) (.ok [])
      ((Mode.holding (.callable id)).enter m₂) :=
    Task.ends_iff.mpr (Plan.ends_done.mpr ⟨rfl, rfl⟩)
  rw [Task.ends_iff]
  refine (Plan.ends_call_of_ok hcallee).trans ((Plan.ends_call_of_ok hnone).trans ?_)
  -- the call comes to the callable, and this to the getter
  refine Plan.ends_tail.trans ((ends_call_callable hk rfl).trans ?_)
  exact Task.ends_iff.trans Plan.ends_tail

/-- What is found may run. -/
lemma ready_getter {b : Background} {trail : List Call} {steps more : Nat} {id : CallableId}
    {g : Getter} (hr : (siteLaw b).ready trail ⟨steps, .expr object, m⟩)
    (hp : m₁.store.property i name.lexeme = (.ok (.callable id), s))
    (hk : s.callables[id]? = some (.getter g)) :
    (siteLaw b).ready trail ⟨more, .getter g, { m₁ with store := s }⟩ := by
  have hadv := ho.advances
  obtain ⟨n, ho⟩ := ho
  have hsited := ((siteLaw_sound b).settles n trail (.expr object) m _ m₁ hr ho).1.property i
    name.lexeme
  rw [hp] at hsited
  exact ⟨⟨hadv.distances_eq.trans hr.1.distances_eq, hsited⟩, hsited.callable id _ hk⟩

/-- **Reading a getter with `.` is calling what `?.` gives.** Both end in the same way, on the same
machine. -/
theorem ends_get_iff_ends_call {b : Background} {trail : List Call} {steps : Nat} {inst : Instance}
    {g : Getter} (hr : (siteLaw b).ready trail ⟨steps, .expr object, m⟩)
    (hi : m₁.store.instances[i]? = some inst) (hfield : inst.fields.get? name.lexeme = none)
    (hg : m₁.store.NearestIn inst.classId (·.getters.get? name.lexeme) g) (paren : Token) :
    (Task.expr (.get object name)).Ends m o after ↔
      (Task.expr (.call (.nilGet object name) paren [])).Ends m o after := by
  obtain ⟨id, s, g', hp, hk, hthis⟩ := Store.exists_property_of_nearestIn hi hfield hg
  have hgetter : s.getter? (.callable id) = some g' := by simp [Store.getter?, hk]
  rw [ends_get_of_getter? ho hp hgetter, ends_call_nilGet ho paren hp hk]
  refine exists_congr fun more => ?_
  unfold Exec.Ends
  rw [holding_runGetter (ready_getter ho hr hp hk) hthis]
  rfl

end Eval

end Scripting
