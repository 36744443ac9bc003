import Scripting.Proofs.Eval.Actions
import Scripting.Proofs.Eval.Trace

/-!
# What happens in a run, in order

The starts and the ends of the calls of a run are one list. From each of them to the next one the
fields of instances stay what they are, unless a call ends that sets a field: only this field is
another one then, and it has the value that was found for it.
-/

namespace Scripting

namespace Eval

namespace Call

/-- The field of an instance that a call sets, and its value. -/
def sets? (c : Call) : Option (InstanceId × String × Value) :=
  match c.task, c.steps with
  | .expr (.set object name value), steps + 1 =>
    match evaluate steps object c.machine with
    | .ok (.instanceRef i) m =>
      match evaluate steps value ((Mode.holding (.instanceRef i)).enter m) with
      | .ok v _ => some (i, name.lexeme, v)
      | .error _ _ => none
    | _ => none
  | _, _ => none

end Call

/-- A call starts or ends. -/
inductive Event where
  | starts (c : Call)
  | ends (c : Call)

namespace Event

/-- The store when something happens. -/
def store : Event → Store
  | .starts c => c.machine.store
  | .ends c => c.after.store

/-- The field of an instance that is set then, and its value. -/
def sets? : Event → Option (InstanceId × String × Value)
  | .starts _ => none
  | .ends c => c.sets?

end Event

/-- What happens while a task is done, from its start to its end. -/
def Call.events : Nat → Task → Machine → List Event
  | 0, t, m => [.starts ⟨0, t, m⟩, .ends ⟨0, t, m⟩]
  | steps + 1, t, m =>
    .starts ⟨steps + 1, t, m⟩ ::
      ((t.plan.asked (Task.perform steps) m).flatMap fun next => events steps next.1 next.2) ++
        [.ends ⟨steps + 1, t, m⟩]

/-- What happens in a run. -/
def Run.events (run : Run) : List Event :=
  ((programPlan run.program).asked (Task.perform run.steps) run.machine).flatMap
    fun next => Call.events run.steps next.1 next.2

/-- The calls that end are those that are made. -/
lemma Call.ends_mem_events {steps : Nat} {t : Task} {m : Machine} {c : Call} :
    .ends c ∈ events steps t m ↔ c ∈ within steps t m := by
  induction steps generalizing t m with
  | zero => simp [events, within]
  | succ steps ih =>
    simp only [events, within, List.cons_append, List.mem_cons, List.mem_append, List.mem_flatMap,
      List.not_mem_nil, or_false, reduceCtorEq, false_or, Event.ends.injEq, ih]
    exact or_comm

lemma Run.ends_mem_events {run : Run} {c : Call} :
    .ends c ∈ run.events ↔ ∃ trail, run.Visits trail c := by
  simp only [← Run.mem_calls, events, calls, List.mem_flatMap, Call.ends_mem_events]

/-! ### Setting a field -/

section

variable {steps : Nat} {object value : Expr} {name : Token} {m m₁ m₂ : Machine} {i : InstanceId}
  {n : String} {v : Value} {c : Call}

lemma Call.exists_of_sets? (h : c.sets? = some (i, n, v)) :
    ∃ steps object name value m₁ m₂, c.steps = steps + 1 ∧ c.task = .expr (.set object name value) ∧
      name.lexeme = n ∧ evaluate steps object c.machine = .ok (.instanceRef i) m₁ ∧
      evaluate steps value ((Mode.holding (.instanceRef i)).enter m₁) = .ok v m₂ := by
  unfold sets? at h
  split at h
  · next object name value steps ht hs =>
    split at h
    · next i' m₁ hobject =>
      split at h
      · next v' m₂ hvalue =>
        cases h
        exact ⟨steps, object, name, value, m₁, m₂, hs, ht, rfl, hobject, hvalue⟩
      · cases h
    · cases h
  · cases h

/-- The object is evaluated and then the value, and then the field is set. -/
lemma evaluate_set (hobject : evaluate steps object m = .ok (.instanceRef i) m₁)
    (hvalue : evaluate steps value ((Mode.holding (.instanceRef i)).enter m₁) = .ok v m₂)
    (name : Token) :
    Call.sets? ⟨steps + 1, .expr (.set object name value), m⟩ = some (i, name.lexeme, v) ∧
      ∃ after, evaluate (steps + 1) (.set object name value) m = .ok v after ∧
        after.store = m₂.store.setField i name.lexeme v := by
  refine ⟨by simp only [Call.sets?, hobject, hvalue], ?_⟩
  have hleave : ((Mode.holding (.instanceRef i)).leave m₁ m₂).store = m₂.store :=
    Mode.leave_store _ _ _
  rw [evaluate_succ, ← hleave]
  exact ⟨_, (Plan.perform_call_of_ok hobject).trans (Plan.perform_call_of_ok hvalue), rfl⟩

/-- When a call ends that sets a field, the instance has it. -/
lemma Call.field?_after_of_sets? (h : c.sets? = some (i, n, v))
    (hi : (c.after.store.instances[i]?).isSome) : c.after.store.field? i n = some v := by
  obtain ⟨steps, object, name, value, m₁, m₂, hs, ht, rfl, hobject, hvalue⟩ := exists_of_sets? h
  obtain ⟨_, t, m⟩ := c
  obtain rfl : t = _ := ht
  obtain rfl : _ = _ := hs
  obtain ⟨-, after, ho, hstore⟩ := evaluate_set hobject hvalue name
  have hafter : Call.after ⟨steps + 1, .expr (.set object name value), m⟩ = after :=
    after_of_ok ho
  rw [hafter, hstore] at hi ⊢
  refine Store.field?_setField_self ?_ name.lexeme v
  simpa [Store.setField, Array.getElem?_modify, Option.isSome_map] using hi

end

/-! ### Fields along the way -/

/-- On the way from a store to another one, a field of an instance stays what it is, unless a call
ends that sets it. -/
inductive FieldPath (i : InstanceId) (n : String) : Store → List Event → Store → Prop
  | nil {s s' : Store} : s'.field? i n = s.field? i n → FieldPath i n s [] s'
  | cons {s s' : Store} {e : Event} {events : List Event} :
    (e.store.field? i n = s.field? i n ∨ ∃ v, e.sets? = some (i, n, v)) →
      FieldPath i n e.store events s' → FieldPath i n s (e :: events) s'

section

variable {i : InstanceId} {n : String} {s s' s'' : Store} {before events : List Event} {e : Event}

namespace FieldPath

lemma of_eq (he : s'.field? i n = s.field? i n) (h : FieldPath i n s' events s'') :
    FieldPath i n s events s'' := by
  cases h with
  | nil h => exact .nil (h.trans he)
  | cons h hrest => exact .cons (h.imp_left (·.trans he)) hrest

lemma append (h : FieldPath i n s before s') (h' : FieldPath i n s' events s'') :
    FieldPath i n s (before ++ events) s'' := by
  induction h with
  | nil he => exact h'.of_eq he
  | cons he _ ih => exact .cons he (ih h')

/-- The way goes on from everything that happens. -/
lemma of_append_cons (h : FieldPath i n s (before ++ e :: events) s') :
    FieldPath i n e.store events s' := by
  induction before generalizing s with
  | nil =>
    cases h with
    | cons _ h => exact h
  | cons _ before ih =>
    cases h with
    | cons _ h => exact ih h

/-- Until the field is set, it is the same. -/
lemma field?_eq (h : FieldPath i n s (before ++ events) s')
    (hsets : ∀ e ∈ before, ∀ v, e.sets? ≠ some (i, n, v)) :
    ∀ e ∈ before, e.store.field? i n = s.field? i n := by
  induction before generalizing s with
  | nil => simp
  | cons first before ih =>
    rw [List.forall_mem_cons] at hsets ⊢
    cases h with
    | cons he h =>
      have hfirst := he.resolve_right fun ⟨v, hv⟩ => hsets.1 v hv
      exact ⟨hfirst, fun e hmem => (ih h hsets.2 e hmem).trans hfirst⟩

end FieldPath

/-- What a call does but for setting fields leaves a field alone. -/
lemma Act.field?_eq {c : Call} (h : Act c s s')
    (hset : ∀ object name value, c.task ≠ .expr (.set object name value)) :
    s'.field? i n = s.field? i n := by
  induction h with
  | aside _ _ _ _ h => exact h i n
  | trans _ _ ih ih' => exact ih'.trans ih
  | field _ _ ht => exact absurd ht (hset _ _ _)
  | _ => exact Store.field?_of_instances_eq rfl i n

/-- A call that does not set a field leaves it alone. -/
lemma Call.does_of_sets? {c : Call} (h : ∀ v, c.sets? ≠ some (i, n, v)) :
    c.Does (fun s s' => s'.field? i n = s.field? i n) (fun _ => True) := by
  by_cases hset : ∀ object name value, c.task ≠ .expr (.set object name value)
  · exact c.acts.mono (fun _ _ ha => ha.field?_eq hset) fun _ _ _ => trivial
  · push Not at hset
    obtain ⟨object, name, value, ht⟩ := hset
    obtain ⟨_, t, m⟩ := c
    obtain rfl : t = _ := ht
    rintro steps rfl
    refine ⟨trivial, fun r m₁ hobject _ => ?_⟩
    cases r with
    | instanceRef j =>
      refine ⟨trivial, fun v m₂ hvalue _ => ⟨?_, fun _ _ _ => trivial⟩⟩
      refine Store.field?_setField_of_ne fun he => h v ?_
      obtain ⟨rfl, rfl⟩ := Prod.mk.inj he
      exact (evaluate_set hobject hvalue name).1
    | _ => exact Plan.does_only rfl

variable {α : Type} {steps : Nat}

/-- What is done to the store moves the machine. -/
lemma Plan.Does.moves {acts : Store → Store → Prop} {asks : Task → Machine → Prop}
    {moves : Machine → Machine → Prop} {p : Plan α} {m : Machine}
    (h : p.Does (Task.perform steps) acts asks m)
    (hacts : ∀ m m' : Machine, acts m.store m'.store → moves m m') :
    p.Moves (Task.perform steps) moves m := by
  induction p generalizing m with
  | done a => exact trivial
  | act x next ih => exact ⟨hacts _ _ h.1, fun g after ho => ih g (h.2 g after ho)⟩
  | call mode t next ih => exact fun r after ho => ih r (h.2 r after ho (Task.advances_leave ho))

lemma FieldPath.isWay : IsWay fun m events m' => FieldPath i n m.store events m'.store where
  append := append
  enter m mode := .nil (by rw [mode.enter_store])
  leave m after mode := .nil (by rw [mode.leave_store])

/-- The way through a plan, if all of its calls are such ways. -/
lemma Plan.Does.fieldPath {p : Plan α} {m : Machine}
    (h : p.Does (Task.perform steps) (fun s s' => s'.field? i n = s.field? i n)
      (fun _ _ => True) m)
    (hcalls : ∀ t m', FieldPath i n m'.store (Call.events steps t m')
      ((t.perform steps).after m').store) :
    FieldPath i n m.store
      ((p.asked (Task.perform steps) m).flatMap fun next => Call.events steps next.1 next.2)
      ((p.perform (Task.perform steps)).after m).store :=
  FieldPath.isWay.through hcalls (h.moves fun _ _ => .nil)

/-- The way through the calls that the setting of a field makes. -/
lemma fieldPath_of_sets? {t : Task} {m : Machine} {v : Value}
    (h : Call.sets? ⟨steps + 1, t, m⟩ = some (i, n, v))
    (hcalls : ∀ t m', FieldPath i n m'.store (Call.events steps t m')
      ((t.perform steps).after m').store) :
    ∃ s', FieldPath i n m.store ((t.plan.asked (Task.perform steps) m).flatMap
      fun next => Call.events steps next.1 next.2) s' := by
  obtain ⟨steps', object, name, value, m₁, m₂, hs, rfl, rfl, hobject, hvalue⟩ :=
    Call.exists_of_sets? h
  obtain rfl : steps = steps' := Nat.succ.inj hs
  have hasked : (Task.expr (.set object name value)).plan.asked (Task.perform steps) m =
      [(.expr object, m), (.expr value, (Mode.holding (.instanceRef i)).enter m₁)] := by
    have ho : Task.perform steps (.expr object) (Mode.plain.enter m) = .ok (.instanceRef i) m₁ :=
      hobject
    have hv : Task.perform steps (.expr value)
        ((Mode.holding (.instanceRef i)).enter (Mode.plain.leave m m₁)) = .ok v m₂ := hvalue
    simp only [Task.plan, Task.exprPlan, Plan.asked, ho, hv]
    rfl
  have hafter : ((Task.expr object).perform steps).after m = m₁ :=
    Call.after_of_ok (c := ⟨steps, .expr object, m⟩) hobject
  have hfirst := hcalls (.expr object) m
  have hsecond := hcalls (.expr value) ((Mode.holding (.instanceRef i)).enter m₁)
  rw [hafter] at hfirst
  rw [Mode.enter_store] at hsecond
  rw [hasked, List.flatMap_cons, List.flatMap_cons, List.flatMap_nil, List.append_nil]
  exact ⟨_, hfirst.append hsecond⟩

/-- The way through a call. -/
lemma Call.fieldPath (t : Task) (m : Machine) :
    FieldPath i n m.store (Call.events steps t m) ((t.perform steps).after m).store := by
  induction steps generalizing t m with
  | zero =>
    have hafter : (t.perform 0).after m = m := by rw [Task.perform_zero]; rfl
    refine .cons (.inl rfl) (.cons (.inl ?_) (.nil rfl))
    exact congrArg (·.store.field? i n) hafter
  | succ steps ih =>
    refine .cons (.inl rfl) ?_
    by_cases hset : ∃ v, Call.sets? ⟨steps + 1, t, m⟩ = some (i, n, v)
    · obtain ⟨v, hv⟩ := hset
      obtain ⟨s', hinner⟩ := fieldPath_of_sets? hv ih
      exact hinner.append (.cons (.inr ⟨v, hv⟩) (.nil rfl))
    · push Not at hset
      have hinner := (Call.does_of_sets? hset steps rfl).fieldPath ih
      rw [← Task.perform_succ] at hinner
      exact hinner.append (.cons (.inl rfl) (.nil rfl))

/-- The way through a run. -/
lemma Run.fieldPath (run : Run) (i : InstanceId) (n : String) :
    FieldPath i n run.machine.store run.events run.after.store := by
  have hdoes : (programPlan run.program).Does (Task.perform run.steps)
      (fun s s' => s'.field? i n = s.field? i n) (fun _ _ => True) run.machine := by
    refine Run.programPlan_does ?_ run.program run.machine
    exact fun _ => rfl
  rw [Run.after, runProgram_eq]
  exact hdoes.fieldPath Call.fieldPath

end

end Eval

end Scripting
