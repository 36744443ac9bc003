import Mathlib.Data.List.Infix
import Scripting.Proofs.Eval.Events
import Scripting.Proofs.Session.Chains

/-!
# Properties that were set

A field that was set is what the property of this name is read as, whatever the class has under it,
as long as the field is not set again. That holds for whatever is run in between, in the same run or
in later ones. Only a getter that was stored in a field is called when the field is read with `.`,
like one of the class.
-/

namespace Scripting

open Eval

namespace Eval

/-- The way through runs that are chained. -/
lemma Chained.fieldPath {s : Store} {runs : List Run} (h : Chained s runs) (i : InstanceId)
    (n : String) : ∃ s', FieldPath i n s (runs.flatMap Run.events) s' := by
  induction runs generalizing s with
  | nil => exact ⟨s, .nil rfl⟩
  | cons run later ih =>
    obtain ⟨rfl, hlater⟩ := h
    obtain ⟨s', hpath⟩ := ih hlater
    rw [List.flatMap_cons]
    exact ⟨s', (run.fieldPath i n).append hpath⟩

section

variable {steps : Nat} {object : Expr} {name : Token} {m₀ m : Machine} {i : InstanceId} {v : Value}

/-- Reading a field gives what it has and does nothing else. -/
lemma readProperty_of_field? (hv : m.store.field? i name.lexeme = some v) :
    readProperty (.instanceRef i) name m = .ok v m := by
  rw [readProperty_instanceRef, Store.property_of_field? hv]
  rfl

/-- With `?.`, a field is read as it is. -/
lemma evaluate_nilGet (ho : evaluate steps object m₀ = .ok (.instanceRef i) m)
    (hv : m.store.field? i name.lexeme = some v) :
    evaluate (steps + 1) (.nilGet object name) m₀ = .ok v m :=
  (Exec.bind_of_ok ho).trans (readProperty_of_field? hv)

/-- With `.`, a field is read as it is, too, unless it has a getter, which is called. -/
lemma evaluate_get (ho : evaluate steps object m₀ = .ok (.instanceRef i) m)
    (hv : m.store.field? i name.lexeme = some v) :
    evaluate (steps + 1) (.get object name) m₀ =
      match m.store.getter? v with
      | none => .ok v m
      | some g => Exec.holding (.instanceRef i) (runGetter steps g) m := by
  have hstore : Exec.store m = .ok m.store m := rfl
  rw [evaluate, Exec.bind_of_ok ho, Exec.bind_of_ok (readProperty_of_field? hv),
    Exec.bind_of_ok hstore]
  cases m.store.getter? v with
  | none => rfl
  | some g => rfl

end

end Eval

/-! ### Fields in a given script -/

namespace Eval

/-- A variable is read without an effect. -/
lemma eq_of_evaluate_name {steps : Nat} {id : NodeId} {token : Token} {m m' : Machine} {r : Value}
    (h : evaluate steps (.name id token) m = .ok r m') : m' = m := by
  cases steps with
  | zero => cases h
  | succ steps =>
    have hafter : (evaluate (steps + 1) (.name id token)).after m = m := after_ofExcept _ _ m
    rwa [Exec.after, h] at hafter

/-- When a call has set a field of a variable, the instance that the variable still has, if the
field is read as a truth value then. -/
def Call.rereads? (c : Call) : Option InstanceId :=
  match c.task, c.steps with
  | .expr (.set (.name id token) name _), steps + 1 =>
    match evaluate steps (.name id token) c.after,
      evaluate (steps + 1) (.get (.name id token) name) c.after with
    | .ok (.instanceRef i) _, .ok (.bool _) _ => some i
    | _, _ => none
  | _, _ => none

lemma Call.exists_of_rereads? {c : Call} {i : InstanceId} (h : c.rereads? = some i) :
    ∃ steps id token name value b m', c.steps = steps + 1 ∧
      c.task = .expr (.set (.name id token) name value) ∧
      evaluate steps (.name id token) c.after = .ok (.instanceRef i) c.after ∧
      evaluate (steps + 1) (.get (.name id token) name) c.after = .ok (.bool b) m' := by
  unfold rereads? at h
  split at h
  · next id token name value steps ht hs =>
    split at h
    · next i' m b m' hobject hget =>
      cases h
      obtain rfl := eq_of_evaluate_name hobject
      exact ⟨steps, id, token, name, value, b, m', hs, ht, hobject, hget⟩
    · cases h
  · cases h

/-- The instance that an expression has turned out to be. -/
def Event.instance? : Event → Option InstanceId
  | .ends ⟨steps, .expr e, m⟩ =>
    match evaluate steps e m with
    | .ok (.instanceRef i) _ => some i
    | _ => none
  | _ => none

lemma Event.exists_of_instance? {e : Event} {i : InstanceId} (h : e.instance? = some i) :
    ∃ steps object m₀ m, evaluate steps object m₀ = .ok (.instanceRef i) m ∧ m.store = e.store := by
  unfold instance? at h
  split at h
  · next steps object m₀ =>
    split at h
    · next i' m ho =>
      cases h
      refine ⟨steps, object, m₀, m, ho, ?_⟩
      have hafter : Call.after ⟨steps, .expr object, m₀⟩ = m := Call.after_of_ok ho
      exact congrArg Machine.store hafter.symm
    · cases h
  · cases h

/-- A call ends that sets a field, to something else than a getter. Later on other fields are set,
but not this one, and the instance turns up again. -/
def Event.keepsField : List Event → Bool
  | .ends w :: between => w.sets?.any fun set =>
    (w.after.store.instances[set.1]?).isSome &&
    between.all (fun e => e.sets?.all fun other => (other.1, other.2.1) ≠ (set.1, set.2.1)) &&
    between.any (·.sets?.isSome) &&
    between.any fun e => e.instance? = some set.1 && (e.store.getter? set.2.2).isNone
  | _ => false

end Eval

/-- **What is set is what is read.** Take what happens in runs one after the other, which are the
starts and the ends of all their calls. When a call has set a field of an instance, then until a
call ends that sets it again, the property of this name is read as the value that was set, whatever
the class has under the name. With `?.` this is so for all values, and with `.` for all but getters,
which are called instead; apart from that, reading has no effect. And setting a field makes no
difference to properties of other names or of other instances. -/
theorem fields_read_as_set (s : Store) (runs : List Run) (hchain : Chained s runs) :
    let events := runs.flatMap Run.events
    (∀ c, VisitedIn runs c ↔ .ends c ∈ events) ∧
    (∀ before w between later i n v, events = before ++ .ends w :: (between ++ later) →
      w.sets? = some (i, n, v) → (w.after.store.instances[i]?).isSome →
        (∀ e ∈ between, ∀ v', e.sets? ≠ some (i, n, v')) →
          ∀ e ∈ .ends w :: between, ∀ steps object name m₀ m, name.lexeme = n →
            evaluate steps object m₀ = .ok (.instanceRef i) m → m.store = e.store →
              evaluate (steps + 1) (.nilGet object name) m₀ = .ok v m ∧
              evaluate (steps + 1) (.get object name) m₀ =
                match m.store.getter? v with
                | none => .ok v m
                | some g => Exec.holding (.instanceRef i) (runGetter steps g) m) ∧
    ∀ steps object name value m m₁ m₂ i v, evaluate steps object m = .ok (.instanceRef i) m₁ →
      evaluate steps value ((Mode.holding (.instanceRef i)).enter m₁) = .ok v m₂ →
        Call.sets? ⟨steps + 1, .expr (.set object name value), m⟩ = some (i, name.lexeme, v) ∧
        ∃ after, evaluate (steps + 1) (.set object name value) m = .ok v after ∧
          ∀ j other, (j, other) ≠ (i, name.lexeme) → after.store.property j other =
            ((m₂.store.property j other).1,
              (m₂.store.property j other).2.setField i name.lexeme v) := by
  intro events
  refine ⟨fun c => ?_, ?_, ?_⟩
  · simp only [events, VisitedIn, List.mem_flatMap, Run.ends_mem_events]
  · rintro before w between later i n v hevents hset hi hnone e he steps object name m₀ m rfl ho hm
    obtain ⟨s', hpath⟩ := hchain.fieldPath i name.lexeme
    change FieldPath i name.lexeme s events s' at hpath
    rw [hevents] at hpath
    have hw : w.after.store.field? i name.lexeme = some v := Call.field?_after_of_sets? hset hi
    have hfield : m.store.field? i name.lexeme = some v := by
      rw [hm]
      rcases List.mem_cons.mp he with rfl | he
      · exact hw
      · exact (hpath.of_append_cons.field?_eq hnone e he).trans hw
    exact ⟨evaluate_nilGet ho hfield, evaluate_get ho hfield⟩
  · intro steps object name value m m₁ m₂ i v hobject hvalue
    obtain ⟨hset, after, ho, hstore⟩ := evaluate_set hobject hvalue name
    refine ⟨hset, after, ho, fun j other hne => ?_⟩
    rw [hstore]
    exact Store.property_setField_of_ne hne

/-- A getter of a class is hidden by a field, while the field of another instance is set. -/
theorem fields_read_as_set_over_getter :
    let s := Session.start (.start (.ofLimit none) [] .isolated 0)
    let runs := s.runs [Request.source 30 false
      "class A \x7b n \x7b return nil; \x7d \x7d var o = A(); o.n = true; A().n = nil; o.m = o.n;"]
    ∃ before w between e i n v steps object name m₀ m,
      runs.flatMap Run.events = before ++ .ends w :: between ∧ w.sets? = some (i, n, v) ∧
      (∃ x ∈ between, x.sets?.isSome) ∧ e ∈ between ∧ name.lexeme = n ∧ m.store = e.store ∧
      evaluate steps object m₀ = .ok (.instanceRef i) m ∧
      evaluate (steps + 1) (.get object name) m₀ = .ok v m := by
  intro s runs
  have htest : (runs.flatMap Run.events).tails.any Event.keepsField := by decide +kernel
  obtain ⟨tail, htail, htest⟩ := List.any_eq_true.mp htest
  obtain ⟨before, hevents⟩ := (List.mem_tails _ _).mp htail
  unfold Event.keepsField at htest
  split at htest
  · next w between =>
    obtain ⟨⟨i, n, v⟩, hset, htest⟩ := (Option.any_eq_true _ _).mp htest
    simp only [Bool.and_eq_true, List.all_eq_true, List.any_eq_true, decide_eq_true_eq] at htest
    obtain ⟨⟨⟨hi, hnone⟩, hother⟩, e, he, hinstance, hgetter⟩ := htest
    obtain ⟨-, -, name, -, -, -, -, -, hname, -⟩ := Call.exists_of_sets? hset
    obtain ⟨steps, object, m₀, m, ho, hm⟩ := Event.exists_of_instance? hinstance
    have hsplit : runs.flatMap Run.events = before ++ .ends w :: (between ++ []) := by
      rw [List.append_nil, ← hevents]
    have hunset : ∀ x ∈ between, ∀ v', x.sets? ≠ some (i, n, v') := by
      intro x hx v' hv'
      simpa [hv'] using hnone x hx
    obtain ⟨-, hread, -⟩ := fields_read_as_set _ runs (s.chained_runs _)
    obtain ⟨-, hget⟩ := hread before w between [] i n v hsplit hset hi hunset e
      (List.mem_cons_of_mem _ he) steps object name m₀ m hname ho hm
    rw [hm, Option.isNone_iff_eq_none.mp hgetter] at hget
    exact ⟨before, w, between, e, i, n, v, steps, object, name, m₀, m, hevents.symm, hset, hother,
      he, hname, hm, ho, hget⟩
  · cases htest

/-- A getter that is no member of a class is a value like others, and it is called when it is read
as a field. -/
theorem get_calls_getter_of_field :
    let s := Session.start (.start (.ofLimit none) [] .isolated 0)
    let runs := s.runs [Request.source 30 false
      "fun g \x7b return true; \x7d class A \x7b\x7d var o = A(); o.n = g;"]
    ∃ steps object name value m m₁ after i v,
      VisitedIn runs ⟨steps + 1, .expr (.set object name value), m⟩ ∧
      evaluate steps object m = .ok (.instanceRef i) m₁ ∧
      evaluate (steps + 1) (.set object name value) m = .ok v after ∧
      evaluate steps object after = .ok (.instanceRef i) after ∧
      ∀ after', evaluate (steps + 1) (.get object name) after ≠ .ok v after' := by
  intro s runs
  have htest : (runs.flatMap Run.calls).any fun c => c.sets?.any fun set =>
      (c.after.store.getter? set.2.2).isSome && c.rereads? = some set.1 := by decide +kernel
  obtain ⟨⟨steps, t, m⟩, hc, htest⟩ := exists_visitedIn htest
  obtain ⟨⟨i, n, v⟩, hset, htest⟩ := (Option.any_eq_true _ _).mp htest
  obtain ⟨hgetter, hread⟩ := (Bool.and_eq_true _ _).mp htest
  obtain ⟨steps, _, _, _, m₁, m₂, rfl, rfl, -, hobject, hvalue⟩ := Call.exists_of_sets? hset
  obtain ⟨steps', id, token, name, value, b, m', hs, ht, hagain, hget⟩ :=
    Call.exists_of_rereads? (of_decide_eq_true hread)
  obtain rfl : steps = steps' := Nat.succ.inj hs
  obtain ⟨rfl, rfl, rfl⟩ := Expr.set.inj (Task.expr.inj ht.symm)
  obtain ⟨-, after, ho, -⟩ := evaluate_set hobject hvalue name
  have hafter : Call.after ⟨steps + 1, .expr (.set (.name id token) name value), m⟩ = after :=
    Call.after_of_ok ho
  rw [hafter] at hagain hget
  refine ⟨steps, _, name, value, m, m₁, after, i, v, hc, hobject, ho, hagain, fun after' he => ?_⟩
  -- a truth value is no getter
  obtain ⟨rfl, -⟩ := EStateM.Result.ok.inj (hget.symm.trans he)
  cases hgetter

end Scripting
