import Scripting.Proofs.Eval.Calls

/-!
# How tasks end

The number of steps decides only whether a task comes to its end. A task that gives a result or ends
in a fault within some number of steps does the same within every larger number. So one can say how
a task *ends* without saying in how many steps, and how a plan ends is put together from how its
calls do.
-/

namespace Scripting

namespace Exec

variable {α β : Type} {m after : Machine}

/-- An action gives a result or ends in a fault, and leaves another machine. -/
def Ends (x : Exec α) (m : Machine) (o : Except Fault α) (after : Machine) : Prop :=
  x m = match o with
    | .ok a => .ok a after
    | .error fault => .error (.fault fault) after

/-- An action ends in one way only. -/
lemma Ends.unique {x : Exec α} {o o' : Except Fault α} {after' : Machine} (h : x.Ends m o after)
    (h' : x.Ends m o' after') : o = o' ∧ after = after' := by
  have he := Eq.trans (Eq.symm h) h'
  cases o with
  | ok a =>
    cases o' with
    | ok a' =>
      cases he
      exact ⟨rfl, rfl⟩
    | error fault => cases he
  | error fault =>
    cases o' with
    | ok a' => cases he
    | error fault' =>
      cases he
      exact ⟨rfl, rfl⟩

/-- How an action ends is known when one way to end is. -/
lemma Ends.iff {x : Exec α} {o o' : Except Fault α} {after' : Machine} (h : x.Ends m o' after') :
    x.Ends m o after ↔ o = o' ∧ after = after' := by
  constructor
  · exact fun h' => h'.unique h
  · rintro ⟨rfl, rfl⟩
    exact h

lemma ends_pure {a : α} {o : Except Fault α} :
    (pure a : Exec α).Ends m o after ↔ o = .ok a ∧ after = m := by
  have hok : (pure a : Exec α).Ends m (.ok a) m := rfl
  exact hok.iff

/-- Two actions one after the other end in what the second one does, or in a fault of the first. -/
lemma ends_bind {x : Exec α} {next : α → Exec β} {o : Except Fault β} :
    (x >>= next).Ends m o after ↔
      (∃ a between, x.Ends m (.ok a) between ∧ (next a).Ends between o after) ∨
        ∃ fault, o = .error fault ∧ x.Ends m (.error fault) after := by
  unfold Ends
  cases hx : x m with
  | ok a between =>
    rw [bind_of_ok hx]
    constructor
    · exact fun h => .inl ⟨a, between, rfl, h⟩
    · rintro (⟨a', between', he, h⟩ | ⟨fault, -, he⟩)
      · cases he
        exact h
      · cases he
  | error stop between =>
    rw [bind_of_error hx]
    constructor
    · intro h
      cases o with
      | ok b => cases h
      | error fault =>
        cases h
        exact .inr ⟨fault, rfl, rfl⟩
    · rintro (⟨a, between', he, -⟩ | ⟨fault, rfl, he⟩)
      · cases he
      · cases he
        rfl

end Exec

namespace Eval

variable {α : Type} {m after : Machine}

namespace Mode

/-- An action in a mode ends as the action does. -/
lemma ends_wrap (mode : Mode) {x : Exec α} {o : Except Fault α} :
    (mode.wrap x).Ends m o after ↔
      ∃ inside, x.Ends (mode.enter m) o inside ∧ after = mode.leave m inside := by
  unfold Exec.Ends
  rw [mode.wrap_apply]
  cases x (mode.enter m) with
  | ok a inside =>
    cases o with
    | ok b => grind
    | error fault => grind
  | error stop inside =>
    cases o with
    | ok b => grind
    | error fault => grind

end Mode

/-! ### More steps change nothing -/

namespace Plan

/-- Behind a call, a plan ends as what comes then, or in a fault of the call. -/
lemma ends_perform_call {self : (t : Task) → Exec t.Result} {mode : Mode} {t : Task}
    {next : t.Result → Plan α} {o : Except Fault α} :
    ((call mode t next).perform self).Ends m o after ↔
      (∃ r inside, (self t).Ends (mode.enter m) (.ok r) inside ∧
        ((next r).perform self).Ends (mode.leave m inside) o after) ∨
      ∃ fault inside, o = .error fault ∧ (self t).Ends (mode.enter m) (.error fault) inside ∧
        after = mode.leave m inside := by
  rw [perform_call, Exec.ends_bind]
  constructor
  · rintro (⟨r, between, ht, hn⟩ | ⟨fault, rfl, ht⟩)
    · obtain ⟨inside, hi, rfl⟩ := mode.ends_wrap.mp ht
      exact .inl ⟨r, inside, hi, hn⟩
    · obtain ⟨inside, hi, rfl⟩ := mode.ends_wrap.mp ht
      exact .inr ⟨fault, inside, rfl, hi, rfl⟩
  · rintro (⟨r, inside, hi, hn⟩ | ⟨fault, inside, rfl, hi, rfl⟩)
    · exact .inl ⟨r, _, mode.ends_wrap.mpr ⟨inside, hi, rfl⟩, hn⟩
    · exact .inr ⟨fault, rfl, mode.ends_wrap.mpr ⟨inside, hi, rfl⟩⟩

/-- If the calls of a plan end in the same way, so does the plan. -/
lemma ends_of_calls {self self' : (t : Task) → Exec t.Result} {o : Except Fault α}
    (hself : ∀ t m o after, (self t).Ends m o after → (self' t).Ends m o after) {p : Plan α}
    (h : (p.perform self).Ends m o after) : (p.perform self').Ends m o after := by
  induction p generalizing m with
  | done a => exact h
  | act x next ih =>
    rcases Exec.ends_bind.mp h with ⟨g, between, hx, hn⟩ | ⟨fault, rfl, hx⟩
    · exact Exec.ends_bind.mpr (.inl ⟨g, between, hx, ih g hn⟩)
    · exact Exec.ends_bind.mpr (.inr ⟨fault, rfl, hx⟩)
  | call mode t next ih =>
    rcases ends_perform_call.mp h with ⟨r, inside, ht, hn⟩ | ⟨fault, inside, rfl, ht, rfl⟩
    · exact ends_perform_call.mpr (.inl ⟨r, inside, hself t _ _ _ ht, ih r hn⟩)
    · exact ends_perform_call.mpr (.inr ⟨fault, inside, rfl, hself t _ _ _ ht, rfl⟩)

end Plan

/-- A task that ends within some number of steps does so within one more. -/
lemma Task.ends_succ {steps : Nat} {t : Task} {o : Except Fault t.Result}
    (h : (t.perform steps).Ends m o after) : (t.perform (steps + 1)).Ends m o after := by
  induction steps generalizing t m after with
  | zero =>
    rw [t.perform_zero] at h
    cases o <;> cases h
  | succ steps ih =>
    rw [t.perform_succ] at h ⊢
    exact Plan.ends_of_calls (fun _ _ _ _ hc => ih hc) h

/-- A task that ends within some number of steps does so within every larger one. -/
theorem Task.ends_of_le {steps more : Nat} {t : Task} {o : Except Fault t.Result}
    (h : (t.perform steps).Ends m o after) (hle : steps ≤ more) :
    (t.perform more).Ends m o after := by
  induction hle with
  | refl => exact h
  | step _ ih => exact Task.ends_succ ih

/-! ### Ends without a number of steps -/

/-- A task ends in some number of steps. -/
def Task.Ends (t : Task) (m : Machine) (o : Except Fault t.Result) (after : Machine) : Prop :=
  ∃ steps, (t.perform steps).Ends m o after

/-- A plan ends if its calls get some number of steps. -/
def Plan.Ends (p : Plan α) (m : Machine) (o : Except Fault α) (after : Machine) : Prop :=
  ∃ steps, (p.perform (Task.perform steps)).Ends m o after

/-- A task ends in one way only, whatever the number of steps. -/
theorem Task.Ends.unique {t : Task} {o o' : Except Fault t.Result} {after' : Machine}
    (h : t.Ends m o after) (h' : t.Ends m o' after') : o = o' ∧ after = after' := by
  obtain ⟨steps, h⟩ := h
  obtain ⟨steps', h'⟩ := h'
  exact (Task.ends_of_le h (Nat.le_add_right steps steps')).unique
    (Task.ends_of_le h' (Nat.le_add_left steps' steps))

/-- What a task does at its end, it has done by the way. -/
lemma Task.Ends.advances {t : Task} {o : Except Fault t.Result} (h : t.Ends m o after) :
    m.Advances after := by
  obtain ⟨steps, h⟩ := h
  have ha := Task.perform_advances steps t m
  unfold Exec.Ends at h
  unfold Exec.after at ha
  cases o with
  | ok a =>
    rw [h] at ha
    exact ha
  | error fault =>
    rw [h] at ha
    exact ha

/-- A task ends as its plan does. -/
theorem Task.ends_iff {t : Task} {o : Except Fault t.Result} :
    t.Ends m o after ↔ t.plan.Ends m o after := by
  constructor
  · rintro ⟨steps, h⟩
    have h' := Task.ends_succ h
    rw [t.perform_succ] at h'
    exact ⟨steps, h'⟩
  · rintro ⟨steps, h⟩
    exact ⟨steps + 1, by rwa [t.perform_succ]⟩

namespace Plan

lemma ends_done {a : α} {o : Except Fault α} :
    (done a).Ends m o after ↔ o = .ok a ∧ after = m := by
  constructor
  · rintro ⟨_, h⟩
    exact Exec.ends_pure.mp h
  · exact fun h => ⟨0, Exec.ends_pure.mpr h⟩

/-- Behind an action, a plan ends as what comes then, or in a fault of the action. -/
lemma ends_act {γ : Type} {x : Exec γ} {next : γ → Plan α} {o : Except Fault α} :
    (act x next).Ends m o after ↔
      (∃ g between, x m = .ok g between ∧ (next g).Ends between o after) ∨
        ∃ fault, o = .error fault ∧ x m = .error (.fault fault) after := by
  constructor
  · rintro ⟨steps, h⟩
    rcases Exec.ends_bind.mp h with ⟨g, between, hx, hn⟩ | ⟨fault, rfl, hx⟩
    · exact .inl ⟨g, between, hx, steps, hn⟩
    · exact .inr ⟨fault, rfl, hx⟩
  · rintro (⟨g, between, hx, steps, hn⟩ | ⟨fault, rfl, hx⟩)
    · exact ⟨steps, Exec.ends_bind.mpr (.inl ⟨g, between, hx, hn⟩)⟩
    · exact ⟨0, Exec.ends_bind.mpr (.inr ⟨fault, rfl, hx⟩)⟩

/-- Behind an action that is known to give a result. -/
lemma ends_act_of_ok {γ : Type} {x : Exec γ} {next : γ → Plan α} {o : Except Fault α} {g : γ}
    {between : Machine} (hx : x m = .ok g between) :
    (act x next).Ends m o after ↔ (next g).Ends between o after := by
  rw [ends_act, hx]
  grind

/-- An action that ends in a fault ends the plan. -/
lemma ends_act_of_error {γ : Type} {x : Exec γ} {next : γ → Plan α} {o : Except Fault α}
    {fault : Fault} {between : Machine} (hx : x m = .error (.fault fault) between) :
    (act x next).Ends m o after ↔ o = .error fault ∧ after = between := by
  rw [ends_act, hx]
  grind

lemma ends_get {next : Machine → Plan α} {o : Except Fault α} :
    (act get next).Ends m o after ↔ (next m).Ends m o after :=
  ends_act_of_ok rfl

lemma ends_changeStore {change : Store → Store} {next : Unit → Plan α} {o : Except Fault α} :
    (act (Exec.changeStore change) next).Ends m o after ↔
      (next ()).Ends { m with store := change m.store } o after :=
  ends_act_of_ok rfl

lemma ends_updateStore {γ : Type} {update : Store → γ × Store} {next : γ → Plan α}
    {o : Except Fault α} :
    (act (Exec.updateStore update) next).Ends m o after ↔
      (next (update m.store).1).Ends { m with store := (update m.store).2 } o after :=
  ends_act_of_ok rfl

lemma ends_only {x : Exec α} {o : Except Fault α} : (only x).Ends m o after ↔ x.Ends m o after := by
  constructor
  · rintro ⟨steps, h⟩
    rwa [perform_only] at h
  · exact fun h => ⟨0, by rwa [perform_only]⟩

/-- Behind a call, a plan ends as what comes then, or in a fault of the call. -/
theorem ends_call {mode : Mode} {t : Task} {next : t.Result → Plan α} {o : Except Fault α} :
    (call mode t next).Ends m o after ↔
      (∃ r inside, t.Ends (mode.enter m) (.ok r) inside ∧
        (next r).Ends (mode.leave m inside) o after) ∨
      ∃ fault inside, o = .error fault ∧ t.Ends (mode.enter m) (.error fault) inside ∧
        after = mode.leave m inside := by
  constructor
  · rintro ⟨steps, h⟩
    rcases ends_perform_call.mp h with ⟨r, inside, ht, hn⟩ | ⟨fault, inside, rfl, ht, rfl⟩
    · exact .inl ⟨r, inside, ⟨steps, ht⟩, steps, hn⟩
    · exact .inr ⟨fault, inside, rfl, ⟨steps, ht⟩, rfl⟩
  · rintro (⟨r, inside, ⟨steps, ht⟩, steps', hn⟩ | ⟨fault, inside, rfl, ⟨steps, ht⟩, rfl⟩)
    · -- enough steps for the call and for what comes then
      have ht' := Task.ends_of_le ht (Nat.le_add_right steps steps')
      have hn' := ends_of_calls
        (fun _ _ _ _ hc => Task.ends_of_le hc (Nat.le_add_left steps' steps)) hn
      exact ⟨steps + steps', ends_perform_call.mpr (.inl ⟨r, inside, ht', hn'⟩)⟩
    · exact ⟨steps, ends_perform_call.mpr (.inr ⟨fault, inside, rfl, ht, rfl⟩)⟩

/-- Behind a call that is known to give a result. -/
lemma ends_call_of_ok {mode : Mode} {t : Task} {next : t.Result → Plan α} {o : Except Fault α}
    {r : t.Result} {inside : Machine} (h : t.Ends (mode.enter m) (.ok r) inside) :
    (call mode t next).Ends m o after ↔ (next r).Ends (mode.leave m inside) o after := by
  rw [ends_call]
  constructor
  · rintro (⟨r', inside', h', hn⟩ | ⟨fault, inside', -, h', -⟩)
    · obtain ⟨hr, rfl⟩ := h.unique h'
      obtain rfl := Except.ok.inj hr
      exact hn
    · cases (h.unique h').1
  · exact fun hn => .inl ⟨r, inside, h, hn⟩

/-- A plan that is done after a call ends as this does in its mode. -/
lemma ends_call_done {mode : Mode} {t : Task} {o : Except Fault t.Result} :
    (call mode t .done).Ends m o after ↔ ∃ steps, (mode.wrap (t.perform steps)).Ends m o after := by
  simp [Plan.Ends]

/-- A plan that ends with a call ends as this does. -/
lemma ends_tail {t : Task} {o : Except Fault t.Result} :
    (tail t).Ends m o after ↔ t.Ends m o after := by
  constructor
  · rintro ⟨steps, h⟩
    exact ⟨steps, by rwa [perform_tail] at h⟩
  · rintro ⟨steps, h⟩
    exact ⟨steps, by rwa [perform_tail]⟩

end Plan

/-- A call of a callable, with as many arguments as it takes, ends as this does. -/
lemma ends_call_callable {id : CallableId} {k : Callable} {line : Nat} {arguments : List Value}
    {o : Except Fault Value} (hk : m.store.callables[id]? = some k)
    (harity : arguments.length = k.arity) :
    (Task.call (.callable id) line arguments).Ends m o after ↔
      (Task.callable k arguments).Ends m o after := by
  have hplan : (Task.call (.callable id) line arguments).plan =
      Task.callPlan (.callable id) line arguments := rfl
  rw [Task.ends_iff, hplan, Task.callPlan, Plan.ends_act_of_ok (x := Exec.store) rfl]
  simp only [hk, if_pos harity]
  exact Plan.ends_tail

end Eval

end Scripting
