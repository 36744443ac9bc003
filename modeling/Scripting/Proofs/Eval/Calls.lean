import Scripting.Proofs.Eval.Advance

/-!
# The calls of a run

A run of the evaluator is a tree of calls. `Call.Makes` leads from a call to those that it makes by
itself, and `Call.Reaches` to all that are made while it is under way. A call that stops without a
result stops every call that is under way.

A *law* says what holds in front of every call, behind every call that gives a result, and where a
call stops. If every plan keeps a law, given that the calls it makes do, then so does every run.
-/

namespace Scripting

namespace Eval

/-- The evaluator is to do a task on a machine, in a number of steps. -/
structure Call where
  steps : Nat
  task : Task
  machine : Machine

namespace Plan

variable {α : Type}

/-- While a plan is followed on a machine, a task is asked for on another one. -/
def Asks (self : (t : Task) → Exec t.Result) : Plan α → Machine → Task → Machine → Prop
  | .done _, _, _, _ => False
  | .act x next, m, t, m' => ∃ g after, x m = .ok g after ∧ (next g).Asks self after t m'
  | .call mode asked next, m, t, m' =>
    (t = asked ∧ m' = mode.enter m) ∨
      ∃ r after, self asked (mode.enter m) = .ok r after ∧
        (next r).Asks self (mode.leave m after) t m'

lemma perform_call_of_ok {self : (t : Task) → Exec t.Result} {mode : Mode} {t : Task}
    {next : t.Result → Plan α} {m m₁ : Machine} {r : t.Result}
    (h : self t (mode.enter m) = .ok r m₁) :
    (call mode t next).perform self m = (next r).perform self (mode.leave m m₁) := by
  have hw := mode.wrap_apply (self t) m
  rw [h] at hw
  rw [perform_call, Exec.bind_of_ok hw]

/-- A plan gives a result behind a call if the call does. -/
lemma perform_call_eq_ok {self : (t : Task) → Exec t.Result} {mode : Mode} {t : Task}
    {next : t.Result → Plan α} {m m' : Machine} {a : α} :
    (call mode t next).perform self m = .ok a m' ↔
      ∃ r m₁, self t (mode.enter m) = .ok r m₁ ∧
        (next r).perform self (mode.leave m m₁) = .ok a m' := by
  cases h : self t (mode.enter m) with
  | ok r m₁ => simp [perform_call_of_ok h]
  | error stop m₁ =>
    have hw := mode.wrap_apply (self t) m
    rw [h] at hw
    rw [perform_call, Exec.bind_of_error hw]
    simp

lemma perform_act_eq_ok {self : (t : Task) → Exec t.Result} {γ : Type} {x : Exec γ}
    {next : γ → Plan α} {m m' : Machine} {a : α} :
    (act x next).perform self m = .ok a m' ↔
      ∃ g m₁, x m = .ok g m₁ ∧ (next g).perform self m₁ = .ok a m' := by
  rw [perform_act]
  cases h : x m with
  | ok g m₁ =>
    rw [Exec.bind_of_ok h]
    simp
  | error stop m₁ =>
    rw [Exec.bind_of_error h]
    simp

/-- A plan that ends with a call gives what this gives. -/
lemma perform_tail (self : (t : Task) → Exec t.Result) (t : Task) :
    (tail t).perform self = self t :=
  bind_pure _

lemma asks_tail {self : (t : Task) → Exec t.Result} {t t' : Task} {m m' : Machine} :
    (tail t).Asks self m t' m' ↔ t' = t ∧ m' = m := by
  simp [tail, Asks, Mode.enter]

lemma perform_done_eq_ok {self : (t : Task) → Exec t.Result} {m m' : Machine} {a b : α} :
    (done b).perform self m = .ok a m' ↔ b = a ∧ m = m' := by
  simp [Pure.pure, EStateM.pure]

/-- What a call inside of a plan stops with, the plan stops with. -/
lemma Asks.error {self : (t : Task) → Exec t.Result} {p : Plan α} {m m' after : Machine}
    {t : Task} {stop : Stop} (ha : p.Asks self m t m') (h : self t m' = .error stop after) :
    ∃ after', p.perform self m = .error stop after' ∧ after'.store = after.store := by
  induction p generalizing m with
  | done a => exact ha.elim
  | act x next ih =>
    obtain ⟨g, m₁, hx, ha⟩ := ha
    obtain ⟨after', hp, hs⟩ := ih g ha
    exact ⟨after', (Exec.bind_of_ok hx).trans hp, hs⟩
  | call mode asked next ih =>
    obtain ⟨rfl, rfl⟩ | ⟨r, m₁, hr, ha⟩ := ha
    · refine ⟨mode.leave m after, Exec.bind_of_error ?_, mode.leave_store m after⟩
      rw [Mode.wrap_apply, h]
    · obtain ⟨after', hp, hs⟩ := ih r ha
      refine ⟨after', (Exec.bind_of_ok ?_).trans hp, hs⟩
      rw [Mode.wrap_apply, hr]

end Plan

namespace Call

/-- How a call ends. -/
def outcome (c : Call) : EStateM.Result Stop Machine c.task.Result :=
  c.task.perform c.steps c.machine

/-- A call makes another one by itself. -/
def Makes (c c' : Call) : Prop :=
  c.steps = c'.steps + 1 ∧
    c.task.plan.Asks (Task.perform c'.steps) c.machine c'.task c'.machine

/-- A call is made while `root` is under way. The trail has those that are under way then, the
innermost first. -/
inductive Reaches (root : Call) : List Call → Call → Prop
  | start : Reaches root [] root
  | made {trail : List Call} {c c' : Call} :
    Reaches root trail c → c.Makes c' → Reaches root (c :: trail) c'

/-- What is reached from a call that another one makes is reached from that one. -/
lemma Makes.reaches {c c' x : Call} {trail : List Call} (hm : c.Makes c')
    (h : c'.Reaches trail x) : c.Reaches (trail ++ [c]) x := by
  induction h with
  | start => exact .made .start hm
  | made _ hx ih => exact .made ih hx

/-- A call that makes one that stops stops, too. -/
lemma Makes.error {c c' : Call} {stop : Stop} {after : Machine} (hm : c.Makes c')
    (h : c'.outcome = .error stop after) :
    ∃ after', c.outcome = .error stop after' ∧ after'.store = after.store := by
  obtain ⟨hs, ha⟩ := hm
  rw [outcome, hs, Task.perform_succ]
  exact ha.error h

/-- Whatever is under way when a call stops stops, too. -/
lemma Reaches.error {root c : Call} {trail : List Call} {stop : Stop} {after : Machine}
    (hr : root.Reaches trail c) (h : c.outcome = .error stop after) :
    ∀ v ∈ root :: trail, ∃ after', v.outcome = .error stop after' ∧ after'.store = after.store := by
  induction hr generalizing after with
  | start => simpa using ⟨after, h, rfl⟩
  | made _ hm ih =>
    obtain ⟨after', h', hs⟩ := hm.error h
    intro v hv
    rcases List.mem_cons.mp hv with rfl | hv
    · obtain ⟨after'', h'', hs'⟩ := ih h' v List.mem_cons_self
      exact ⟨after'', h'', hs'.trans hs⟩
    · rcases List.mem_cons.mp hv with rfl | hv
      · exact ⟨after', h', hs⟩
      · obtain ⟨after'', h'', hs'⟩ := ih h' v (List.mem_cons_of_mem _ hv)
        exact ⟨after'', h'', hs'.trans hs⟩

end Call

/-- What holds of the calls of a run, each with the calls that are under way when it is made. -/
structure Law where
  /-- In front of a call. -/
  ready : List Call → Call → Prop
  /-- Behind a call that gives a result. -/
  done : List Call → (c : Call) → c.task.Result → Machine → Prop
  /-- Where a call stops by itself. -/
  stopped : List Call → Call → Stop → Machine → Prop

/-- Calls with a number of steps that are ready and give a result are done as a law says. -/
def Law.Settles (law : Law) (steps : Nat) : Prop :=
  ∀ (trail : List Call) (t : Task) (m : Machine) (r : t.Result) (after : Machine),
    law.ready trail ⟨steps, t, m⟩ → t.perform steps m = .ok r after →
      law.done trail ⟨steps, t, m⟩ r after

namespace Plan

variable {α : Type} {law : Law} {steps : Nat} {trail : List Call} {result : α → Machine → Prop}
  {halt : Stop → Machine → Prop}

/-- A plan keeps a law: its calls are ready if those before are done as they should, and it ends as
said, unless one of its calls stops. -/
def Keeps (law : Law) (steps : Nat) (trail : List Call) (result : α → Machine → Prop)
    (halt : Stop → Machine → Prop) : Plan α → Machine → Prop
  | .done a, m => result a m
  | .act x next, m =>
    (∀ g after, x m = .ok g after → (next g).Keeps law steps trail result halt after) ∧
      ∀ stop after, x m = .error stop after → halt stop after
  | .call mode t next, m =>
    law.ready trail ⟨steps, t, mode.enter m⟩ ∧
      ∀ r after, t.perform steps (mode.enter m) = .ok r after →
        law.done trail ⟨steps, t, mode.enter m⟩ r after →
          (next r).Keeps law steps trail result halt (mode.leave m after)

lemma Keeps.of_asks {p : Plan α} {m m' : Machine} {t : Task}
    (hk : p.Keeps law steps trail result halt m) (hlaw : law.Settles steps)
    (ha : p.Asks (Task.perform steps) m t m') : law.ready trail ⟨steps, t, m'⟩ := by
  induction p generalizing m with
  | done a => exact ha.elim
  | act x next ih =>
    obtain ⟨g, after, hx, ha⟩ := ha
    exact ih g (hk.1 g after hx) ha
  | call mode asked next ih =>
    obtain ⟨rfl, rfl⟩ | ⟨r, after, hr, ha⟩ := ha
    · exact hk.1
    · exact ih r (hk.2 r after hr (hlaw trail asked _ r after hk.1 hr)) ha

lemma Keeps.of_ok {p : Plan α} {m after : Machine} {a : α}
    (hk : p.Keeps law steps trail result halt m) (hlaw : law.Settles steps)
    (h : p.perform (Task.perform steps) m = .ok a after) : result a after := by
  induction p generalizing m with
  | done b =>
    obtain ⟨rfl, rfl⟩ : b = a ∧ m = after := by
      simpa [Pure.pure, EStateM.pure] using h
    exact hk
  | act x next ih =>
    simp only [perform_act, Bind.bind, EStateM.bind] at h
    split at h
    · next g m₁ hx => exact ih g (hk.1 g m₁ hx) h
    · cases h
  | call mode t next ih =>
    simp only [perform_call, Bind.bind, EStateM.bind, Mode.wrap_apply] at h
    cases hr : t.perform steps (mode.enter m) with
    | error stop m₁ =>
      rw [hr] at h
      cases h
    | ok r m₁ =>
      rw [hr] at h
      exact ih r (hk.2 r m₁ hr (hlaw trail t _ r m₁ hk.1 hr)) h

/-- A plan stops because of one of its actions or because of one of its calls. -/
lemma Keeps.of_error {p : Plan α} {m after : Machine} {stop : Stop}
    (hk : p.Keeps law steps trail result halt m) (hlaw : law.Settles steps)
    (h : p.perform (Task.perform steps) m = .error stop after) :
    halt stop after ∨ ∃ t m' after', p.Asks (Task.perform steps) m t m' ∧
      t.perform steps m' = .error stop after' ∧ after'.store = after.store := by
  induction p generalizing m with
  | done b => cases h
  | act x next ih =>
    simp only [perform_act, Bind.bind, EStateM.bind] at h
    split at h
    · next g m₁ hx =>
      obtain hs | ⟨t, m', after', ha, hp⟩ := ih g (hk.1 g m₁ hx) h
      · exact .inl hs
      · exact .inr ⟨t, m', after', ⟨g, m₁, hx, ha⟩, hp⟩
    · next stop' m₁ hx =>
      obtain ⟨rfl, rfl⟩ : stop' = stop ∧ m₁ = after := by simpa using h
      exact .inl (hk.2 stop' m₁ hx)
  | call mode t next ih =>
    simp only [perform_call, Bind.bind, EStateM.bind, Mode.wrap_apply] at h
    cases hr : t.perform steps (mode.enter m) with
    | error stop' m₁ =>
      rw [hr] at h
      obtain ⟨rfl, rfl⟩ : stop' = stop ∧ mode.leave m m₁ = after := by simpa using h
      exact .inr ⟨t, mode.enter m, m₁, .inl ⟨rfl, rfl⟩, hr, (mode.leave_store m m₁).symm⟩
    | ok r m₁ =>
      rw [hr] at h
      obtain hs | ⟨t', m', after', ha, hp⟩ :=
        ih r (hk.2 r m₁ hr (hlaw trail t _ r m₁ hk.1 hr)) h
      · exact .inl hs
      · exact .inr ⟨t', m', after', .inr ⟨r, m₁, hr, ha⟩, hp⟩

/-! Keeping a law, for the actions that plans have. -/

lemma keeps_of_ok {γ : Type} {x : Exec γ} {next : γ → Plan α} {m after : Machine} {g : γ}
    (hx : x m = .ok g after) (h : (next g).Keeps law steps trail result halt after) :
    (act x next).Keeps law steps trail result halt m := by
  constructor
  · intro g' after' hx'
    rw [hx] at hx'
    cases hx'
    exact h
  · intro stop after' hx'
    rw [hx] at hx'
    cases hx'

lemma keeps_of_error {γ : Type} {x : Exec γ} {next : γ → Plan α} {m after : Machine} {stop : Stop}
    (hx : x m = .error stop after) (h : halt stop after) :
    (act x next).Keeps law steps trail result halt m := by
  constructor
  · intro g after' hx'
    rw [hx] at hx'
    cases hx'
  · intro stop' after' hx'
    rw [hx] at hx'
    cases hx'
    exact h

lemma keeps_get {next : Machine → Plan α} {m : Machine}
    (h : (next m).Keeps law steps trail result halt m) :
    (act get next).Keeps law steps trail result halt m :=
  keeps_of_ok rfl h

lemma keeps_store {next : Store → Plan α} {m : Machine}
    (h : (next m.store).Keeps law steps trail result halt m) :
    (act Exec.store next).Keeps law steps trail result halt m :=
  keeps_of_ok rfl h

lemma keeps_changeStore {change : Store → Store} {next : Unit → Plan α} {m : Machine}
    (h : (next ()).Keeps law steps trail result halt { m with store := change m.store }) :
    (act (Exec.changeStore change) next).Keeps law steps trail result halt m :=
  keeps_of_ok rfl h

lemma keeps_updateStore {γ : Type} {update : Store → γ × Store} {next : γ → Plan α} {m : Machine}
    (h : (next (update m.store).1).Keeps law steps trail result halt
      { m with store := (update m.store).2 }) :
    (act (Exec.updateStore update) next).Keeps law steps trail result halt m :=
  keeps_of_ok rfl h

lemma keeps_fail {cause : Cause} {line : Nat} {m : Machine}
    (h : halt (.fault ⟨cause, line⟩) m) :
    (only (Exec.fail cause line) : Plan α).Keeps law steps trail result halt m :=
  keeps_of_error rfl h

lemma keeps_ofExcept {line : Nat} {e : Except Cause α} {m : Machine}
    (hok : ∀ a, e = .ok a → result a m)
    (herror : ∀ cause, e = .error cause → halt (.fault ⟨cause, line⟩) m) :
    (only (Exec.ofExcept line e)).Keeps law steps trail result halt m := by
  cases e with
  | ok a => exact keeps_of_ok rfl (hok a rfl)
  | error cause => exact keeps_of_error rfl (herror cause rfl)

/-- Only what an action does on the machine at hand matters. -/
lemma Keeps.congr {γ : Type} {x y : Exec γ} {next : γ → Plan α} {m : Machine}
    (h : (act y next).Keeps law steps trail result halt m) (he : x m = y m) :
    (act x next).Keeps law steps trail result halt m := by
  unfold Keeps at h ⊢
  rw [he]
  exact h

end Plan

/-- A law that every plan keeps, and that allows for running out of steps. -/
structure Law.Sound (law : Law) : Prop where
  keeps : ∀ (trail : List Call) (steps : Nat) (t : Task) (m : Machine),
    law.ready trail ⟨steps + 1, t, m⟩ →
      t.plan.Keeps law steps (⟨steps + 1, t, m⟩ :: trail) (law.done trail ⟨steps + 1, t, m⟩)
        (law.stopped trail ⟨steps + 1, t, m⟩) m
  exhausted : ∀ (trail : List Call) (t : Task) (m : Machine),
    law.ready trail ⟨0, t, m⟩ → law.stopped trail ⟨0, t, m⟩ .exhausted m

namespace Law.Sound

variable {law : Law}

/-- A call that is ready and gives a result is done as the law says. -/
theorem settles (hlaw : law.Sound) (steps : Nat) : law.Settles steps := by
  induction steps with
  | zero =>
    intro trail t m r after hr h
    rw [Task.perform_zero] at h
    cases h
  | succ steps ih =>
    intro trail t m r after hr h
    rw [Task.perform_succ] at h
    exact (hlaw.keeps trail steps t m hr).of_ok ih h

/-- A call that is ready makes only calls that are. -/
lemma ready_of_makes (hlaw : law.Sound) {trail : List Call} {c c' : Call}
    (hr : law.ready trail c) (hm : c.Makes c') : law.ready (c :: trail) c' := by
  obtain ⟨steps, t, m⟩ := c
  obtain ⟨rfl, ha⟩ := hm
  exact (hlaw.keeps trail _ t m hr).of_asks (hlaw.settles _) ha

/-- Every call that is made while a ready one is under way is ready. -/
theorem ready_of_reaches (hlaw : law.Sound) {trail trail' : List Call} {root c : Call}
    (hr : law.ready trail root) (h : root.Reaches trail' c) : law.ready (trail' ++ trail) c := by
  induction h with
  | start => exact hr
  | made _ hm ih => exact hlaw.ready_of_makes ih hm

/-- A ready call that stops does so because of a call that stops by itself. -/
theorem stopped_of_error (hlaw : law.Sound) {trail : List Call} {root : Call} {stop : Stop}
    {after : Machine} (hr : law.ready trail root) (h : root.outcome = .error stop after) :
    ∃ trail' c after', root.Reaches trail' c ∧ c.outcome = .error stop after' ∧
      after'.store = after.store ∧ law.stopped (trail' ++ trail) c stop after' := by
  obtain ⟨steps, t, m⟩ := root
  induction steps generalizing trail t m after with
  | zero =>
    have he := h
    rw [Call.outcome, Task.perform_zero] at he
    cases he
    exact ⟨[], _, _, .start, h, rfl, hlaw.exhausted trail t m hr⟩
  | succ steps ih =>
    have he := h
    rw [Call.outcome, Task.perform_succ] at he
    obtain hs | ⟨t', m', after', ha, hp, hs⟩ :=
      (hlaw.keeps trail steps t m hr).of_error (hlaw.settles steps) he
    · exact ⟨[], _, _, .start, h, rfl, hs⟩
    · have hm : Call.Makes ⟨steps + 1, t, m⟩ ⟨steps, t', m'⟩ := ⟨rfl, ha⟩
      obtain ⟨trail', c, after'', hc, ho, hst, hst'⟩ := ih _ _ (hlaw.ready_of_makes hr hm) hp
      refine ⟨trail' ++ [⟨steps + 1, t, m⟩], c, after'', hm.reaches hc, ho, hst.trans hs, ?_⟩
      simpa using hst'

end Law.Sound

end Eval

end Scripting
