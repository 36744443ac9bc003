import Scripting.Proofs.Eval.Runs

/-!
# From single steps to whole runs

What a call does by itself is a sequence of actions and of calls that it makes. `Call.Does` says
what each of them is like. If every action keeps something of the store, and every call is made with
something to rely on, then both hold at all times of a run (`Run.keeps_of_does`). And a relation
that every action goes along leads from each moment of a run to the later ones
(`Run.related_of_visits`).
-/

namespace Scripting

namespace Eval

namespace Plan

variable {α : Type}

/-- Every action of a plan and every call that it makes is as said. -/
def Does (self : (t : Task) → Exec t.Result) (acts : Store → Store → Prop)
    (asks : Task → Machine → Prop) : Plan α → Machine → Prop
  | .done _, _ => True
  | .act x next, m =>
    acts m.store (x.after m).store ∧
      ∀ g after, x m = .ok g after → (next g).Does self acts asks after
  | .call mode t next, m =>
    asks t (mode.enter m) ∧
      ∀ r after, self t (mode.enter m) = .ok r after → m.Advances (mode.leave m after) →
        (next r).Does self acts asks (mode.leave m after)

variable {self : (t : Task) → Exec t.Result} {acts acts' : Store → Store → Prop}
  {asks asks' : Task → Machine → Prop} {p : Plan α} {m : Machine}

/-- For the calls, it is known that the plan makes them. -/
lemma Does.mono (h : p.Does self acts asks m) (ha : ∀ s s', acts s s' → acts' s s')
    (hc : ∀ t m', p.Asks self m t m' → asks t m' → asks' t m') : p.Does self acts' asks' m := by
  induction p generalizing m with
  | done a => exact trivial
  | act x next ih =>
    refine ⟨ha _ _ h.1, fun g after hx => ih g (h.2 g after hx) fun t m' hm => ?_⟩
    exact hc t m' ⟨g, after, hx, hm⟩
  | call mode t next ih =>
    refine ⟨hc t _ (.inl ⟨rfl, rfl⟩) h.1, fun r after hr hadv => ?_⟩
    exact ih r (h.2 r after hr hadv) fun t' m' hm => hc t' m' (.inr ⟨r, after, hr, hm⟩)

lemma Does.of_asks {steps : Nat} {t : Task} {m' : Machine}
    (h : p.Does (Task.perform steps) acts asks m) (ha : p.Asks (Task.perform steps) m t m') :
    asks t m' := by
  induction p generalizing m with
  | done a => exact ha.elim
  | act x next ih =>
    obtain ⟨g, after, hx, ha⟩ := ha
    exact ih g (h.2 g after hx) ha
  | call mode asked next ih =>
    obtain ⟨rfl, rfl⟩ | ⟨r, after, hr, ha⟩ := ha
    · exact h.1
    · exact ih r (h.2 r after hr (Task.advances_leave hr)) ha

lemma does_only {x : Exec α} (h : acts m.store (x.after m).store) :
    (only x).Does self acts asks m :=
  ⟨h, fun _ _ _ => trivial⟩

lemma does_of_ok {γ : Type} {x : Exec γ} {next : γ → Plan α} {g : γ} {after : Machine}
    (hx : x m = .ok g after) (h : acts m.store after.store)
    (hn : (next g).Does self acts asks after) : (act x next).Does self acts asks m := by
  refine ⟨?_, fun g' after' hx' => ?_⟩
  · rw [Exec.after, hx]
    exact h
  · rw [hx] at hx'
    cases hx'
    exact hn

lemma does_tail {t : Task} (h : asks t (Mode.plain.enter m)) : (tail t).Does self acts asks m :=
  ⟨h, fun _ _ _ _ => trivial⟩

end Plan

namespace Call

/-- The machine on which a call ends. -/
def after (c : Call) : Machine :=
  (c.task.perform c.steps).after c.machine

lemma after_of_ok {c : Call} {r : c.task.Result} {m : Machine}
    (h : c.task.perform c.steps c.machine = .ok r m) : c.after = m := by
  rw [after, Exec.after, h]

/-- Everything that a call does by itself is as said. -/
def Does (c : Call) (acts : Store → Store → Prop) (asks : Call → Prop) : Prop :=
  ∀ steps, c.steps = steps + 1 → c.task.plan.Does (Task.perform steps) acts
    (fun t m => asks ⟨steps, t, m⟩) c.machine

lemma Does.mono {c : Call} {acts acts' : Store → Store → Prop} {asks asks' : Call → Prop}
    (h : c.Does acts asks) (ha : ∀ s s', acts s s' → acts' s s')
    (hc : ∀ c', c.Makes c' → asks c' → asks' c') : c.Does acts' asks' :=
  fun steps hs => (h steps hs).mono ha fun _ _ hm => hc _ ⟨hs, hm⟩

lemma Does.of_makes {c c' : Call} {acts : Store → Store → Prop} {asks : Call → Prop}
    (h : c.Does acts asks) (hm : c.Makes c') : asks c' :=
  (h c'.steps hm.1).of_asks hm.2

end Call

/-! ### Invariants -/

section

variable {holds : Store → Prop} {relies : List Call → Call → Prop}

/-- Something holds of the store all the time, and something of every call when it is made. -/
def keepLaw (holds : Store → Prop) (relies : List Call → Call → Prop) : Law where
  ready := fun trail c => relies trail c ∧ holds c.machine.store
  done := fun _ _ _ after => holds after.store
  stopped := fun _ _ _ after => holds after.store

lemma Plan.Does.keeps {α : Type} {steps : Nat} {trail : List Call} {p : Plan α} {m : Machine}
    (h : p.Does (Task.perform steps) (fun s s' => holds s → holds s')
      (fun t m' => holds m'.store → relies trail ⟨steps, t, m'⟩) m) (hm : holds m.store) :
    p.Keeps (keepLaw holds relies) steps trail (fun _ after => holds after.store)
      (fun _ after => holds after.store) m := by
  induction p generalizing m with
  | done a => exact hm
  | act x next ih =>
    have hx := h.1 hm
    unfold Exec.after at hx
    refine ⟨fun g after ho => ?_, fun stop after ho => ?_⟩
    · rw [ho] at hx
      exact ih g (h.2 g after ho) hx
    · rw [ho] at hx
      exact hx
  | call mode t next ih =>
    have hstart : holds (mode.enter m).store := by rwa [mode.enter_store]
    refine ⟨⟨h.1 hstart, hstart⟩, fun r after ho hd => ?_⟩
    refine ih r (h.2 r after ho (Task.advances_leave ho)) ?_
    rw [mode.leave_store]
    exact hd

lemma keepLaw_sound
    (h : ∀ trail c, relies trail c → c.Does (fun s s' => holds s → holds s')
      (fun c' => c.Makes c' → holds c'.machine.store → relies (c :: trail) c')) :
    (keepLaw holds relies).Sound where
  exhausted := fun _ _ _ hr => hr.2
  keeps := by
    intro trail steps t m hr
    have hd : Call.Does ⟨steps + 1, t, m⟩ (fun s s' => holds s → holds s')
        (fun c' => holds c'.machine.store → relies (⟨steps + 1, t, m⟩ :: trail) c') :=
      (h trail ⟨steps + 1, t, m⟩ hr.1).mono (fun _ _ ha => ha) fun c' hm ha => ha hm
    exact (hd steps rfl).keeps hr.2

end

namespace Run

variable {run : Run}

/-- Between its statements, a run does nothing. -/
lemma programPlan_does {self : (t : Task) → Exec t.Result} {acts : Store → Store → Prop}
    (hrefl : ∀ s, acts s s) (p : Program) (m : Machine) :
    (programPlan p).Does self acts (fun _ _ => True) m := by
  induction p generalizing m with
  | nil => exact trivial
  | cons s rest ih =>
    refine ⟨trivial, fun completion after _ _ => ?_⟩
    cases completion with
    | broke => exact Plan.does_only (hrefl _)
    | normal => exact ih _
    | returned value => exact ih _

/-- What every call keeps holds all the time, if it does in the beginning. -/
theorem keeps_of_does {holds : Store → Prop} {relies : List Call → Call → Prop}
    (h : ∀ trail c, relies trail c → c.Does (fun s s' => holds s → holds s')
      (fun c' => c.Makes c' → holds c'.machine.store → relies (c :: trail) c'))
    (hstart : holds run.machine.store)
    (hroot : ∀ root, run.Starts root → holds root.machine.store → relies [] root) :
    (∀ trail c, run.Visits trail c → relies trail c ∧ holds c.machine.store) ∧
      holds run.after.store := by
  have hlaw := keepLaw_sound h
  have hkeeps : (programPlan run.program).Keeps (keepLaw holds relies) run.steps []
      (fun _ after => holds after.store) (fun _ after => holds after.store) run.machine := by
    refine Plan.Does.keeps ?_ hstart
    exact (programPlan_does (fun _ hs => hs) run.program run.machine).mono (fun _ _ ha => ha)
      fun t m' ha _ => hroot ⟨run.steps, t, m'⟩ ⟨rfl, ha⟩
  refine ⟨?_, ?_⟩
  · rintro trail c ⟨⟨steps, t, m⟩, ⟨hs, ha⟩, hr⟩
    obtain rfl : steps = run.steps := hs
    have hready := hlaw.ready_of_reaches (hkeeps.of_asks (hlaw.settles run.steps) ha) hr
    rwa [List.append_nil] at hready
  · unfold after Exec.after
    rw [runProgram_eq]
    cases ho : (programPlan run.program).perform (Task.perform run.steps) run.machine with
    | ok a end_ => exact hkeeps.of_ok (hlaw.settles run.steps) ho
    | error stop end_ =>
      rcases hkeeps.of_error (hlaw.settles run.steps) ho with hs | ⟨t, m, end', ha, hp, hs⟩
      · exact hs
      · -- the call that stopped has kept it, too
        have hready := hkeeps.of_asks (hlaw.settles run.steps) ha
        obtain ⟨_, c, end'', -, -, hst, hstop⟩ := hlaw.stopped_of_error hready hp
        show holds end_.store
        rw [← hs, ← hst]
        exact hstop

end Run

/-! ### Relations between moments -/

section

variable {R : Store → Store → Prop} (hrefl : ∀ s, R s s)
  (htrans : ∀ s s' s'', R s s' → R s' s'' → R s s'')

include hrefl htrans

/-- From the start of a plan to every call, and from the end of the call to the end of the plan. -/
lemma Plan.Does.related {α : Type} {steps : Nat} {p : Plan α} {m : Machine}
    (h : p.Does (Task.perform steps) R
      (fun t m' => R m'.store ((t.perform steps).after m').store) m) :
    R m.store ((p.perform (Task.perform steps)).after m).store ∧
      ∀ t m', p.Asks (Task.perform steps) m t m' →
        R m.store m'.store ∧ R ((t.perform steps).after m').store
          ((p.perform (Task.perform steps)).after m).store := by
  induction p generalizing m with
  | done a => exact ⟨hrefl _, fun _ _ ha => ha.elim⟩
  | act x next ih =>
    obtain ⟨hx, hn⟩ := h
    cases ho : x m with
    | error stop after =>
      have hend : ((act x next).perform (Task.perform steps)).after m = after := by
        rw [Exec.after, Plan.perform_act, Exec.bind_of_error ho]
      rw [Exec.after, ho] at hx
      rw [hend]
      refine ⟨hx, ?_⟩
      rintro t m' ⟨g, after', ho', -⟩
      rw [ho] at ho'
      cases ho'
    | ok g after =>
      have hend : ((act x next).perform (Task.perform steps)).after m =
          ((next g).perform (Task.perform steps)).after after := by
        rw [Exec.after, Plan.perform_act, Exec.bind_of_ok ho]
        rfl
      rw [Exec.after, ho] at hx
      obtain ⟨hall, hcalls⟩ := ih g (hn g after ho)
      rw [hend]
      refine ⟨htrans _ _ _ hx hall, ?_⟩
      rintro t m' ⟨g', after', ho', ha⟩
      rw [ho] at ho'
      cases ho'
      obtain ⟨hbefore, hbehind⟩ := hcalls t m' ha
      exact ⟨htrans _ _ _ hx hbefore, hbehind⟩
  | call mode asked next ih =>
    obtain ⟨hc, hn⟩ := h
    rw [mode.enter_store] at hc
    cases ho : asked.perform steps (mode.enter m) with
    | error stop after =>
      have hend : ((call mode asked next).perform (Task.perform steps)).after m =
          mode.leave m after := by
        rw [Exec.after, Plan.perform_call, Exec.bind_of_error]
        rw [Mode.wrap_apply, ho]
      rw [Exec.after, ho] at hc
      rw [hend, mode.leave_store]
      refine ⟨hc, ?_⟩
      rintro t m' (⟨rfl, rfl⟩ | ⟨r, after', ho', -⟩)
      · rw [Exec.after, ho, mode.enter_store]
        exact ⟨hrefl _, hrefl _⟩
      · rw [ho] at ho'
        cases ho'
    | ok r after =>
      have hend : ((call mode asked next).perform (Task.perform steps)).after m =
          ((next r).perform (Task.perform steps)).after (mode.leave m after) := by
        rw [Exec.after, Plan.perform_call_of_ok ho]
        rfl
      obtain ⟨hall, hcalls⟩ := ih r (hn r after ho (Task.advances_leave ho))
      rw [Exec.after, ho] at hc
      rw [mode.leave_store] at hall hcalls
      rw [hend]
      refine ⟨htrans _ _ _ hc hall, ?_⟩
      rintro t m' (⟨rfl, rfl⟩ | ⟨r', after', ho', ha⟩)
      · rw [Exec.after, ho, mode.enter_store]
        exact ⟨hrefl _, hall⟩
      · rw [ho] at ho'
        cases ho'
        obtain ⟨hbefore, hbehind⟩ := hcalls t m' ha
        exact ⟨htrans _ _ _ hc hbefore, hbehind⟩

section

variable {good : Call → Prop} (hmakes : ∀ c c', good c → c.Makes c' → good c')
  (hdoes : ∀ c, good c → c.Does R (fun _ => True))

include hmakes hdoes

/-- From the start of a call to its end, if its actions and those of the calls in it go along. -/
lemma Call.related {c : Call} (hc : good c) : R c.machine.store c.after.store := by
  obtain ⟨steps, t, m⟩ := c
  induction steps generalizing t m with
  | zero =>
    rw [Call.after, Task.perform_zero]
    exact hrefl _
  | succ steps ih =>
    have hd := (hdoes ⟨steps + 1, t, m⟩ hc steps rfl).mono (fun _ _ ha => ha)
      fun t' m' hm _ => ih t' m' (hmakes _ ⟨steps, t', m'⟩ hc ⟨rfl, hm⟩)
    rw [Call.after, Task.perform_succ]
    exact (hd.related hrefl htrans).1

/-- From the start of a call to those that it makes, and from their ends to its own. -/
lemma Call.Makes.related {c c' : Call} (hc : good c) (hm : c.Makes c') :
    R c.machine.store c'.machine.store ∧ R c'.after.store c.after.store := by
  obtain ⟨steps, t, m⟩ := c
  obtain ⟨rfl, ha⟩ := hm
  have hd := (hdoes ⟨c'.steps + 1, t, m⟩ hc c'.steps rfl).mono (fun _ _ ha => ha)
    fun t' m' hm _ =>
      Call.related hrefl htrans hmakes hdoes (hmakes _ ⟨c'.steps, t', m'⟩ hc ⟨rfl, hm⟩)
  have hr := (hd.related hrefl htrans).2 _ _ ha
  rw [Call.after, Call.after, Task.perform_succ]
  exact hr

lemma Call.Reaches.related {root c : Call} {trail : List Call} (hroot : good root)
    (hr : root.Reaches trail c) :
    good c ∧ R root.machine.store c.machine.store ∧ R c.after.store root.after.store := by
  induction hr with
  | start => exact ⟨hroot, hrefl _, hrefl _⟩
  | made _ hm ih =>
    obtain ⟨hc, hbefore, hbehind⟩ := ih
    obtain ⟨hstart, hend⟩ := hm.related hrefl htrans hmakes hdoes hc
    exact ⟨hmakes _ _ hc hm, htrans _ _ _ hbefore hstart, htrans _ _ _ hend hbehind⟩

end

/-- A relation that every action of a run goes along leads from its start to each call, from there
to the end of the call, and on to the end of the run. -/
theorem Run.related_of_visits {run : Run}
    (h : ∀ trail c, run.Visits trail c → c.Does R (fun _ => True)) :
    R run.machine.store run.after.store ∧
      ∀ trail c, run.Visits trail c → R run.machine.store c.machine.store ∧
        R c.machine.store c.after.store ∧ R c.after.store run.after.store := by
  have hmakes : ∀ c c', (∃ trail, run.Visits trail c) → c.Makes c' →
      ∃ trail, run.Visits trail c' := by
    rintro c c' ⟨trail, root, hroot, hr⟩ hm
    exact ⟨c :: trail, root, hroot, .made hr hm⟩
  have hdoes : ∀ c, (∃ trail, run.Visits trail c) → c.Does R (fun _ => True) := by
    rintro c ⟨trail, hv⟩
    exact h trail c hv
  have hroot : ∀ root, run.Starts root → ∃ trail, run.Visits trail root :=
    fun root hs => ⟨[], root, hs, .start⟩
  have hplan := ((programPlan_does hrefl run.program run.machine).mono (fun _ _ ha => ha)
    fun t m' ha _ => Call.related hrefl htrans hmakes hdoes
      (hroot ⟨run.steps, t, m'⟩ ⟨rfl, ha⟩)).related hrefl htrans
  rw [← runProgram_eq] at hplan
  refine ⟨hplan.1, ?_⟩
  rintro trail c ⟨root, hs, hr⟩
  obtain ⟨hc, hbefore, hbehind⟩ := hr.related hrefl htrans hmakes hdoes (hroot root hs)
  obtain ⟨hstart, hend⟩ := hplan.2 _ _ hs.2
  have hroot : root.after = (root.task.perform run.steps).after root.machine := by
    rw [Call.after, hs.1]
  rw [← hroot] at hend
  exact ⟨htrans _ _ _ hstart hbefore, Call.related hrefl htrans hmakes hdoes hc,
    htrans _ _ _ hbehind hend⟩

end

end Eval

end Scripting
