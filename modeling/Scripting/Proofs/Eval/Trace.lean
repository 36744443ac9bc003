import Scripting.Proofs.Eval.Runs

/-!
# The calls of a run, as a list

Following plans, one can list all calls that are made in a run. So it can be computed for a script
whether there is a call of some kind. What happens along a run is put together from what happens
along the calls of its plans.
-/

namespace Scripting

namespace Eval

namespace Plan

variable {α : Type}

/-- What is asked for while a plan is followed on a machine. -/
def asked (self : (t : Task) → Exec t.Result) : Plan α → Machine → List (Task × Machine)
  | .done _, _ => []
  | .act x next, m =>
    match x m with
    | .ok g after => (next g).asked self after
    | .error _ _ => []
  | .call mode t next, m =>
    (t, mode.enter m) ::
      match self t (mode.enter m) with
      | .ok r after => (next r).asked self (mode.leave m after)
      | .error _ _ => []

lemma mem_asked {self : (t : Task) → Exec t.Result} {p : Plan α} {m m' : Machine} {t : Task} :
    (t, m') ∈ p.asked self m ↔ p.Asks self m t m' := by
  induction p generalizing m with
  | done a => simp [asked, Asks]
  | act x next ih =>
    unfold asked Asks
    cases x m with
    | ok g after => simp [ih]
    | error stop after => simp
  | call mode asked' next ih =>
    unfold asked Asks
    cases self asked' (mode.enter m) with
    | ok r after => simp [ih]
    | error stop after => simp

/-- A plan that is only an action calls nothing. -/
lemma asked_only {self : (t : Task) → Exec t.Result} (x : Exec α) (m : Machine) :
    (only x).asked self m = [] := by
  simp only [only, asked]
  cases x m <;> rfl

/-- What a plan does by itself moves the machine as said. -/
def Moves (self : (t : Task) → Exec t.Result) (moves : Machine → Machine → Prop) :
    Plan α → Machine → Prop
  | .done _, _ => True
  | .act x next, m =>
    moves m (x.after m) ∧ ∀ g after, x m = .ok g after → (next g).Moves self moves after
  | .call mode t next, m =>
    ∀ r after, self t (mode.enter m) = .ok r after →
      (next r).Moves self moves (mode.leave m after)

end Plan

/-- A notion of ways from one machine to another, along what happens on them: ways can be joined,
and nothing happens where a call is entered or left. -/
structure IsWay {β : Type} (way : Machine → List β → Machine → Prop) : Prop where
  append {m m' m'' : Machine} {before events : List β} :
    way m before m' → way m' events m'' → way m (before ++ events) m''
  enter (m : Machine) (mode : Mode) : way m [] (mode.enter m)
  leave (m after : Machine) (mode : Mode) : way after [] (mode.leave m after)

/-- The way through a plan, if there is one through each of its calls and if nothing happens where
the plan does something by itself. -/
lemma IsWay.through {α β : Type} {way : Machine → List β → Machine → Prop} (h : IsWay way)
    {steps : Nat} {events : Task → Machine → List β}
    (hcalls : ∀ t m, way m (events t m) ((t.perform steps).after m)) {p : Plan α} {m : Machine}
    (hp : p.Moves (Task.perform steps) (way · []) m) :
    way m ((p.asked (Task.perform steps) m).flatMap fun next => events next.1 next.2)
      ((p.perform (Task.perform steps)).after m) := by
  induction p generalizing m with
  | done a => exact h.enter m .plain
  | act x next ih =>
    obtain ⟨hx, hnext⟩ := hp
    cases ho : x m with
    | ok g after =>
      have hrest := ih g (hnext g after ho)
      rw [Exec.after, ho] at hx
      simp only [Plan.asked, Plan.perform_act, ho, Exec.after, Exec.bind_of_ok ho]
      exact h.append hx hrest
    | error stop after =>
      rw [Exec.after, ho] at hx
      simp only [Plan.asked, Plan.perform_act, ho, Exec.after, Exec.bind_of_error ho]
      exact hx
  | call mode t next ih =>
    have hcall := h.append (h.enter m mode) (hcalls t (mode.enter m))
    cases ho : t.perform steps (mode.enter m) with
    | ok r after =>
      have hrest := h.append (h.leave m after mode) (ih r (hp r after ho))
      rw [Exec.after, ho] at hcall
      simp only [Plan.asked, ho, Exec.after, Plan.perform_call_of_ok ho, List.flatMap_cons]
      exact h.append hcall hrest
    | error stop after =>
      have hw := mode.wrap_apply (t.perform steps) m
      rw [ho] at hw
      rw [Exec.after, ho] at hcall
      simp only [Plan.asked, Plan.perform_call, ho, Exec.after, Exec.bind_of_error hw,
        List.flatMap_cons, List.flatMap_nil]
      exact h.append hcall (h.leave m after mode)

/-- Constructing an instance of a host class calls nothing. -/
lemma asked_constructPlan_host {self : (t : Task) → Exec t.Result} {k : ClassId} {host : HostClass}
    {arguments : List Value} {m : Machine}
    (hhost : (m.store.classes[k]?).bind Class.host = some host) :
    (Task.constructPlan k arguments).asked self m = [] := by
  have hstore : Exec.store m = .ok m.store m := rfl
  simp only [Task.constructPlan, Plan.asked, hstore, hhost, Plan.only]
  split <;> rfl

/-- Constructing an instance of a class of the program calls its initializer, if it has one, bound
to a new instance, and nothing else. -/
lemma asked_constructPlan {self : (t : Task) → Exec t.Result} {k : ClassId}
    {arguments : List Value} {m : Machine}
    (hhost : (m.store.classes[k]?).bind Class.host = none) :
    (Task.constructPlan k arguments).asked self m =
      ((m.store.findMethod? k Store.initializerName).map fun f =>
        let created := m.store.addInstance ⟨k, [], none⟩
        let bound := created.2.bindFunction f (.instanceRef created.1)
        (Task.function bound.1 arguments, { m with store := bound.2 })).toList := by
  have hstore : Exec.store m = .ok m.store m := rfl
  have hupdate {γ : Type} (update : Store → γ × Store) (m : Machine) :
      Exec.updateStore update m = .ok (update m.store).1 { m with store := (update m.store).2 } :=
    rfl
  simp only [Task.constructPlan, Plan.asked, hstore, hhost, hupdate]
  cases m.store.findMethod? k Store.initializerName with
  | none => rfl
  | some f =>
    simp only [Plan.asked, hupdate, Mode.enter, Option.map_some, Option.toList_some]
    -- nothing is called behind the initializer, however it ends
    split <;> rfl

namespace Call

/-- A call makes what its plan asks for. -/
lemma makes_iff_mem_asked {c c' : Call} : c.Makes c' ↔ c.steps = c'.steps + 1 ∧
    (c'.task, c'.machine) ∈ c.task.plan.asked (Task.perform c'.steps) c.machine := by
  rw [Plan.mem_asked, Makes]

/-- The calls that are made while a task is done, itself included. -/
def within : Nat → Task → Machine → List Call
  | 0, t, m => [⟨0, t, m⟩]
  | steps + 1, t, m =>
    ⟨steps + 1, t, m⟩ ::
      (t.plan.asked (Task.perform steps) m).flatMap fun next => within steps next.1 next.2

lemma self_mem_within (c : Call) : c ∈ within c.steps c.task c.machine := by
  obtain ⟨steps, t, m⟩ := c
  cases steps with
  | zero => exact List.mem_cons_self
  | succ steps => exact List.mem_cons_self

/-- The list is complete: with a call, it has those that this makes. -/
lemma mem_within_of_makes {steps : Nat} {t : Task} {m : Machine} {c c' : Call}
    (h : c ∈ within steps t m) (hm : c.Makes c') : c' ∈ within steps t m := by
  induction steps generalizing t m with
  | zero =>
    obtain rfl := List.mem_singleton.mp h
    cases hm.1
  | succ steps ih =>
    refine List.mem_cons_of_mem _ (List.mem_flatMap.mpr ?_)
    rcases List.mem_cons.mp h with rfl | h
    · obtain ⟨hs, ha⟩ := hm
      obtain rfl : steps = c'.steps := Nat.succ.inj hs
      exact ⟨(c'.task, c'.machine), Plan.mem_asked.mpr ha, c'.self_mem_within⟩
    · obtain ⟨next, hn, h⟩ := List.mem_flatMap.mp h
      exact ⟨next, hn, ih h⟩

/-- The calls of the list are those that are reached. -/
lemma mem_within (root : Call) {c : Call} :
    c ∈ within root.steps root.task root.machine ↔ ∃ trail, root.Reaches trail c := by
  constructor
  · obtain ⟨steps, t, m⟩ := root
    intro h
    induction steps generalizing t m with
    | zero =>
      obtain rfl := List.mem_singleton.mp h
      exact ⟨[], .start⟩
    | succ steps ih =>
      rcases List.mem_cons.mp h with rfl | h
      · exact ⟨[], .start⟩
      · obtain ⟨⟨t', m'⟩, hn, h⟩ := List.mem_flatMap.mp h
        obtain ⟨trail, hr⟩ := ih t' m' h
        have hm : Call.Makes ⟨steps + 1, t, m⟩ ⟨steps, t', m'⟩ := ⟨rfl, Plan.mem_asked.mp hn⟩
        exact ⟨_, hm.reaches hr⟩
  · rintro ⟨trail, hr⟩
    induction hr with
    | start => exact root.self_mem_within
    | made _ hm ih => exact mem_within_of_makes ih hm

end Call

/-- All calls that are made in a run. -/
def Run.calls (run : Run) : List Call :=
  ((programPlan run.program).asked (Task.perform run.steps) run.machine).flatMap
    fun next => Call.within run.steps next.1 next.2

lemma Run.mem_calls {run : Run} {c : Call} : c ∈ run.calls ↔ ∃ trail, run.Visits trail c := by
  unfold calls
  constructor
  · intro h
    obtain ⟨⟨t, m⟩, hn, h⟩ := List.mem_flatMap.mp h
    obtain ⟨trail, hr⟩ := (Call.mem_within ⟨run.steps, t, m⟩).mp h
    exact ⟨trail, _, ⟨rfl, Plan.mem_asked.mp hn⟩, hr⟩
  · rintro ⟨trail, root, ⟨hs, ha⟩, hr⟩
    have h := (Call.mem_within root).mpr ⟨trail, hr⟩
    rw [hs] at h
    exact List.mem_flatMap.mpr ⟨(root.task, root.machine), Plan.mem_asked.mpr ha, h⟩

/-- A call is made in one of the runs. -/
def VisitedIn (runs : List Run) (c : Call) : Prop :=
  ∃ run ∈ runs, ∃ trail, run.Visits trail c

lemma exists_visitedIn {runs : List Run} {test : Call → Bool}
    (h : (runs.flatMap Run.calls).any test) : ∃ c, VisitedIn runs c ∧ test c := by
  obtain ⟨c, hc, ht⟩ := List.any_eq_true.mp h
  obtain ⟨run, hr, hc⟩ := List.mem_flatMap.mp hc
  exact ⟨c, ⟨run, hr, Run.mem_calls.mp hc⟩, ht⟩

namespace Call

/-- The node and the keyword of a `this` that a call evaluates. -/
def this? (c : Call) : Option (NodeId × Token) :=
  match c.task with
  | .expr (.this id keyword) => some (id, keyword)
  | _ => none

/-- The node, the keyword and the method of a `super` that a call evaluates. -/
def super? (c : Call) : Option (NodeId × Token × Token) :=
  match c.task with
  | .expr (.super id keyword method) => some (id, keyword, method)
  | _ => none

/-- A call gives a result. -/
def givesResult (c : Call) : Bool :=
  match c.outcome with
  | .ok _ _ => true
  | .error _ _ => false

lemma exists_of_givesResult {c : Call} (h : c.givesResult) :
    ∃ r after, c.outcome = .ok r after := by
  unfold givesResult at h
  split at h
  · next r after ho => exact ⟨r, after, ho⟩
  · cases h

lemma task_of_this? {c : Call} {node : NodeId × Token} (h : c.this? = some node) :
    c.task = .expr (.this node.1 node.2) := by
  unfold this? at h
  split at h
  · next ht =>
    obtain rfl := Option.some.inj h
    exact ht
  · cases h

lemma task_of_super? {c : Call} {node : NodeId × Token × Token} (h : c.super? = some node) :
    c.task = .expr (.super node.1 node.2.1 node.2.2) := by
  unfold super? at h
  split at h
  · next ht =>
    obtain rfl := Option.some.inj h
    exact ht
  · cases h

end Call

end Eval

end Scripting
