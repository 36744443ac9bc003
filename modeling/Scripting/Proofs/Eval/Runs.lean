import Scripting.Proofs.Eval.Statements

/-!
# Runs of programs

A run executes the statements of a program one after the other, as long as none of them stops. All
calls of a run of an accepted program keep `siteLaw`, from the machine that earlier runs have left:
what is pending then are the declarations that those runs have abandoned.
-/

namespace Scripting

open Resolution

namespace Eval

/-- The plan of running a program. -/
def programPlan : Program → Plan Unit
  | [] => .done ()
  | s :: rest =>
    .call .plain (.stmt s) fun
      | .broke => .only (Exec.fail .strayBreak 0)
      | _ => programPlan rest

lemma runProgram_eq (steps : Nat) (p : Program) :
    runProgram steps p = (programPlan p).perform (Task.perform steps) := by
  induction p with
  | nil => rfl
  | cons s rest ih =>
    simp only [runProgram, programPlan, Plan.perform_call]
    congr 1
    funext completion
    cases completion with
    | normal => exact ih
    | returned value => exact ih
    | broke => simp

/-- The calls that a run starts with are for its statements, in the frame that it is in. -/
lemma advances_of_asks_programPlan {steps : Nat} {p : Program} {m m' : Machine} {t : Task}
    (h : (programPlan p).Asks (Task.perform steps) m t m') :
    (∃ s ∈ p, t = .stmt s) ∧ m.Advances m' := by
  induction p generalizing m with
  | nil => exact h.elim
  | cons s rest ih =>
    obtain ⟨rfl, rfl⟩ | ⟨completion, after, ho, h⟩ := h
    · exact ⟨⟨s, List.mem_cons_self, rfl⟩, .refl _⟩
    · have hfirst := (Task.perform_advances steps (.stmt s)).of_ok ho
      cases completion with
      | broke =>
        obtain ⟨_, _, hfail, -⟩ := h
        cases hfail
      | normal =>
        obtain ⟨⟨s', hs', ht⟩, hm⟩ := ih h
        exact ⟨⟨s', List.mem_cons_of_mem s hs', ht⟩, hfirst.trans hm⟩
      | returned value =>
        obtain ⟨⟨s', hs', ht⟩, hm⟩ := ih h
        exact ⟨⟨s', List.mem_cons_of_mem s hs', ht⟩, hfirst.trans hm⟩

/-- A program that is run on a machine, each statement in a number of steps. -/
structure Run where
  steps : Nat
  program : Program
  machine : Machine

namespace Run

/-- How a run ends. -/
def outcome (run : Run) : EStateM.Result Stop Machine Unit :=
  runProgram run.steps run.program run.machine

/-- The machine on which a run ends. -/
def after (run : Run) : Machine :=
  (runProgram run.steps run.program).after run.machine

/-- The fault that a run ends in. -/
def fault? (run : Run) : Option Fault :=
  match run.outcome with
  | .error (.fault fault) _ => some fault
  | _ => none

/-- A call executes one of the statements of the program. -/
def Starts (run : Run) (c : Call) : Prop :=
  c.steps = run.steps ∧
    (programPlan run.program).Asks (Task.perform run.steps) run.machine c.task c.machine

/-- A call is made in a run, while the calls of the trail are under way. -/
def Visits (run : Run) (trail : List Call) (c : Call) : Prop :=
  ∃ root, run.Starts root ∧ root.Reaches trail c

/-- A declaration of a variable is begun in a run that stops before the declaration is complete. -/
def Abandons (run : Run) (f : FrameId) (name : String) : Prop :=
  ∃ trail c stop after, run.Visits trail c ∧ c.Begins f name ∧ c.outcome = .error stop after

end Run

lemma Call.Reaches.of_mem {root c v : Call} {trail : List Call} (h : root.Reaches trail c)
    (hv : v ∈ trail) : ∃ trail', root.Reaches trail' v := by
  induction h with
  | start => simp at hv
  | @made trail c c' hc _ ih =>
    rcases List.mem_cons.mp hv with rfl | hv
    · exact ⟨trail, hc⟩
    · exact ih hv

namespace Run

variable {run : Run} {trail : List Call} {c : Call}

lemma fault?_eq_some_iff {fault : Fault} :
    run.fault? = some fault ↔ ∃ after, run.outcome = .error (.fault fault) after := by
  unfold fault?
  constructor
  · intro h
    split at h
    · next fault' after ho =>
      obtain rfl : fault' = fault := Option.some.inj h
      exact ⟨after, ho⟩
    · cases h
  · rintro ⟨after, ho⟩
    rw [ho]

/-- What a call of a run stops with, the run stops with. -/
lemma Visits.error {stop : Stop} {after : Machine} (h : run.Visits trail c)
    (hc : c.outcome = .error stop after) :
    ∃ after', run.outcome = .error stop after' ∧ after'.store = after.store := by
  obtain ⟨root, ⟨hs, ha⟩, hr⟩ := h
  obtain ⟨after', ho, hst⟩ := hr.error hc root List.mem_cons_self
  rw [Call.outcome, hs] at ho
  obtain ⟨after'', ho', hst'⟩ := ha.error ho
  refine ⟨after'', ?_, hst'.trans hst⟩
  rw [outcome, runProgram_eq]
  exact ho'

/-- A run that can rely on a background: its program is an accepted one, and the machine is as
earlier runs leave it. -/
structure Grounded (b : Background) (run : Run) : Prop where
  mem : run.program ∈ b.programs
  carries : b.Carries [] run.machine
  scope_eq : run.machine.scope = Machine.globals

namespace Grounded

variable {b : Background}

lemma chain_globals {s : Store} {pending : FrameId → String → Prop} {programs : List Program}
    (h : s.Sited programs pending) : s.chain Machine.globals = [Machine.globals] := by
  obtain ⟨frame, hf, -, ho⟩ := h.globals
  simp [Store.chain, hf, ho]

/-- The program of a run stands in the frame of the globals. -/
lemma stands (h : run.Grounded b) :
    run.machine.store.Stands b.programs (b.Pending []) run.machine.scope (.stmts run.program) := by
  refine ⟨run.program, h.mem, [], .start, .program, ?_⟩
  rw [h.scope_eq, chain_globals h.carries.sited]
  obtain ⟨frame, hf, hk, -⟩ := h.carries.sited.globals
  exact .globals ⟨⟨frame, hf, hk⟩, fun name hn => by simp at hn⟩

/-- Running a program keeps the law, and never stops outside of its statements. -/
lemma keeps (h : run.Grounded b) :
    (programPlan run.program).Keeps (siteLaw b) run.steps []
      (fun _ after => after.store.Sited b.programs (b.Pending [])) (fun _ _ => False)
      run.machine := by
  have fold : ∀ (p : Program) (m : Machine), (∀ s ∈ p, ¬ s.Breaks ∧ ¬ s.Returns) →
      b.Carries [] m → m.store.Stands b.programs (b.Pending []) m.scope (.stmts p) →
        (programPlan p).Keeps (siteLaw b) run.steps []
          (fun _ after => after.store.Sited b.programs (b.Pending [])) (fun _ _ => False) m := by
    intro p
    induction p with
    | nil => exact fun m _ hm _ => hm.sited
    | cons s rest ih =>
      intro m hfree hm hs
      have hfirst := hs.part (fun _ => rfl) fun r => List.mem_cons_self
      obtain ⟨hbreak, hreturn⟩ := hfree s List.mem_cons_self
      refine keeps_call hm hfirst fun completion after _ ha hc hd hflow => ?_
      cases completion with
      | normal =>
        exact ih _ (fun s hs => hfree s (List.mem_cons_of_mem _ hs)) hc (stands_rest hs ha hd)
      | returned value => exact absurd hflow hreturn
      | broke => exact absurd hflow hbreak
  exact fold run.program run.machine
    (fun s hs => (b.accepted run.program h.mem).not_breaks hs) h.carries h.stands

/-- Every call of the run keeps the law. -/
theorem ready (h : run.Grounded b) (hv : run.Visits trail c) : (siteLaw b).ready trail c := by
  obtain ⟨root, ⟨hs, ha⟩, hr⟩ := hv
  obtain ⟨steps, t, m⟩ := root
  obtain rfl : steps = run.steps := hs
  have hroot := h.keeps.of_asks ((siteLaw_sound b).settles run.steps) ha
  simpa using (siteLaw_sound b).ready_of_reaches hroot hr

/-- What a run leaves when it ends, it may rely on again. -/
theorem sited_of_ok (h : run.Grounded b) {after : Machine} (ho : run.outcome = .ok () after) :
    after.store.Sited b.programs (b.Pending []) := by
  rw [outcome, runProgram_eq] at ho
  exact h.keeps.of_ok ((siteLaw_sound b).settles run.steps) ho

/-- A run stops because of one of its calls. -/
theorem stopped_of_error (h : run.Grounded b) {stop : Stop} {after : Machine}
    (ho : run.outcome = .error stop after) :
    ∃ trail c after', run.Visits trail c ∧ c.outcome = .error stop after' ∧
      after'.store = after.store ∧ (siteLaw b).stopped trail c stop after' := by
  rw [outcome, runProgram_eq] at ho
  have hlaw := (siteLaw_sound b).settles run.steps
  obtain hf | ⟨t, m, after', ha, hp, hs⟩ := h.keeps.of_error hlaw ho
  · exact hf.elim
  · have hroot := h.keeps.of_asks hlaw ha
    obtain ⟨trail, c, after'', hr, hc, hst, hstop⟩ :=
      (siteLaw_sound b).stopped_of_error hroot hp
    refine ⟨trail, c, after'', ⟨⟨run.steps, t, m⟩, ⟨rfl, ha⟩, hr⟩, hc, hst.trans hs, ?_⟩
    simpa using hstop

/-- However a run ends, what is pending afterwards is what was and what it has abandoned. -/
theorem sited_after (h : run.Grounded b) (pending : FrameId → String → Prop)
    (hb : ∀ f name, b.begun f name → pending f name)
    (ha : ∀ f name, run.Abandons f name → pending f name) :
    (Exec.after (runProgram run.steps run.program) run.machine).store.Sited b.programs
      pending := by
  unfold Exec.after
  cases ho : runProgram run.steps run.program run.machine with
  | ok a after =>
    refine (h.sited_of_ok ho).imp fun f name hp => .inr ?_
    rcases hp with hp | ⟨v, hv, -⟩
    · exact hb f name hp
    · simp at hv
  | error stop after =>
    obtain ⟨trail, c, after', hv, hc, hs, hstop⟩ := h.stopped_of_error ho
    rw [← hs]
    refine hstop.1.imp fun f name hp => .inr ?_
    rcases hp with hp | ⟨v, hvt, hn⟩
    · exact hb f name hp
    · obtain ⟨root, hroot, hr⟩ := hv
      obtain ⟨trail', hr'⟩ := hr.of_mem hvt
      obtain ⟨after'', ho', -⟩ := hr.error hc v (List.mem_cons_of_mem _ hvt)
      exact ha f name ⟨trail', v, stop, after'', ⟨root, hroot, hr'⟩, hn, ho'⟩

end Grounded

end Run

end Eval

end Scripting
