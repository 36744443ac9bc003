import Scripting.Proofs.Console.Lines
import Scripting.Proofs.Eval.Events
import Scripting.Proofs.Eval.Footprint

/-!
# The reads of a run

Of all that a run does, only the calls of `input` touch the input, and each of them takes one line
off it. So the reads of a run, in their order, take over from one another: each finds the input that
the one before has left.
-/

namespace Scripting

namespace Exec

variable {α : Type}

/-- An action that leaves the input alone. -/
def KeepsInput (x : Exec α) : Prop :=
  ∀ m : Machine, (x.after m).input = m.input

lemma Local.keepsInput {x : Exec α} (hx : x.Local) : x.KeepsInput :=
  fun m => (congrArg Machine.input (hx.after_eq m) :)

lemma Yields.keepsInput {x : Exec α} (hx : x.Yields fun m m' => m'.input = m.input) :
    x.KeepsInput := by
  intro m
  obtain ⟨a, after, ho, h⟩ := hx m
  rwa [Exec.after, ho]

lemma print_keepsInput (text : String) (line : Nat) : (Exec.print text line).KeepsInput := by
  intro m
  rw [Exec.after, print_apply]
  split_ifs <;> rfl

end Exec

/-- Host classes leave the input alone. -/
lemma Machine.spans_input : Machine.Spans fun m m' => m'.input = m.input where
  refl := fun _ => rfl
  trans := fun h h' => h'.trans h
  log := fun _ _ _ _ => rfl
  withNetwork := fun _ _ => rfl
  withTime := fun _ _ => rfl
  addInstance := fun _ _ _ => rfl
  setHandle := fun _ _ _ => rfl

namespace Eval

open Exec

/-- A task is to read a line of input. -/
def Task.isRead : Task → Bool
  | .callable (.builtin .input) _ => true
  | _ => false

lemma Task.exists_of_isRead {t : Task} (h : t.isRead) :
    ∃ arguments, t = .callable (.builtin .input) arguments := by
  unfold Task.isRead at h
  split at h
  · next arguments => exact ⟨arguments, rfl⟩
  · cases h

/-- Whatever looks at the world around the program leaves the input alone, unless it reads. -/
lemma Task.Outward.keepsInput {t : Task} {γ : Type} {x : Exec γ} (h : t.Outward x)
    (ht : ¬ t.isRead) : x.KeepsInput := by
  cases h with
  | print keyword value text => exact print_keepsInput _ _
  | builtin b arguments =>
    refine (b.run_yields Machine.spans_input arguments ?_).keepsInput
    rintro rfl
    exact absurd rfl ht
  | hostMethod method receiver arguments =>
    exact (method.run_yields Machine.spans_input receiver arguments).keepsInput
  | host host c arguments =>
    exact (host.construct_yields Machine.spans_input c arguments).keepsInput

/-- What a read gives: the text of a line without its end, or `nil` if the line is no text or if
there is none. -/
def lineValue : Option (List UInt8) → Value
  | none => .nil
  | some line =>
    match String.fromUTF8? line.toByteArray with
    | none => .nil
    | some text => .text (withoutLineEnd text)

/-- A read gives the text of the next line, if there is one and it is a text, and takes it off. -/
lemma perform_read (steps : Nat) (arguments : List Value) {m : Machine} {bytes : List UInt8}
    {k : Nat} (h : m.input = ((rawLines bytes).drop k).flatten) :
    ∃ after, (Task.callable (.builtin .input) arguments).perform (steps + 1) m =
        .ok (lineValue (rawLines bytes)[k]?) after ∧
      after.input = ((rawLines bytes).drop (k + 1)).flatten := by
  have hread := readLine_flatten_drop bytes k
  rw [← h] at hread
  show ∃ after, Builtin.readInput m = _ ∧ _
  unfold Builtin.readInput
  rw [bind_of_ok (modifyGet_apply _ _), hread]
  cases (rawLines bytes)[k]? with
  | none => exact ⟨_, rfl, rfl⟩
  | some line =>
    simp only [lineValue]
    cases String.fromUTF8? line.toByteArray with
    | none => exact ⟨_, rfl, rfl⟩
    | some text => exact ⟨_, rfl, rfl⟩

namespace Event

/-- The read that is over then. -/
def read? : Event → Option Call
  | .starts _ => none
  | .ends c => if c.steps ≠ 0 ∧ c.task.isRead then some c else none

end Event

/-- The reads while a task is done. -/
def Call.reads (steps : Nat) (t : Task) (m : Machine) : List Call :=
  (events steps t m).filterMap Event.read?

/-- The reads of a run, in their order. -/
def Run.reads (run : Run) : List Call :=
  run.events.filterMap Event.read?

lemma Run.mem_reads {run : Run} {c : Call} :
    c ∈ run.reads ↔ (∃ trail, run.Visits trail c) ∧ c.steps ≠ 0 ∧ c.task.isRead := by
  rw [← run.ends_mem_events, reads, List.mem_filterMap]
  constructor
  · rintro ⟨e, he, hread⟩
    cases e with
    | starts c => cases hread
    | ends c' =>
      obtain ⟨hc, rfl⟩ : (c'.steps ≠ 0 ∧ c'.task.isRead) ∧ c' = c := by
        simpa [Event.read?] using hread
      exact ⟨he, hc⟩
  · rintro ⟨he, hc⟩
    exact ⟨_, he, if_pos hc⟩

/-! ### One read after the other -/

/-- Reads lead from some input to what is left of it: each finds what the one before has left. -/
inductive ReadPath : List UInt8 → List Call → List UInt8 → Prop
  | nil (input : List UInt8) : ReadPath input [] input
  | cons {c : Call} {later : List Call} {rest : List UInt8} :
    ReadPath c.after.input later rest → ReadPath c.machine.input (c :: later) rest

lemma ReadPath.append {input between rest : List UInt8} {reads later : List Call}
    (h : ReadPath input reads between) (h' : ReadPath between later rest) :
    ReadPath input (reads ++ later) rest := by
  induction h with
  | nil input => exact h'
  | cons _ ih => exact .cons (ih h')

lemma ReadPath.of_eq {input rest : List UInt8} (h : rest = input) : ReadPath input [] rest :=
  h ▸ .nil rest

lemma ReadPath.isWay : IsWay fun m reads m' => ReadPath m.input reads m'.input where
  append := append
  enter m mode := .of_eq (by cases mode <;> rfl)
  leave m after mode := .of_eq (by cases mode <;> rfl)

/-- A call of `input` takes the raw line of a number off what is left of some bytes, or nothing if
there is no such line, and gives what this comes to. -/
structure Call.ReadsLine (c : Call) (bytes : List UInt8) (k : Nat) : Prop where
  input_eq : c.machine.input = ((rawLines bytes).drop k).flatten
  gives : ∃ arguments, c.task = .callable (.builtin .input) arguments ∧
    run c.steps (.builtin .input) arguments c.machine = .ok (lineValue (rawLines bytes)[k]?) c.after
  after_eq : c.after.input = ((rawLines bytes).drop (k + 1)).flatten

lemma Call.readsLine {c : Call} {bytes : List UInt8} {k : Nat} (hs : c.steps ≠ 0)
    (ht : c.task.isRead) (hinput : c.machine.input = ((rawLines bytes).drop k).flatten) :
    c.ReadsLine bytes k := by
  obtain ⟨steps, t, m⟩ := c
  obtain ⟨steps, rfl⟩ := Nat.exists_eq_succ_of_ne_zero hs
  obtain ⟨arguments, rfl⟩ := Task.exists_of_isRead ht
  obtain ⟨after, ho, hafter⟩ := perform_read steps arguments hinput
  obtain rfl : Call.after ⟨steps + 1, .callable (.builtin .input) arguments, m⟩ = after :=
    after_of_ok ho
  exact ⟨hinput, ⟨arguments, rfl, ho⟩, hafter⟩

/-- Along reads, one line after the other is taken off. -/
lemma ReadPath.readsLine {bytes input rest : List UInt8} {reads : List Call} {k : Nat}
    (h : ReadPath input reads rest) (hinput : input = ((rawLines bytes).drop k).flatten)
    (hreads : ∀ c ∈ reads, c.steps ≠ 0 ∧ c.task.isRead) :
    rest = ((rawLines bytes).drop (k + reads.length)).flatten ∧
      ∀ (i : Nat) (c : Call), reads[i]? = some c → c.ReadsLine bytes (k + i) := by
  induction h generalizing k with
  | nil input => exact ⟨hinput, by simp⟩
  | @cons c later rest _ ih =>
    rw [List.forall_mem_cons] at hreads
    have hfirst := Call.readsLine hreads.1.1 hreads.1.2 hinput
    obtain ⟨hrest, hlater⟩ := ih hfirst.after_eq hreads.2
    refine ⟨?_, fun i c' hi => ?_⟩
    · rw [hrest, List.length_cons, Nat.add_right_comm, Nat.add_assoc]
    · cases i with
      | zero =>
        obtain rfl := Option.some.inj hi
        exact hfirst
      | succ i =>
        rw [Nat.add_comm i 1, ← Nat.add_assoc]
        exact hlater i c' hi

/-! ### The way through a run -/

namespace Plan

variable {α : Type}

/-- Whatever an action of a plan does to any machine, the plan does by itself. -/
lemma Each.moves {good : {γ : Type} → Exec γ → Prop} {moves : Machine → Machine → Prop}
    {self : (t : Task) → Exec t.Result} {p : Plan α} (hp : p.Each good)
    (hgood : ∀ {γ : Type} {x : Exec γ}, good x → ∀ m, moves m (x.after m)) (m : Machine) :
    p.Moves self moves m := by
  induction p generalizing m with
  | done a => exact trivial
  | act x next ih => exact ⟨hgood hp.1 m, fun g after _ => ih g (hp.2 g) after⟩
  | call mode t next ih => exact fun r after _ => ih r (hp r) (mode.leave m after)

/-- The way through a plan that does not read by itself. -/
lemma Each.readPath {steps : Nat} {p : Plan α} (hp : p.Each KeepsInput)
    (hcalls : ∀ t m, ReadPath m.input (Call.reads steps t m) ((t.perform steps).after m).input)
    (m : Machine) :
    ReadPath m.input
      ((p.asked (Task.perform steps) m).flatMap fun next => Call.reads steps next.1 next.2)
      ((p.perform (Task.perform steps)).after m).input :=
  ReadPath.isWay.through hcalls (hp.moves (fun hx m => .of_eq (hx m)) m)

end Plan

/-- The way through a call. -/
lemma Call.readPath (steps : Nat) (t : Task) (m : Machine) :
    ReadPath m.input (Call.reads steps t m) ((t.perform steps).after m).input := by
  induction steps generalizing t m with
  | zero =>
    have hafter : (t.perform 0).after m = m := by rw [Task.perform_zero]; rfl
    rw [hafter]
    exact .nil m.input
  | succ steps ih =>
    by_cases ht : t.isRead
    · have hreads : Call.reads (steps + 1) t m = [⟨steps + 1, t, m⟩] := by
        obtain ⟨arguments, rfl⟩ := Task.exists_of_isRead ht
        simp only [Call.reads, events, Task.plan, Task.callablePlan, Plan.asked_only]
        rfl
      rw [hreads]
      exact .cons (c := ⟨steps + 1, t, m⟩) (.nil _)
    · have hreads : Call.reads (steps + 1) t m =
          (t.plan.asked (Task.perform steps) m).flatMap
            fun next => Call.reads steps next.1 next.2 := by
        simp [Call.reads, events, List.filterMap_cons, List.filterMap_flatMap, Event.read?, ht]
      rw [hreads, Task.perform_succ]
      exact (t.plan_confined.each Local.keepsInput (fun _ => rfl) fun h => h.keepsInput ht).readPath
        ih m

/-- The way through a run. -/
lemma Run.readPath (run : Run) : ReadPath run.machine.input run.reads run.after.input := by
  have hplan : ∀ p : Program, (programPlan p).Each KeepsInput := by
    intro p
    induction p with
    | nil => exact trivial
    | cons s rest ih =>
      intro completion
      cases completion with
      | broke => exact ⟨(Local.fail _ _).keepsInput, fun _ => trivial⟩
      | normal => exact ih
      | returned value => exact ih
  have hreads : run.reads = ((programPlan run.program).asked (Task.perform run.steps)
      run.machine).flatMap fun next => Call.reads run.steps next.1 next.2 := by
    simp [reads, events, Call.reads, List.filterMap_flatMap]
  rw [hreads, Run.after, runProgram_eq]
  exact (hplan run.program).readPath (Call.readPath run.steps) run.machine

end Eval

end Scripting
