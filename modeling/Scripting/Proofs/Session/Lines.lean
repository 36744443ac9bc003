import Scripting.Proofs.Session.Rejection

/-!
# Runs on other lines

What a program does has nothing to do with the lines of its tokens: they only tell where a fault
happened. Lines may be the same in two scripts, so that a line alone does not tell which of them it
comes from. A run is therefore repeated with *tagged* lines, which tell the code that was there
before from the code of the program. How the run ends, and how it ends when the program stands
further down, are both read off the run with tags.
-/

namespace Scripting

open Resolution Eval

/-- Rename lines only. -/
def Renaming.ofLines (line : Nat → Nat) : Renaming :=
  ⟨id, line⟩

lemma Renaming.ofLines_comp (σ τ : Nat → Nat) :
    (ofLines σ).comp (ofLines τ) = ofLines (σ ∘ τ) :=
  rfl

/-- A fault on another line. -/
def Fault.onLine (σ : Nat → Nat) (f : Fault) : Fault :=
  { f with line := σ f.line }

/-! ### Tags -/

/-- The tag of a line of code that was there before. -/
def oldTag (line : Nat) : Nat :=
  2 * line

/-- The tag of a line of new code. -/
def newTag (line : Nat) : Nat :=
  2 * line + 1

/-- The line of a tag. -/
def lineOfTag (tag : Nat) : Nat :=
  tag / 2

/-- The line of a tag when new code is moved. -/
def movedLineOfTag (moved tag : Nat) : Nat :=
  if tag % 2 = 0 then tag / 2 else tag / 2 + moved

lemma lineOfTag_comp_oldTag : lineOfTag ∘ oldTag = id := by
  funext line
  simp only [Function.comp, lineOfTag, oldTag, id]
  omega

lemma lineOfTag_comp_newTag : lineOfTag ∘ newTag = id := by
  funext line
  simp only [Function.comp, lineOfTag, newTag, id]
  omega

lemma movedLineOfTag_comp_oldTag (moved : Nat) : movedLineOfTag moved ∘ oldTag = id := by
  funext line
  have heven : oldTag line % 2 = 0 := by
    unfold oldTag
    omega
  simp only [Function.comp, movedLineOfTag, if_pos heven, id]
  unfold oldTag
  omega

lemma movedLineOfTag_comp_newTag (moved : Nat) : movedLineOfTag moved ∘ newTag = (· + moved) := by
  funext line
  have hodd : newTag line % 2 ≠ 0 := by
    unfold newTag
    omega
  simp only [Function.comp, movedLineOfTag, if_neg hodd]
  unfold newTag
  omega

/-! ### Runs that mirror one another -/

namespace Exec.EndsMirrored

variable {ρ : Renaming} {told told' : Nat} {α : Type} {y : EStateM.Result Stop Machine α}
  {m : Machine}

lemma of_ok {a : α} (h : EndsMirrored ρ told told' Eq (.ok a m) y) :
    ∃ m', y = .ok a m' ∧ m.Mirrors ρ told told' m' := by
  cases y with
  | ok b m' =>
    obtain ⟨rfl, hm⟩ := h
    exact ⟨m', rfl, hm⟩
  | error stop m' => exact h.elim

lemma of_error {stop : Stop}
    (h : EndsMirrored ρ told told' (Eq : α → α → Prop) (.error stop m) y) :
    ∃ m', y = .error (stop.rename ρ) m' ∧ m.Mirrors ρ told told' m' := by
  cases y with
  | ok b m' => exact h.elim
  | error stop' m' =>
    obtain ⟨rfl, hm⟩ := h
    exact ⟨m', rfl, hm⟩

end Exec.EndsMirrored

namespace Eval.Run

variable {run run' : Run} {ρ : Renaming} {told told' : Nat}

/-- The machines after two runs. -/
lemma after_mirrors (h : Exec.EndsMirrored ρ told told' Eq run.outcome run'.outcome) :
    run.after.Mirrors ρ told told' run'.after := by
  unfold after Exec.after
  rw [← outcome, ← outcome]
  cases ho : run.outcome with
  | ok _ m =>
    rw [ho] at h
    obtain ⟨m', ho', hm⟩ := h.of_ok
    rwa [ho']
  | error stop m =>
    rw [ho] at h
    obtain ⟨m', ho', hm⟩ := h.of_error
    rwa [ho']

/-- The faults of two runs. -/
lemma fault?_mirrored (h : Exec.EndsMirrored ρ told told' Eq run.outcome run'.outcome) :
    run'.fault? = run.fault?.map (Fault.onLine ρ.line) := by
  unfold fault?
  cases ho : run.outcome with
  | ok _ m =>
    rw [ho] at h
    obtain ⟨m', ho', -⟩ := h.of_ok
    rw [ho']
    rfl
  | error stop m =>
    rw [ho] at h
    obtain ⟨m', ho', -⟩ := h.of_error
    rw [ho']
    cases stop with
    | fault f => rfl
    | exhausted => rfl

end Eval.Run

/-- What a session makes of two runs. -/
lemma Session.conclude_mirrored (s : Session) {run run' : Run} {ρ : Renaming} {told told' : Nat}
    (h : Exec.EndsMirrored ρ told told' Eq run.outcome run'.outcome) :
    (s.conclude run'.outcome).1 = (s.conclude run.outcome).1 ∧
      ∃ journal, (s.conclude run'.outcome).2 =
        { (s.conclude run.outcome).2 with machine := { run'.after with journal } } := by
  unfold Run.after Exec.after
  rw [← Run.outcome]
  cases ho : run.outcome with
  | ok _ m =>
    rw [ho] at h
    obtain ⟨m', ho', -⟩ := h.of_ok
    rw [ho']
    exact ⟨rfl, m'.journal, rfl⟩
  | error stop m =>
    rw [ho] at h
    obtain ⟨m', ho', -⟩ := h.of_error
    rw [ho']
    cases stop with
    | fault f => exact ⟨rfl, _, rfl⟩
    | exhausted => exact ⟨rfl, m'.journal, rfl⟩

/-- Two machines with the code of a third one on other lines. -/
lemma Machine.eq_of_mirrors {tagged m m' : Machine} {σ τ : Nat → Nat} {a b c d : Nat}
    (h : tagged.Mirrors (.ofLines σ) a b m) (h' : tagged.Mirrors (.ofLines τ) c d m')
    (hd : m'.distances = m.distances) :
    m' = { m with store := m'.store, journal := m'.journal } := by
  obtain ⟨store, scope, held, distances, sink, input, network, time, journal⟩ := m'
  simp only [Machine.mk.injEq, true_and, and_true]
  exact ⟨h'.scope_eq.trans h.scope_eq.symm, h'.held_eq.trans h.held_eq.symm, hd,
    h'.sink_eq.trans h.sink_eq.symm, h'.input_eq.trans h.input_eq.symm,
    h'.network_eq.trans h.network_eq.symm, h'.time_eq.trans h.time_eq.symm⟩

/-! ### Runs with tags -/

namespace Eval.Run

/-- A run with tagged lines: the code in the store was there before, the program is new. -/
def withTags (run : Run) : Run :=
  { run with
    program := renameStmts (.ofLines newTag) run.program
    machine := { run.machine with store := run.machine.store.rename (.ofLines oldTag) } }

/-- A run of the program on lines further down. -/
def moved (moved : Nat) (run : Run) : Run :=
  { run with program := renameStmts (.ofLines (· + moved)) run.program }

variable {run run' : Run} {told told' : Nat}

lemma not_breaks_rename {ρ : Renaming} (hp : ∀ s ∈ run.program, ¬ s.Breaks) :
    ∀ s ∈ renameStmts ρ run.program, ¬ s.Breaks := by
  intro s hs hb
  obtain ⟨s', hs', hb'⟩ := breaks_of_renameStmts _ run.program ⟨s, hs, hb⟩
  exact hp s' hs' hb'

/-- A run of the same code on lines that are read off the tags. -/
theorem withTags_mirrored (hp : ∀ s ∈ run.program, ¬ s.Breaks) {σ : Nat → Nat}
    (hold : σ ∘ oldTag = id) (hsteps : run'.steps = run.steps)
    (hprogram : run'.program = renameStmts (.ofLines (σ ∘ newTag)) run.program)
    (hm : run.machine.Mirrors (.ofLines id) told told' run'.machine) :
    Exec.EndsMirrored (.ofLines σ) told told' Eq run.withTags.outcome run'.outcome := by
  have hmachine : run.withTags.machine.Mirrors (.ofLines σ) told told' run'.machine := by
    refine ⟨?_, hm.scope_eq, hm.held_eq, hm.get?_eq, hm.sink_eq, hm.input_eq, hm.network_eq,
      hm.time_eq, hm.reports⟩
    rw [withTags, ← Store.rename_comp, Renaming.ofLines_comp, hold]
    exact hm.store_eq
  have hcode : renameStmts (.ofLines σ) run.withTags.program = run'.program := by
    rw [hprogram, ← Renaming.ofLines_comp, renameStmts_comp]
    rfl
  have hbreaks : ∀ s ∈ run.withTags.program, ¬ s.Breaks := not_breaks_rename hp
  have hends := runProgram_mirrors run.steps hbreaks _ _ hmachine
  rw [hcode] at hends
  rw [outcome, outcome, hsteps]
  exact hends

/-- The run itself. -/
lemma withTags_mirrored_self (hp : ∀ s ∈ run.program, ¬ s.Breaks) :
    Exec.EndsMirrored (.ofLines lineOfTag) run.machine.journal.size run.machine.journal.size Eq
      run.withTags.outcome run.outcome := by
  refine withTags_mirrored hp lineOfTag_comp_oldTag rfl ?_
    ⟨run.machine.store.rename_id.symm, rfl, rfl, fun _ => rfl, rfl, rfl, rfl, rfl, .ofEnds _ _⟩
  rw [lineOfTag_comp_newTag]
  exact (renameStmts_eq_self run.program fun _ _ => rfl).symm

/-- The run of the moved program on another machine of the kind. -/
lemma moved_mirrored (hp : ∀ s ∈ run.program, ¬ s.Breaks) (hsteps : run'.steps = run.steps)
    {moved : Nat} (hprogram : run'.program = (run.moved moved).program)
    (hm : run.machine.Mirrors (.ofLines id) told told' run'.machine) :
    Exec.EndsMirrored (.ofLines id) told told' Eq (run.moved moved).outcome run'.outcome := by
  have hcode : renameStmts (.ofLines id) (run.moved moved).program = run'.program := by
    rw [hprogram]
    exact renameStmts_eq_self _ fun _ _ => rfl
  have hbreaks : ∀ s ∈ (run.moved moved).program, ¬ s.Breaks := not_breaks_rename hp
  have hends := runProgram_mirrors run.steps hbreaks _ _ hm
  rw [outcome, outcome, hsteps, ← hcode]
  exact hends

end Eval.Run

end Scripting
