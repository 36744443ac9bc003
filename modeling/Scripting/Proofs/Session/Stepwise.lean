import Scripting.Proofs.Program.JoinedReading
import Scripting.Proofs.Session.Lines

/-!
# Scripts one after the other

Two scripts that are run one after the other do the same as the one script in which they follow
each other on separate lines, if the first one is closed by a semicolon and comes to its end. What
differs are the lines of the second script: they are moved by the lines of the first one.

The joined script is read as the program of the first one, followed by that of the second one on
moved lines. Its run begins with more distances than that of the first script, and with less to be
found when the second one is read; at the seam, both runs have come to the same.
-/

namespace Scripting

open Resolution Eval

/-! ### Joined programs -/

/-- The kind of the last token of a script before its end. -/
def lastKind? (source : String) : Option TokenKind :=
  match scan source with
  | .ok tokens => tokens.dropLast.getLast?.map Token.kind
  | .error _ => none

lemma Parser.closed_of_getLast? {front : List Token} (h : ∀ t ∈ front, t.kind ≠ .endOfText)
    (hlast : front.getLast?.map Token.kind = some .semicolon) : Parser.Closed front := by
  induction front with
  | nil => simp at hlast
  | cons t rest ih =>
    cases rest with
    | nil => exact .last (by simpa using hlast)
    | cons u rest =>
      rw [List.getLast?_cons_cons] at hlast
      exact .cons (h t List.mem_cons_self)
        (ih (fun t ht => h t (List.mem_cons_of_mem _ ht)) hlast)

namespace Program

variable {p p' : Program}

/-- A program from tokens on other lines. -/
lemma parse_ofLines {source : String} {tokens : List Token} {nextId next : NodeId}
    (hscan : scan source = .ok tokens)
    (hparse : Program.parse nextId tokens = (.ok p, next)) (σ : Nat → Nat) :
    Program.parse nextId (tokens.map (Token.rename (.ofLines σ))) =
      (.ok (renameStmts (.ofLines σ) p), next) := by
  have hend : ∃ t ∈ tokens, t.kind = .endOfText := by
    obtain ⟨front, line, rfl⟩ := exists_end_of_scan hscan
    exact ⟨.endAt line, List.mem_append_right _ List.mem_cons_self, rfl⟩
  have hnode : ∀ id, nextId ≤ id →
      (Renaming.ofLines σ).node (id + 1) = (Renaming.ofLines σ).node id + 1 := fun _ _ => rfl
  have hp := Program.parse_rename (.ofLines σ) hnode hend
  rwa [hparse] at hp

/-- The program in two scripts with a line break between them. -/
lemma parse_joined {first second : String} {tokens tokens' : List Token}
    {nextId mid next : NodeId} (hscan : scan first = .ok tokens)
    (hlast : lastKind? first = some .semicolon)
    (hparse : Program.parse nextId tokens = (.ok p, mid)) (hscan' : scan second = .ok tokens')
    (hparse' : Program.parse mid tokens' = (.ok p', next)) :
    ∃ joined, scan (first ++ "\n" ++ second) = .ok joined ∧
      Program.parse nextId joined =
        (.ok (p ++ renameStmts (.ofLines (· + (Scan.lineBreaks first.toList + 1))) p'), next) := by
  obtain ⟨front, line, rfl⟩ := exists_end_of_scan hscan
  have hclosed : Parser.Closed front := by
    have hkinds := (scan_eq_ok_iff.mp hscan).kind_ne_of_mem_dropLast
    simp only [lastKind?, hscan] at hlast
    rw [List.dropLast_concat] at hkinds hlast
    exact Parser.closed_of_getLast? hkinds hlast
  have hend : ∃ t ∈ tokens'.map (Token.rename (.ofLines (· + (Scan.lineBreaks first.toList + 1)))),
      t.kind = .endOfText := by
    obtain ⟨front', line', rfl⟩ := exists_end_of_scan hscan'
    exact ⟨_, List.mem_map_of_mem (List.mem_append_right _ List.mem_cons_self), rfl⟩
  exact ⟨_, scan_append hscan hscan', Program.parse_append hclosed rfl hend hparse
    (Program.parse_ofLines hscan' hparse' _)⟩

/-- Distances are only given to the nodes of a program. -/
lemma mem_ids_of_mem_found {id : NodeId} (h : id ∈ p.resolve.found.toList.map Prod.fst) :
    id ∈ stmtsIds p := by
  obtain ⟨links, hl, hsub⟩ := (stmts_walked p .start).found
  obtain rfl : p.resolve.found.toList = links := hl
  exact hsub.subset h

/-- Two programs without mistakes have none together either, and their nodes have the same
distances. -/
lemma resolve_joined (he : p.resolve.errors = #[]) (he' : p'.resolve.errors = #[])
    (σ : Nat → Nat) :
    (Program.resolve (p ++ renameStmts (.ofLines σ) p')).errors = #[] ∧
      (Program.resolve (p ++ renameStmts (.ofLines σ) p')).found.toList =
        p.resolve.found.toList ++ p'.resolve.found.toList := by
  have hlink : renameLink (.ofLines σ) = id := rfl
  rw [Program.resolve_append _ he, Resolution.rename, he', hlink]
  simp

end Program

/-! ### Launched scripts -/

namespace Eval

/-- A run comes to its end. -/
def Run.finishes (run : Run) : Bool :=
  match run.outcome with
  | .ok _ _ => true
  | .error _ _ => false

lemma Run.finishes_iff {run : Run} : run.finishes ↔ ∃ m, run.outcome = .ok () m := by
  unfold Run.finishes
  cases run.outcome with
  | ok _ m => simp
  | error stop m => simp

lemma runProgram_distances_eq {steps : Nat} {p : Program} {m m' : Machine}
    (h : runProgram steps p m = .ok () m') : m'.distances = m.distances :=
  ((runProgram_advances steps p).of_ok h).distances_eq

/-- A program in two parts, of which the first one comes to its end. -/
lemma runProgram_append {steps : Nat} {p : Program} {m m' : Machine}
    (h : runProgram steps p m = .ok () m') (p' : Program) :
    runProgram steps (p ++ p') m = runProgram steps p' m' := by
  induction p generalizing m with
  | nil =>
    cases h
    rfl
  | cons s rest ih =>
    unfold runProgram at h
    rw [List.cons_append, runProgram]
    cases he : execute steps s m with
    | error stop after =>
      rw [Exec.bind_of_error he] at h
      cases h
    | ok completion after =>
      rw [Exec.bind_of_ok he] at h ⊢
      cases completion with
      | normal => exact ih h
      | returned value => exact ih h
      | broke => cases h

end Eval

namespace Session

/-- A session comes to a run with a script. -/
structure Launches (s : Session) (steps : Nat) (source : String) (run : Run) (next : NodeId) :
    Prop where
  launch?_eq : s.launch? steps false source = some run
  parsed : ∃ tokens, scan source = .ok tokens ∧
    Program.parse s.nextId tokens = (.ok run.program, next)
  errors_eq : run.program.resolve.errors = #[]
  steps_eq : run.steps = steps
  machine_eq : ∃ journal, run.machine = { s.machine with
    distances := s.machine.distances.recordAll run.program.resolve.found.toList, journal }
  run_eq : s.run steps false source =
    conclude ⟨run.machine, next, s.hadError, s.hadRuntimeError⟩ run.outcome

lemma exists_launches {s : Session} {steps : Nat} {source : String} {run : Run}
    (h : s.launch? steps false source = some run) : ∃ next, s.Launches steps source run next := by
  have hlaunch := h
  unfold launch? at h
  cases hr : s.read? source with
  | none => simp [hr] at h
  | some read =>
    obtain ⟨p, t⟩ := read
    simp only [hr, Bool.false_eq_true, if_false] at h
    split at h
    · next he =>
      cases h
      have hrun := run_of_read?_some hr steps false
      simp only [Bool.false_eq_true, if_false, t.runProgram_of_accepted steps he] at hrun
      obtain ⟨tokens, next, hscan, hparse, rfl⟩ := read?_eq_some hr
      obtain ⟨journal, -, hm⟩ := Machine.recordResolution_eq
        (Session.machine ({ s.log .debug ("scanned " ++ toString tokens.length ++ " tokens") with
          nextId := next }.log .debug ("parsed " ++ toString p.length ++ " statements")))
        p.resolve
      exact ⟨next, hlaunch, ⟨tokens, hscan, hparse⟩, Array.isEmpty_iff.mp he, rfl, ⟨journal, hm⟩,
        hrun⟩
    · cases h

lemma exists_launches_of_valid (s : Session) (steps : Nat) {source : String} (h : Valid source) :
    ∃ run next, s.Launches steps source run next := by
  obtain ⟨run, hrun⟩ : ∃ run, s.launch? steps false source = some run := by
    refine Option.ne_none_iff_exists'.mp fun hnone => ?_
    exact (s.launch?_eq_none_iff steps source).mp hnone h
  exact ⟨run, exists_launches hrun⟩

namespace Launches

variable {s : Session} {steps : Nat} {source : String} {run : Run} {next : NodeId}
  (h : s.Launches steps source run next)

include h

lemma valid : Valid source := by
  by_contra hnot
  cases h.launch?_eq.symm.trans ((s.launch?_eq_none_iff steps source).mpr hnot)

lemma fits : StmtsWellFormed run.program ∧ IdsWithin s.nextId next (stmtsIds run.program) := by
  obtain ⟨tokens, hscan, hparse⟩ := h.parsed
  exact Program.parse_fits (scan_spelled hscan) hparse

lemma nextId_le : s.nextId ≤ next := by
  obtain ⟨tokens, -, hparse⟩ := h.parsed
  have hle := Program.le_parse_snd s.nextId tokens
  rwa [hparse] at hle

lemma not_breaks : ∀ s ∈ run.program, ¬ s.Breaks :=
  Program.not_breaks h.fits.1 h.fits.2.nodup h.errors_eq

/-- The session after a run that comes to its end. -/
lemma snd_eq {m : Machine} (ho : run.outcome = .ok () m) :
    (s.run steps false source).2 = ⟨m, next, s.hadError, s.hadRuntimeError⟩ := by
  rw [h.run_eq, ho]
  rfl

end Launches

end Session

/-! ### The joined run -/

/-- Distances of nodes that are not there yet make no difference to a program. -/
lemma Eval.runProgram_before_new_nodes {steps : Nat} {p : Program} {m after : Machine}
    {links : List (NodeId × Nat)} {mid next : NodeId} (hp : ∀ s ∈ p, ¬ s.Breaks)
    (hids : ∀ id ∈ stmtsIds p, id < mid) (hle : mid ≤ next)
    (hnone : ∀ id, mid ≤ id → m.distances.get? id = none)
    (hlinks : ∀ id ∈ links.map Prod.fst, mid ≤ id ∧ id < next)
    (hstore : m.store.rename (.ofNodes (moveNodes mid next)) = m.store)
    (hrun : runProgram steps p m = .ok () after) (journal : Journal) :
    ∃ after', runProgram steps p
        { m with distances := m.distances.recordAll links, journal } = .ok () after' ∧
      after.Mirrors (.ofNodes (moveNodes mid next)) m.journal.size journal.size after' := by
  have hmirrors : m.Mirrors (.ofNodes (moveNodes mid next)) m.journal.size journal.size
      { m with distances := m.distances.recordAll links, journal } := by
    refine ⟨hstore.symm, rfl, rfl, fun id => ?_, rfl, rfl, rfl, rfl, .ofEnds _ _⟩
    rw [Renaming.ofNodes_node]
    rcases Nat.lt_or_ge id mid with hid | hid
    · rw [moveNodes_of_lt hid]
      exact Distances.get?_recordAll_of_notMem fun hm => Nat.not_le.mpr hid (hlinks id hm).1
    · have hid' := le_moveNodes hle hid
      rw [hnone id hid, ← hnone _ (Nat.le_trans hle hid')]
      exact Distances.get?_recordAll_of_notMem fun hm =>
        Nat.not_lt.mpr hid' (hlinks _ hm).2
  have hends := runProgram_mirrors steps hp m _ hmirrors
  rw [renameStmts_eq_self p fun id hid => moveNodes_of_lt (hids id hid), hrun] at hends
  exact hends.of_ok

namespace Session

section

variable {s : Session} {steps : Nat} {first second : String} {run₁ run₂ : Run} {mid next : NodeId}
  {m : Machine}

/-- The run of the joined script begins with the distances of both. -/
lemma Launches.joined (h₁ : s.Launches steps first run₁ mid)
    (h₂ : Launches ⟨m, mid, s.hadError, s.hadRuntimeError⟩ steps second run₂ next)
    (hlast : lastKind? first = some .semicolon) :
    ∃ run journal, s.Launches steps (first ++ "\n" ++ second) run next ∧
      run.program =
        run₁.program ++ (run₂.moved (Scan.lineBreaks first.toList + 1)).program ∧
      run.machine = { run₁.machine with
        distances := run₁.machine.distances.recordAll run₂.program.resolve.found.toList
        journal } := by
  obtain ⟨tokens, hscan, hparse⟩ := h₁.parsed
  obtain ⟨tokens', hscan', hparse'⟩ := h₂.parsed
  obtain ⟨joined, hscanJ, hparseJ⟩ := Program.parse_joined hscan hlast hparse hscan' hparse'
  obtain ⟨heJ, hfoundJ⟩ := Program.resolve_joined h₁.errors_eq h₂.errors_eq
    (· + (Scan.lineBreaks first.toList + 1))
  have hvalid : Valid (first ++ "\n" ++ second) := by
    by_contra hnot
    rw [← Program.ofSource?_eq_none_iff s.nextId] at hnot
    simp [Program.ofSource?, hscanJ, hparseJ, heJ] at hnot
  obtain ⟨run, next', h⟩ := s.exists_launches_of_valid steps hvalid
  obtain ⟨tokens'', hscan'', hparse''⟩ := h.parsed
  obtain rfl : joined = tokens'' := by simpa [hscanJ] using hscan''
  obtain ⟨hprogram, rfl⟩ : run₁.program ++ _ = run.program ∧ next = next' := by
    simpa [hparseJ] using hparse''
  obtain ⟨journal₁, hm₁⟩ := h₁.machine_eq
  obtain ⟨journal, hm⟩ := h.machine_eq
  refine ⟨run, journal, h, hprogram.symm, ?_⟩
  rw [hm, hm₁, ← hprogram, hfoundJ]
  simp only [Distances.recordAll, List.foldl_append]

end

section

variable (sink : Sink) (input : List UInt8) (network : Network) (time : Nat)
  (requests : List Request) {steps : Nat} {first second : String} {run₁ run₂ run : Run}
  {mid next : NodeId} {m : Machine}

/-- The first part of the joined run comes to the machine on which the second script is run. -/
lemma exists_seam
    (h₁ : ((start (.start sink input network time)).after requests).Launches steps first run₁ mid)
    (ho : run₁.outcome = .ok () m)
    (h₂ : Launches (((start (.start sink input network time)).after requests).run steps false
      first).2 steps second run₂ next) (journal : Journal) :
    ∃ seam told told', Eval.runProgram run₁.steps run₁.program { run₁.machine with
        distances := run₁.machine.distances.recordAll run₂.program.resolve.found.toList
        journal } = .ok () seam ∧
      run₂.machine.Mirrors (.ofLines id) told told' seam ∧
      seam.distances = run₂.machine.distances := by
  have hs := h₁.snd_eq ho
  have hs' : (((start (.start sink input network time)).after requests).run steps false first).2 =
      (start (.start sink input network time)).after
        (requests ++ [Request.source steps false first]) := by
    rw [after_append]
    rfl
  have hle : mid ≤ next := by
    have := h₂.nextId_le
    rwa [hs] at this
  -- the nodes of the second program are in no store before it is run
  have hfixed : ∀ id, (id < mid → moveNodes mid next id = id) ∧
      (mid ≤ id → mid ≤ moveNodes mid next id) := fun id =>
    ⟨moveNodes_of_lt, fun hid => Nat.le_trans hle (le_moveNodes hle hid)⟩
  have hstore : run₁.machine.store.rename (.ofNodes (moveNodes mid next)) = run₁.machine.store := by
    obtain ⟨journal₁, hm₁⟩ := h₁.machine_eq
    rw [hm₁]
    exact store_ofNodes_after sink input network time requests h₁.nextId_le hfixed
  have hstore' : m.store.rename (.ofNodes (moveNodes mid next)) = m.store := by
    have hm := congrArg Session.machine (hs.symm.trans hs')
    have hmid := congrArg Session.nextId (hs.symm.trans hs')
    dsimp only at hm hmid
    rw [hm]
    exact store_ofNodes_after sink input network time _ (Nat.le_of_eq hmid.symm) hfixed
  have hnone : ∀ id, mid ≤ id → run₁.machine.distances.get? id = none := by
    have hnew := ((settled_start sink input network time).after
      (requests ++ [Request.source steps false first])).new
    rw [← hs', hs] at hnew
    exact runProgram_distances_eq ho ▸ hnew
  have hlinks : ∀ id ∈ run₂.program.resolve.found.toList.map Prod.fst, mid ≤ id ∧ id < next := by
    have hwithin := h₂.fits.2.within
    rw [hs] at hwithin
    exact fun id hid => hwithin id (Program.mem_ids_of_mem_found hid)
  obtain ⟨seam, hseam, hmirrors⟩ := runProgram_before_new_nodes h₁.not_breaks
    (fun id hid => (h₁.fits.2.within id hid).2) hle hnone hlinks hstore ho journal
  have hsame : seam.distances =
      m.distances.recordAll run₂.program.resolve.found.toList := by
    rw [runProgram_distances_eq hseam, runProgram_distances_eq ho]
  obtain ⟨journal₂, hm₂⟩ := h₂.machine_eq
  rw [hs] at hm₂
  refine ⟨seam, run₂.machine.journal.size, seam.journal.size, hseam, ?_, ?_⟩
  · rw [hm₂]
    refine ⟨?_, hmirrors.scope_eq, hmirrors.held_eq, fun id => ?_, hmirrors.sink_eq,
      hmirrors.input_eq, hmirrors.network_eq, hmirrors.time_eq, .ofEnds _ _⟩
    · rw [hmirrors.store_eq, hstore']
      exact m.store.rename_id.symm
    · rw [hsame]
      rfl
  · rw [hm₂, hsame]

/-- The runs of the second script and of the joined one are read off the same run with tags. -/
lemma exists_joined_runs (hfirst : Valid first) (hsecond : Valid second)
    (hlast : lastKind? first = some .semicolon) :
    let s := (start (.start sink input network time)).after requests
    let s₁ := (s.run steps false first).2
    let moved := Scan.lineBreaks first.toList + 1
    (∀ run ∈ s.launch? steps false first, run.finishes) →
    ∃ run run' next told told', s₁.Launches steps second run next ∧
      s.Launches steps (first ++ "\n" ++ second) run' next ∧
      s₁.hadError = s.hadError ∧ s₁.hadRuntimeError = s.hadRuntimeError ∧
      run'.after.distances = run.after.distances ∧
      Exec.EndsMirrored (.ofLines (movedLineOfTag moved)) told told' Eq run.withTags.outcome
        run'.outcome ∧
      Exec.EndsMirrored (.ofLines id) told told' Eq (run.moved moved).outcome run'.outcome := by
  intro s s₁ moved hfinishes
  obtain ⟨run₁, mid, h₁⟩ := s.exists_launches_of_valid steps hfirst
  obtain ⟨m, ho⟩ := Run.finishes_iff.mp (hfinishes run₁ h₁.launch?_eq)
  have hs : s₁ = ⟨m, mid, s.hadError, s.hadRuntimeError⟩ := h₁.snd_eq ho
  obtain ⟨run₂, next, h₂⟩ := s₁.exists_launches_of_valid steps hsecond
  obtain ⟨run, journal, h, hprogram, hmachine⟩ := h₁.joined (hs ▸ h₂) hlast
  obtain ⟨seam, told, told', hseam, hmirrors, hdistances⟩ :=
    exists_seam sink input network time requests h₁ ho h₂ journal
  -- from the seam on
  let rest : Run := ⟨run₂.steps, (run₂.moved moved).program, seam⟩
  have hrest : run.outcome = rest.outcome := by
    rw [Run.outcome, hprogram, hmachine, h.steps_eq, ← h₁.steps_eq, runProgram_append hseam,
      h₁.steps_eq, ← h₂.steps_eq]
    rfl
  have hafter : run.after = rest.after := by
    unfold Run.after Exec.after
    rw [← Run.outcome, ← Run.outcome, hrest]
  have hrestDistances : rest.after.distances = seam.distances :=
    (runProgram_advances rest.steps rest.program seam).distances_eq
  have hdistances₂ : run₂.after.distances = run₂.machine.distances :=
    (runProgram_advances run₂.steps run₂.program run₂.machine).distances_eq
  refine ⟨run₂, run, next, told, told', h₂, h, by rw [hs], by rw [hs], ?_, ?_, ?_⟩
  · rw [hafter, hrestDistances, hdistances₂, hdistances]
  · rw [hrest]
    refine Run.withTags_mirrored h₂.not_breaks (movedLineOfTag_comp_oldTag moved) rfl ?_ hmirrors
    rw [movedLineOfTag_comp_newTag]
    rfl
  · rw [hrest]
    exact Run.moved_mirrored h₂.not_breaks (by rfl) (by rfl) hmirrors

/-- **Scripts can be run one after the other or joined.** In any session, take a valid script that
is closed by a semicolon and comes to its end, and another valid script. The joined script is valid,
too. It leaves the same in the session as the two scripts do, apart from the code in the store and
from the journal, and ends in the same fault. There, it does what the second program does with its
tokens on lines that are moved; and moving them changes nothing but the lines: both runs are read
off the one with tagged lines. -/
theorem run_joined (hfirst : Valid first) (hsecond : Valid second)
    (hlast : lastKind? first = some .semicolon) :
    let s := (start (.start sink input network time)).after requests
    let joined := first ++ "\n" ++ second
    let moved := Scan.lineBreaks first.toList + 1
    (∀ run ∈ s.launch? steps false first, run.finishes) →
    let s₁ := (s.run steps false first).2
    let stepwise := s₁.run steps false second
    let whole := s.run steps false joined
    Valid joined ∧ whole.1 = stepwise.1 ∧
    whole.2 = { stepwise.2 with machine := { stepwise.2.machine with
      store := whole.2.machine.store
      journal := whole.2.machine.journal } } ∧
    whole.2.machine.store.frames = stepwise.2.machine.store.frames ∧
    whole.2.machine.store.instances = stepwise.2.machine.store.instances ∧
    ∃ run run', s₁.launch? steps false second = some run ∧
      s.launch? steps false joined = some run' ∧
      whole.2.machine.store = (run.moved moved).after.store ∧
      run'.fault? = (run.moved moved).fault? ∧
      stepwise.2.machine.store = run.withTags.after.store.rename (.ofLines lineOfTag) ∧
      whole.2.machine.store =
        run.withTags.after.store.rename (.ofLines (movedLineOfTag moved)) ∧
      run.fault? = run.withTags.fault?.map (Fault.onLine lineOfTag) ∧
      run'.fault? = run.withTags.fault?.map (Fault.onLine (movedLineOfTag moved)) := by
  intro s joined moved hfinishes s₁ stepwise whole
  obtain ⟨run, run', next, told, told', h, h', herror, hruntime, hdistances, hends', hmoved⟩ :=
    exists_joined_runs sink input network time requests hfirst hsecond hlast hfinishes
  have hends := Run.withTags_mirrored_self h.not_breaks
  -- both sessions are what the same session makes of the two runs
  let base : Session := ⟨s.machine, next, s.hadError, s.hadRuntimeError⟩
  have hstepwise : stepwise = base.conclude run.outcome := by
    refine h.run_eq.trans ?_
    rw [herror, hruntime]
    rfl
  have hwhole : whole = base.conclude run'.outcome := h'.run_eq
  obtain ⟨hresult, journal, hsession⟩ := base.conclude_mirrored hends
  obtain ⟨hresult', journal', hsession'⟩ := base.conclude_mirrored hends'
  rw [← hstepwise] at hresult hsession
  rw [← hwhole] at hresult' hsession'
  have hafter := Run.after_mirrors hends
  have hafter' := Run.after_mirrors hends'
  have hstore : stepwise.2.machine.store = run.after.store := by rw [hsession]
  have hstore' : whole.2.machine.store = run'.after.store := by rw [hsession']
  refine ⟨h'.valid, hresult'.trans hresult.symm, ?_, ?_, ?_, run, run', h.launch?_eq,
    h'.launch?_eq, ?_, ?_, ?_, ?_, ?_, ?_⟩
  · have heq := Machine.eq_of_mirrors hafter hafter' hdistances
    rw [hsession', hsession]
    dsimp only
    rw [heq]
  · rw [hstore, hstore', hafter.store_eq, hafter'.store_eq]
    rfl
  · rw [hstore, hstore', hafter.store_eq, hafter'.store_eq]
    rfl
  · rw [hstore', (Run.after_mirrors hmoved).store_eq]
    exact Store.rename_id _
  · rw [Run.fault?_mirrored hmoved]
    exact congrFun Option.map_id_fun _
  · rw [hstore, hafter.store_eq]
  · rw [hstore', hafter'.store_eq]
  · exact Run.fault?_mirrored hends
  · exact Run.fault?_mirrored hends'

end

/-- A function of the first script that the second one calls, once as it should and once not. The
fault has the tag of the second line of new code, which is the fourth line of the joined script. -/
theorem run_joined_with_fault :
    let s := (start (.start (.ofLimit none) [] .isolated 0)).after []
    let first := "fun f() \x7b\n  return \"x\"; \x7d print f();"
    let second := "print f();\nf(1);"
    let joined := first ++ "\n" ++ second
    let s₁ := (s.run 20 false first).2
    (s₁.launch? 20 false second).bind Run.fault? = some ⟨.arityMismatch 0 1, 2⟩ ∧
      (s.launch? 20 false joined).bind Run.fault? = some ⟨.arityMismatch 0 1, 4⟩ ∧
      (s.run 20 false joined).2.machine.sink.textSince 0 = "x\nx\n" := by
  intro s first second joined s₁
  obtain ⟨⟨hfirst, hsecond, hlast, hfinishes⟩, hmoved, hfault, htext⟩ :
      (Valid first ∧ Valid second ∧ lastKind? first = some .semicolon ∧
        ∀ run ∈ s.launch? 20 false first, run.finishes) ∧
      Scan.lineBreaks first.toList + 1 = 2 ∧
      (s₁.launch? 20 false second).map (fun run => run.withTags.fault?) =
        some (some ⟨.arityMismatch 0 1, newTag 2⟩) ∧
      (s₁.run 20 false second).2.machine.sink.textSince 0 = "x\nx\n" := by
    decide +kernel
  obtain ⟨-, -, hsession, -, -, run, run', hrun, hrun', -, -, -, -, hline, hline'⟩ :=
    run_joined (.ofLimit none) [] .isolated 0 [] hfirst hsecond hlast hfinishes
  have htagged : run.withTags.fault? = some ⟨.arityMismatch 0 1, newTag 2⟩ := by
    rw [show s₁.launch? 20 false second = some run from hrun] at hfault
    exact Option.some.inj hfault
  rw [htagged] at hline hline'
  refine ⟨?_, ?_, ?_⟩
  · rw [show s₁.launch? 20 false second = some run from hrun]
    exact hline
  · rw [show s.launch? 20 false joined = some run' from hrun']
    refine hline'.trans ?_
    rw [hmoved]
    rfl
  · have hsink (t t' : Session) (h : t' = { t with machine := { t.machine with
        store := t'.machine.store
        journal := t'.machine.journal } }) : t'.machine.sink = t.machine.sink := by
      rw [h]
    rw [hsink _ _ hsession]
    exact htext

end Session

end Scripting
