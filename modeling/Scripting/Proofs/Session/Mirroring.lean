import Scripting.Proofs.Eval.Renaming
import Scripting.Proofs.Program.RenamedReading
import Scripting.Proofs.Resolution.Renaming
import Scripting.Proofs.Session.History
import Scripting.Proofs.Token.Joining

/-!
# Sessions that mirror one another

Two sessions that differ only in the identities of their nodes do the same whatever they are asked
for, and remain such sessions: each script becomes the same program, renamed, and that runs alike.
-/

namespace Scripting

open Resolution Eval

/-! ### Keeping the distances of renamed nodes -/

lemma Distances.get?_recordAll_rename (ρ : Renaming) (hi : Function.Injective ρ.node)
    {table table' : Distances} (h : ∀ id, table'.get? (ρ.node id) = table.get? id)
    (links : List (NodeId × Nat)) (id : NodeId) :
    (table'.recordAll (links.map (renameLink ρ))).get? (ρ.node id) =
      (table.recordAll links).get? id := by
  induction links generalizing table table' with
  | nil => exact h id
  | cons link rest ih =>
    refine ih fun other => ?_
    rw [get?_record, get?_record, h other]
    exact if_congr hi.eq_iff rfl rfl

/-- Only log messages were added to a journal. -/
structure Journal.OnlyLogs (j j' : Journal) : Prop where
  size_le : j.size ≤ j'.size
  reports_eq : ∀ told ≤ j.size, j'.reportsSince told = j.reportsSince told

namespace Journal

variable {told told' : Nat} {j j' k k' : Journal}

lemma OnlyLogs.refl (j : Journal) : j.OnlyLogs j :=
  ⟨Nat.le_refl _, fun _ _ => rfl⟩

lemma OnlyLogs.trans (h : j.OnlyLogs k) (h' : k.OnlyLogs k') : j.OnlyLogs k' :=
  ⟨Nat.le_trans h.size_le h'.size_le, fun told ht =>
    (h'.reports_eq told (Nat.le_trans ht h.size_le)).trans (h.reports_eq told ht)⟩

lemma onlyLogs_push (j : Journal) (level : LogLevel) (target : LogTarget) (message : String) :
    j.OnlyLogs (j.push (.log level target message)) := by
  refine ⟨?_, fun told ht => reportsSince_push_log ht level target message⟩
  rw [Array.size_push]
  exact Nat.le_succ _

lemma SameReports.onlyLogs (h : SameReports told told' j j') (hk : j.OnlyLogs k)
    (hk' : j'.OnlyLogs k') : SameReports told told' k k' where
  told_le := Nat.le_trans h.told_le hk.size_le
  told_le' := Nat.le_trans h.told_le' hk'.size_le
  reports_eq := by
    rw [hk.reports_eq told h.told_le, hk'.reports_eq told' h.told_le']
    exact h.reports_eq

end Journal

/-- Keeping the distances of a program changes nothing else, apart from saying so. -/
lemma Machine.recordResolution_eq (m : Machine) (r : Resolution) :
    ∃ journal, m.journal.OnlyLogs journal ∧
      m.recordResolution r =
        { m with distances := m.distances.recordAll r.found.toList, journal } := by
  have fold : ∀ (links : List (NodeId × Nat)) (m : Machine), ∃ journal,
      m.journal.OnlyLogs journal ∧
        links.foldl (fun m link => m.recordDistance link.1 link.2) m =
          { m with distances := m.distances.recordAll links, journal } := by
    intro links
    induction links with
    | nil => exact fun m => ⟨m.journal, .refl _, rfl⟩
    | cons link rest ih =>
      intro m
      obtain ⟨journal, hj, hm⟩ := ih (m.recordDistance link.1 link.2)
      exact ⟨journal, (Journal.onlyLogs_push _ _ _ _).trans hj, hm⟩
  obtain ⟨journal, hj, hm⟩ := fold r.found.toList m
  rw [recordResolution, ← Array.foldl_toList, hm]
  exact ⟨_, hj.trans (Journal.onlyLogs_push _ _ _ _), rfl⟩

namespace Machine.Mirrors

variable {ρ : Renaming} {told told' : Nat} {m m' : Machine}

lemma report (h : m.Mirrors ρ told told' m') (line : String) :
    (m.report line).Mirrors ρ told told' (m'.report line) :=
  ⟨h.store_eq, h.scope_eq, h.held_eq, h.get?_eq, h.sink_eq, h.input_eq, h.network_eq, h.time_eq,
    h.reports.push _⟩

lemma reportAll (h : m.Mirrors ρ told told' m') (lines : List String) :
    (lines.foldl Machine.report m).Mirrors ρ told told' (lines.foldl Machine.report m') := by
  induction lines generalizing m m' with
  | nil => exact h
  | cons line rest ih => exact ih (h.report line)

/-- Two machines on which the distances of a program each are kept. -/
lemma recordResolution (h : m.Mirrors ρ told told' m') {r r' : Resolution}
    (hd : ∀ id, (m'.distances.recordAll r'.found.toList).get? (ρ.node id) =
      (m.distances.recordAll r.found.toList).get? id) :
    (m.recordResolution r).Mirrors ρ told told' (m'.recordResolution r') := by
  obtain ⟨journal, hj, hm⟩ := m.recordResolution_eq r
  obtain ⟨journal', hj', hm'⟩ := m'.recordResolution_eq r'
  rw [hm, hm']
  exact ⟨h.store_eq, h.scope_eq, h.held_eq, hd, h.sink_eq, h.input_eq, h.network_eq, h.time_eq,
    h.reports.onlyLogs hj hj'⟩

/-- From the ends of the journals on. -/
lemma fromEnds (h : m.Mirrors ρ told told' m') :
    m.Mirrors ρ m.journal.size m'.journal.size m' :=
  ⟨h.store_eq, h.scope_eq, h.held_eq, h.get?_eq, h.sink_eq, h.input_eq, h.network_eq, h.time_eq,
    .ofEnds _ _⟩

end Machine.Mirrors

/-! ### Single steps -/

/-- The tokens of a script make the same program whatever identities its nodes get. -/
lemma Program.parse_ofNodes (node : NodeId → NodeId) {nextId : NodeId}
    (hnode : ∀ id, nextId ≤ id → node (id + 1) = node id + 1) {source : String}
    {tokens : List Token} (hscan : scan source = .ok tokens) :
    Program.parse (node nextId) tokens =
      Program.renameRead (.ofNodes node) (Program.parse nextId tokens) := by
  have hend : ∃ t ∈ tokens, t.kind = .endOfText := by
    obtain ⟨front, line, rfl⟩ := exists_end_of_scan hscan
    exact ⟨.endAt line, List.mem_append_right _ List.mem_cons_self, rfl⟩
  have hp := Program.parse_rename (.ofNodes node) hnode hend
  rwa [Token.map_rename_eq_self] at hp

/-- A program without mistakes whose nodes are distinct breaks out of no loop that is not there. -/
lemma Program.not_breaks {p : Program} (hw : StmtsWellFormed p) (hn : (stmtsIds p).Nodup)
    (he : p.resolve.errors = #[]) : ∀ s ∈ p, ¬ s.Breaks := by
  have hnew : ∀ id ∈ stmtsIds p, Distances.empty.get? id = none := fun _ _ => rfl
  exact fun _ hs => ((accepted_recordAll hw hn he hnew).not_breaks hs).1

@[simp] lemma SyntaxError.report_rename (node : NodeId → NodeId) (e : SyntaxError) :
    (e.rename (.ofNodes node)).report = e.report :=
  rfl

@[simp] lemma StaticError.report_rename (node : NodeId → NodeId) (e : StaticError) :
    (e.rename (.ofNodes node)).report = e.report :=
  rfl

@[simp] lemma Stop.rename_ofNodes (node : NodeId → NodeId) (stop : Stop) :
    stop.rename (.ofNodes node) = stop := by
  cases stop with
  | fault f => rfl
  | exhausted => rfl

/-- Runs that end alike end in the same fault. -/
lemma Exec.EndsMirrored.fault? {node : NodeId → NodeId} {told told' : Nat} {run run' : Run}
    (h : EndsMirrored (.ofNodes node) told told' Eq run.outcome run'.outcome) :
    run'.fault? = run.fault? := by
  unfold Run.fault?
  cases ho : run.outcome with
  | ok a m =>
    cases ho' : run'.outcome with
    | ok a' m' => rfl
    | error stop m' =>
      rw [ho, ho'] at h
      exact h.elim
  | error stop m =>
    cases ho' : run'.outcome with
    | ok a' m' =>
      rw [ho, ho'] at h
      exact h.elim
    | error stop' m' =>
      rw [ho, ho'] at h
      rw [h.1, Stop.rename_ofNodes]
      cases stop with
      | fault f => rfl
      | exhausted => rfl

namespace Session

/-- A session with other identities for nodes in which everything else is the same. Their journals
have the same reports from some place on. -/
structure Mirrors (node : NodeId → NodeId) (told told' : Nat) (s s' : Session) : Prop where
  machine : s.machine.Mirrors (.ofNodes node) told told' s'.machine
  nextId_eq : s'.nextId = node s.nextId
  node_succ : ∀ id, s.nextId ≤ id → node (id + 1) = node id + 1
  hadRuntimeError_eq : s'.hadRuntimeError = s.hadRuntimeError

/-- Two steps with the same result, after which the sessions mirror one another. -/
structure StepsAlike (node : NodeId → NodeId) (told told' : Nat)
    (x x' : StepResult × Session) : Prop where
  result_eq : x'.1 = x.1
  mirrors : x.2.Mirrors node told told' x'.2

namespace Mirrors

variable {node : NodeId → NodeId} {told told' : Nat} {s s' : Session}

lemma mapMachine (h : s.Mirrors node told told' s') {change change' : Machine → Machine}
    (hc : (change s.machine).Mirrors (.ofNodes node) told told' (change' s'.machine)) :
    (s.mapMachine change).Mirrors node told told' (s'.mapMachine change') :=
  ⟨hc, h.nextId_eq, h.node_succ, h.hadRuntimeError_eq⟩

lemma log (h : s.Mirrors node told told' s') (level : LogLevel) (message : String) :
    (s.log level message).Mirrors node told told' (s'.log level message) :=
  h.mapMachine (h.machine.log level .session message)

lemma rejectWith (h : s.Mirrors node told told' s') (lines : List String) :
    (s.rejectWith lines).Mirrors node told told' (s'.rejectWith lines) :=
  ⟨h.machine.reportAll lines, h.nextId_eq, h.node_succ, h.hadRuntimeError_eq⟩

lemma withNextId (h : s.Mirrors node told told' s') {next : NodeId} (hle : s.nextId ≤ next) :
    Mirrors node told told' { s with nextId := next } { s' with nextId := node next } :=
  ⟨h.machine, rfl, fun id hid => h.node_succ id (Nat.le_trans hle hid), h.hadRuntimeError_eq⟩

lemma dump (h : s.Mirrors node told told' s') (lines : List String) :
    StepsAlike node told told' (s.dump lines) (s'.dump lines) := by
  induction lines generalizing s s' with
  | nil => exact ⟨rfl, h⟩
  | cons line rest ih =>
    have hm := h.machine
    have hw : (s.mapMachine ({ · with sink := (s.machine.sink.writeLine line).2 })).Mirrors node
        told told' (s'.mapMachine ({ · with sink := (s.machine.sink.writeLine line).2 })) :=
      h.mapMachine ⟨hm.store_eq, hm.scope_eq, hm.held_eq, hm.get?_eq, rfl, hm.input_eq,
        hm.network_eq, hm.time_eq, hm.reports⟩
    simp only [Session.dump, hm.sink_eq]
    split
    · exact ih hw
    · exact ⟨rfl, hw⟩

/-- A program and its renamed copy have distances that mirror one another. -/
lemma recordResolution (hi : Function.Injective node) (h : s.Mirrors node told told' s')
    (p : Program) :
    (s.machine.recordResolution p.resolve).Mirrors (.ofNodes node) told told'
      (s'.machine.recordResolution (Program.resolve (renameStmts (.ofNodes node) p))) := by
  refine h.machine.recordResolution fun id => ?_
  rw [Program.resolve_rename]
  have hd := Distances.get?_recordAll_rename (.ofNodes node) hi h.machine.get?_eq
    p.resolve.found.toList id
  simpa [Resolution.rename] using hd

/-- The runs of a program and of its renamed copy end alike. -/
lemma outcome (hi : Function.Injective node) (h : s.Mirrors node told told' s') (steps : Nat)
    {p : Program} (hp : ∀ s ∈ p, ¬ s.Breaks) :
    Exec.EndsMirrored (.ofNodes node) told told' Eq
      (Run.outcome ⟨steps, p, s.machine.recordResolution p.resolve⟩)
      (Run.outcome ⟨steps, renameStmts (.ofNodes node) p,
        s'.machine.recordResolution (Program.resolve (renameStmts (.ofNodes node) p))⟩) :=
  runProgram_mirrors steps hp _ _ (h.recordResolution hi p)

lemma conclude (h : s.Mirrors node told told' s') {x x' : EStateM.Result Stop Machine Unit}
    (hx : Exec.EndsMirrored (.ofNodes node) told told' Eq x x') :
    StepsAlike node told told' (s.conclude x) (s'.conclude x') := by
  cases x with
  | ok a m =>
    cases x' with
    | ok a' m' => exact ⟨rfl, hx.2, h.nextId_eq, h.node_succ, h.hadRuntimeError_eq⟩
    | error stop m' => exact hx.elim
  | error stop m =>
    cases x' with
    | ok a' m' => exact hx.elim
    | error stop' m' =>
      obtain ⟨rfl, hm⟩ := hx
      rw [Stop.rename_ofNodes]
      cases stop with
      | fault f => exact ⟨rfl, hm.report f.report, h.nextId_eq, h.node_succ, rfl⟩
      | exhausted => exact ⟨rfl, hm, h.nextId_eq, h.node_succ, h.hadRuntimeError_eq⟩

lemma runProgram (hi : Function.Injective node) (h : s.Mirrors node told told' s') (steps : Nat)
    {p : Program} (hw : StmtsWellFormed p) (hn : (stmtsIds p).Nodup) :
    StepsAlike node told told' (s.runProgram steps p)
      (s'.runProgram steps (renameStmts (.ofNodes node) p)) := by
  have hrecord : (s.mapMachine (·.recordResolution p.resolve)).Mirrors node told told'
      (s'.mapMachine
        (·.recordResolution (Program.resolve (renameStmts (.ofNodes node) p)))) :=
    h.mapMachine (h.recordResolution hi p)
  by_cases he : p.resolve.errors.isEmpty
  · have he' : (Program.resolve (renameStmts (.ofNodes node) p)).errors.isEmpty := by
      rwa [Program.errors_isEmpty_rename]
    rw [s.runProgram_of_accepted steps he, s'.runProgram_of_accepted steps he']
    exact hrecord.conclude
      (h.outcome hi steps (Program.not_breaks hw hn (Array.isEmpty_iff.mp he)))
  · have he' : ¬ (Program.resolve (renameStmts (.ofNodes node) p)).errors.isEmpty := by
      rwa [Program.errors_isEmpty_rename]
    have hlines : (Program.resolve (renameStmts (.ofNodes node) p)).errors.toList.map
        StaticError.report = p.resolve.errors.toList.map StaticError.report := by
      rw [Program.resolve_rename, Resolution.rename, Array.toList_map, List.map_map]
      rfl
    simp only [Session.runProgram, if_neg he, if_neg he', hlines]
    exact ⟨rfl, hrecord.rejectWith _⟩

/-- A script is read as the same program, renamed, or in neither session. -/
lemma read? (h : s.Mirrors node told told' s') (source : String) :
    match s.read? source with
    | none => s'.read? source = none
    | some (p, t) => ∃ t', s'.read? source = some (renameStmts (.ofNodes node) p, t') ∧
      t.Mirrors node told told' t' := by
  unfold Session.read?
  cases hscan : scan source with
  | error errors => rfl
  | ok tokens =>
    have hlog := h.log .debug ("scanned " ++ toString tokens.length ++ " tokens")
    have hle := Program.le_parse_snd s.nextId tokens
    dsimp only
    rw [log_nextId, log_nextId, h.nextId_eq, Program.parse_ofNodes node h.node_succ hscan]
    rcases hparse : Program.parse s.nextId tokens with ⟨errors | p, next⟩
    · rfl
    · rw [hparse] at hle
      refine ⟨_, rfl, ?_⟩
      rw [renameStmts_length]
      exact (hlog.withNextId hle).log .debug _

lemma run (hi : Function.Injective node) (h : s.Mirrors node told told' s') (steps : Nat)
    (dumpOnly : Bool) (source : String) :
    StepsAlike node told told' (s.run steps dumpOnly source) (s'.run steps dumpOnly source) := by
  have hread := h.read? source
  cases hr : s.read? source with
  | some read =>
    obtain ⟨p, t⟩ := read
    rw [hr] at hread
    obtain ⟨t', hr', ht⟩ := hread
    obtain ⟨-, -, hw, hids⟩ := passes_read? hr
    rw [run_of_read?_some hr, run_of_read?_some hr', renderStmts_rename]
    cases dumpOnly with
    | true => exact ht.dump _
    | false => exact ht.runProgram hi steps hw hids.nodup
  | none =>
    unfold Session.run
    cases hscan : scan source with
    | error errors => exact ⟨rfl, h.rejectWith _⟩
    | ok tokens =>
      have hlog := h.log .debug ("scanned " ++ toString tokens.length ++ " tokens")
      have hle := Program.le_parse_snd s.nextId tokens
      dsimp only
      rw [log_nextId, log_nextId, h.nextId_eq, Program.parse_ofNodes node h.node_succ hscan]
      rcases hparse : Program.parse s.nextId tokens with ⟨errors | p, next⟩
      · rw [hparse] at hle
        have hlines : (errors.map (SyntaxError.rename (.ofNodes node))).map SyntaxError.report =
            errors.map SyntaxError.report := by
          rw [List.map_map]
          rfl
        simp only [Program.renameRead, hlines]
        exact ⟨rfl, (hlog.rejectWith _).withNextId hle⟩
      · simp [Session.read?, hscan, hparse] at hr

/-- Mirroring sessions do the same, whatever they are asked for. -/
theorem perform (hi : Function.Injective node) (h : s.Mirrors node told told' s') (q : Request) :
    StepsAlike node told told' (q.perform s) (q.perform s') := by
  cases q with
  | source steps dumpOnly text => exact h.run hi steps dumpOnly text
  | file steps dumpOnly path content =>
    have hlog := h.log .info ("running " ++ path)
    simp only [Request.perform, Session.runFile]
    cases scriptOf content with
    | ok text => exact hlog.run hi steps dumpOnly text
    | error failure => exact ⟨rfl, hlog⟩

end Mirrors

end Session

end Scripting
