import Scripting.Proofs.Session.Mirroring

/-!
# Rejected scripts leave no trace

A script that does not get through scanning, reading and resolving may use up identities, and
resolving may leave distances of its nodes behind. Later programs have other nodes, so that they
never meet these distances; and which identities they have makes no difference. Hence the session
goes on as if the script had never been there.
-/

namespace Scripting

open Resolution Eval

/-! ### Valid scripts -/

/-- The program in a script, if the script gets through scanning, reading and resolving. Identities
are given out from `nextId` on. -/
def Program.ofSource? (nextId : NodeId) (source : String) : Option Program :=
  match scan source with
  | .error _ => none
  | .ok tokens =>
    match Program.parse nextId tokens with
    | (.error _, _) => none
    | (.ok program, _) => if program.resolve.errors.isEmpty then some program else none

/-- A script gets through scanning, reading and resolving. -/
def Valid (source : String) : Prop :=
  (Program.ofSource? 0 source).isSome

instance (source : String) : Decidable (Valid source) :=
  inferInstanceAs (Decidable ((Program.ofSource? 0 source).isSome = true))

/-- Whether a script is valid does not depend on the identities that its nodes get. -/
lemma Program.ofSource?_eq_map (nextId : NodeId) (source : String) :
    Program.ofSource? nextId source =
      (Program.ofSource? 0 source).map (renameStmts (.ofNodes (· + nextId))) := by
  unfold Program.ofSource?
  cases hscan : scan source with
  | error errors => rfl
  | ok tokens =>
    have hp := Program.parse_ofNodes (· + nextId)
      (fun id (_ : 0 ≤ id) => Nat.add_right_comm id 1 nextId) hscan
    rw [Nat.zero_add] at hp
    dsimp only
    rw [hp]
    rcases Program.parse 0 tokens with ⟨errors | p, next⟩
    · rfl
    · simp only [Program.renameRead, Program.errors_isEmpty_rename]
      split
      · rfl
      · rfl

lemma Program.ofSource?_eq_none_iff (nextId : NodeId) (source : String) :
    Program.ofSource? nextId source = none ↔ ¬ Valid source := by
  rw [Program.ofSource?_eq_map, Option.map_eq_none_iff, Valid, Option.not_isSome_iff_eq_none]

namespace Session

/-- The scripts that come to a run are the valid ones. -/
lemma launch?_eq_none_iff (s : Session) (steps : Nat) (source : String) :
    s.launch? steps false source = none ↔ ¬ Valid source := by
  rw [← Program.ofSource?_eq_none_iff s.nextId]
  unfold launch? read? Program.ofSource?
  cases scan source with
  | error errors => simp
  | ok tokens =>
    simp only [log_nextId]
    rcases Program.parse s.nextId tokens with ⟨errors | p, next⟩
    · simp
    · simp only [Bool.false_eq_true, if_false]
      split
      · simp
      · simp

lemma rejectWith_eq (s : Session) (lines : List String) :
    ∃ journal, s.rejectWith lines =
      ⟨{ s.machine with journal }, s.nextId, true, s.hadRuntimeError⟩ := by
  have fold : ∀ (lines : List String) (m : Machine),
      ∃ journal, lines.foldl Machine.report m = { m with journal } := by
    intro lines
    induction lines with
    | nil => exact fun m => ⟨m.journal, rfl⟩
    | cons line rest ih => exact fun m => ih (m.report line)
  obtain ⟨journal, hj⟩ := fold lines s.machine
  refine ⟨journal, ?_⟩
  rw [rejectWith, mapMachine, hj]

lemma runProgram_of_errors (s : Session) (steps : Nat) {p : Program}
    (h : ¬ p.resolve.errors.isEmpty) :
    ∃ distances journal, s.runProgram steps p =
      (.ok, ⟨{ s.machine with distances, journal }, s.nextId, true, s.hadRuntimeError⟩) := by
  obtain ⟨kept, -, hm⟩ := s.machine.recordResolution_eq p.resolve
  obtain ⟨journal, hj⟩ := (s.mapMachine (·.recordResolution p.resolve)).rejectWith_eq
    (p.resolve.errors.toList.map StaticError.report)
  refine ⟨s.machine.distances.recordAll p.resolve.found.toList, journal, ?_⟩
  simp only [runProgram, if_neg h]
  rw [hj]
  simp only [mapMachine, hm]

/-- What becomes of a session when a script is rejected. -/
lemma run_of_not_valid (s : Session) (steps : Nat) {source : String} (h : ¬ Valid source) :
    ∃ distances journal nextId, s.run steps false source =
      (.ok, ⟨{ s.machine with distances, journal }, nextId, true, s.hadRuntimeError⟩) := by
  rw [← Program.ofSource?_eq_none_iff s.nextId] at h
  unfold Program.ofSource? at h
  unfold run
  cases hscan : scan source with
  | error errors =>
    obtain ⟨journal, hj⟩ := s.rejectWith_eq (errors.map ScanError.report)
    exact ⟨_, _, _, congrArg _ hj⟩
  | ok tokens =>
    simp only [hscan] at h
    simp only [log_nextId]
    rcases hparse : Program.parse s.nextId tokens with ⟨errors | p, next⟩
    · obtain ⟨journal, hj⟩ := rejectWith_eq
        (s.log .debug ("scanned " ++ toString tokens.length ++ " tokens"))
        (errors.map SyntaxError.report)
      simp only [hj]
      exact ⟨_, _, _, rfl⟩
    · simp only [hparse, ite_eq_right_iff, reduceCtorEq, imp_false] at h
      obtain ⟨distances, journal, hr⟩ := runProgram_of_errors
        ({ s.log .debug ("scanned " ++ toString tokens.length ++ " tokens") with
          nextId := next }.log .debug ("parsed " ++ toString p.length ++ " statements")) steps h
      exact ⟨distances, journal, next, hr⟩

end Session

/-! ### Code of earlier scripts -/

/-- Move the identities from `first` on to those from `target` on. -/
def moveNodes (first target id : Nat) : Nat :=
  if id < first then id else id + (target - first)

section moveNodes

variable {first target id : Nat}

lemma moveNodes_of_lt (h : id < first) : moveNodes first target id = id :=
  if_pos h

lemma moveNodes_of_le (h : first ≤ id) : moveNodes first target id = id + (target - first) :=
  if_neg (Nat.not_lt.mpr h)

lemma moveNodes_first (h : first ≤ target) : moveNodes first target first = target := by
  rw [moveNodes_of_le (Nat.le_refl _), Nat.add_sub_cancel' h]

lemma moveNodes_succ (h : first ≤ id) :
    moveNodes first target (id + 1) = moveNodes first target id + 1 := by
  rw [moveNodes_of_le h, moveNodes_of_le (Nat.le_succ_of_le h), Nat.add_right_comm]

lemma le_moveNodes (ht : first ≤ target) (h : first ≤ id) :
    target ≤ moveNodes first target id := by
  rw [moveNodes_of_le h]
  omega

lemma moveNodes_injective (first target : Nat) : Function.Injective (moveNodes first target) := by
  intro a b hab
  simp only [moveNodes] at hab
  split at hab <;> split at hab <;> omega

end moveNodes

/-- What an action leaves when it mirrors itself. -/
lemma Exec.Mirrors.store_rename_after {α : Type} {R : α → α → Prop} {ρ : Renaming}
    {told : Nat} {x : Exec α} (hx : Mirrors ρ told told R x x) {m : Machine}
    (hm : m.Mirrors ρ told told m) : (x.after m).store.rename ρ = (x.after m).store := by
  have h := hx m m hm
  unfold Exec.after
  cases hr : x m with
  | ok a after =>
    rw [hr] at h
    exact h.2.store_eq.symm
  | error stop after =>
    rw [hr] at h
    exact h.2.store_eq.symm

/-- In the beginning, there is no code. -/
lemma Machine.builtins_rename (ρ : Renaming) : builtins.rename ρ = builtins := by
  simp [Store.rename, builtins, Callable.rename, Class.rename, classOfHost, Record.mapEntries]

namespace Session

lemma after_cons (s : Session) (q : Request) (rest : List Request) :
    s.after (q :: rest) = (q.perform s).2.after rest :=
  rfl

lemma nextId_le_after (s : Session) (requests : List Request) :
    s.nextId ≤ (s.after requests).nextId := by
  induction requests generalizing s with
  | nil => exact Nat.le_refl _
  | cons q rest ih =>
    rw [after_cons]
    refine Nat.le_trans ?_ (ih _)
    have hq := q.perform_spec s
    cases hr : q.run? s with
    | none =>
      rw [hr] at hq
      exact hq.nextId_le
    | some run =>
      rw [hr] at hq
      obtain ⟨s', hp, -, -, -, he⟩ := hq.prepared
      rw [he, (s'.conclude_spec run).2.2.2.2]
      exact hp.nextId_le

/-- A renaming that leaves the nodes and programs of a session alone leaves the code in its store
alone. -/
theorem Settled.store_rename_after {s : Session} {earlier : List Run} (h : s.Settled earlier)
    {ρ : Renaming} {bound : NodeId}
    (hnode : ∀ id, ρ.node id = id ∨ bound ≤ id ∧ bound ≤ ρ.node id) (requests : List Request)
    (hbound : (s.after requests).nextId ≤ bound)
    (hstore : s.machine.store.rename ρ = s.machine.store)
    (hp : ∀ run ∈ s.runs requests, renameStmts ρ run.program = run.program) :
    (s.after requests).machine.store.rename ρ = (s.after requests).machine.store := by
  induction requests generalizing s earlier with
  | nil => exact hstore
  | cons q rest ih =>
    rw [after_cons] at hbound ⊢
    refine ih (h.perform q) hbound ?_ fun run hrun => hp run (List.mem_append_right _ hrun)
    have hq := q.perform_spec s
    cases hr : q.run? s with
    | none =>
      rw [hr] at hq
      rwa [hq.store_eq]
    | some run =>
      rw [hr] at hq
      obtain ⟨s', hpass, hmachine, hids, -, he⟩ := hq.prepared
      have hs' := h.passes hpass
      have hnext : (q.perform s).2.nextId = s'.nextId := by
        rw [he, (s'.conclude_spec run).2.2.2.2]
      have hle : s'.nextId ≤ bound := by
        rw [← hnext]
        exact Nat.le_trans (nextId_le_after _ rest) hbound
      -- the machine of the run mirrors itself: nodes that are renamed have no distances
      have hself : run.machine.Mirrors ρ run.machine.journal.size run.machine.journal.size
          run.machine := by
        refine ⟨?_, rfl, rfl, fun id => ?_, rfl, rfl, rfl, rfl, .ofEnds _ _⟩
        · rw [← hmachine, hpass.store_eq, hstore]
        · rw [← hmachine]
          rcases hnode id with hid | ⟨hid, hid'⟩
          · rw [hid]
          · rw [hs'.new id (Nat.le_trans hle hid), hs'.new _ (Nat.le_trans hle hid')]
      have hruns : Exec.Mirrors ρ run.machine.journal.size run.machine.journal.size Eq
          (Eval.runProgram run.steps run.program)
          (Eval.runProgram run.steps (renameStmts ρ run.program)) :=
        runProgram_mirrors run.steps
          (Program.not_breaks hq.wellFormed hids.nodup hq.errors_eq)
      rw [hp run (by simp [runs, hr])] at hruns
      rw [he, (s'.conclude_spec run).1]
      exact hruns.store_rename_after hself

/-- The store of a session has no nodes but those of its programs. -/
lemma store_ofNodes_after (sink : Sink) (input : List UInt8) (network : Network) (time : Nat)
    (requests : List Request) {node : NodeId → NodeId} {bound : NodeId}
    (hbound : ((start (.start sink input network time)).after requests).nextId ≤ bound)
    (hnode : ∀ id, (id < bound → node id = id) ∧ (bound ≤ id → bound ≤ node id)) :
    ((start (.start sink input network time)).after requests).machine.store.rename
        (.ofNodes node) =
      ((start (.start sink input network time)).after requests).machine.store := by
  have hs := settled_start sink input network time
  refine hs.store_rename_after (fun id => ?_) requests hbound
    (Machine.builtins_rename _) fun run hrun => ?_
  · rcases Nat.lt_or_ge id bound with hid | hid
    · exact .inl ((hnode id).1 hid)
    · exact .inr ⟨hid, (hnode id).2 hid⟩
  · refine renameStmts_eq_self run.program fun id hid => (hnode id).1 ?_
    exact Nat.lt_of_lt_of_le ((hs.after requests).old run hrun id hid) hbound

end Session

/-! ### What a session shows -/

/-- Two steps show the same, apart from log messages and from whether there was ever an error. -/
structure StepReport.ShowsSame (a b : StepReport) : Prop where
  result_eq : b.result = a.result
  output_eq : b.output = a.output
  reports_eq : b.reports = a.reports
  hadRuntimeError_eq : b.hadRuntimeError = a.hadRuntimeError

namespace Session

/-- What a session shows when it is asked for one script after the other, with log messages up to a
rank. -/
def transcript (s : Session) (logRank : Nat) : List Request → List StepReport
  | [] => []
  | q :: rest =>
    (s.observe logRank (q.perform ·)).1 :: (q.perform s).2.transcript logRank rest

namespace Mirrors

variable {node : NodeId → NodeId} {told told' : Nat} {s s' : Session}

lemma fromEnds (h : s.Mirrors node told told' s') :
    s.Mirrors node s.machine.journal.size s'.machine.journal.size s' :=
  ⟨h.machine.fromEnds, h.nextId_eq, h.node_succ, h.hadRuntimeError_eq⟩

lemma launch?_fault? (hi : Function.Injective node) (h : s.Mirrors node told told' s')
    (steps : Nat) (dumpOnly : Bool) (source : String) :
    (s'.launch? steps dumpOnly source).map Run.fault? =
      (s.launch? steps dumpOnly source).map Run.fault? := by
  have hread := h.read? source
  unfold Session.launch?
  cases hr : s.read? source with
  | none =>
    rw [hr] at hread
    rw [hread]
  | some read =>
    obtain ⟨p, t⟩ := read
    rw [hr] at hread
    obtain ⟨t', hr', ht⟩ := hread
    obtain ⟨-, -, hw, hids⟩ := passes_read? hr
    rw [hr']
    dsimp only
    rw [Program.errors_isEmpty_rename]
    split
    · rfl
    · split
      · next he =>
        exact congrArg some
          (ht.outcome hi steps (Program.not_breaks hw hids.nodup (Array.isEmpty_iff.mp he))).fault?
      · rfl

lemma run?_fault? (hi : Function.Injective node) (h : s.Mirrors node told told' s')
    (q : Request) : (q.run? s').map Run.fault? = (q.run? s).map Run.fault? := by
  cases q with
  | source steps dumpOnly text => exact h.launch?_fault? hi steps dumpOnly text
  | file steps dumpOnly path content =>
    have hlog := h.log .info ("running " ++ path)
    simp only [Request.run?]
    cases scriptOf content with
    | ok text => exact hlog.launch?_fault? hi steps dumpOnly text
    | error failure => rfl

/-- A step that is alike in two sessions shows the same. -/
lemma observe (h : s.Mirrors node told told' s') (logRank : Nat)
    {step : Session → StepResult × Session}
    (hs : StepsAlike node s.machine.journal.size s'.machine.journal.size (step s) (step s')) :
    (s.observe logRank step).1.ShowsSame (s'.observe logRank step).1 := by
  have hm := hs.mirrors.machine
  refine ⟨hs.result_eq, ?_, hm.reports.reports_eq, hs.mirrors.hadRuntimeError_eq⟩
  simp only [Session.observe]
  rw [hm.sink_eq, h.machine.sink_eq]

/-- Mirroring sessions show the same from then on, and their runs end in the same faults. -/
theorem shows_same (hi : Function.Injective node) (h : s.Mirrors node told told' s')
    (logRank : Nat) (requests : List Request) :
    List.Forall₂ StepReport.ShowsSame (s.transcript logRank requests)
        (s'.transcript logRank requests) ∧
      (s'.runs requests).map Run.fault? = (s.runs requests).map Run.fault? := by
  induction requests generalizing s s' told told' with
  | nil => exact ⟨.nil, rfl⟩
  | cons q rest ih =>
    have hstep := h.fromEnds.perform hi q
    obtain ⟨hshown, hfaults⟩ := ih hstep.mirrors
    have hfirst : (s.observe logRank (q.perform ·)).1.ShowsSame
        (s'.observe logRank (q.perform ·)).1 := h.observe logRank hstep
    have hq := h.run?_fault? hi q
    refine ⟨.cons hfirst hshown, ?_⟩
    simp only [runs, List.map_append, hfaults, ← Option.toList_map, hq]

end Mirrors

/-- A rejected script makes a difference only to whether there was ever an error. Nothing that
programs can see is changed, and whatever the session is asked for later, it shows the same as if
the script had never been there. -/
theorem rejected_script_invisible (sink : Sink) (input : List UInt8) (network : Network)
    (time : Nat) (requests : List Request) (steps : Nat) {source : String}
    (h : ¬ Valid source) :
    let s := (start (.start sink input network time)).after requests
    let (result, s') := s.run steps false source
    result = .ok ∧ s'.hadError = true ∧ s'.hadRuntimeError = s.hadRuntimeError ∧
    s'.machine.store = s.machine.store ∧ s'.machine.scope = s.machine.scope ∧
    s'.machine.held = s.machine.held ∧ s'.machine.sink = s.machine.sink ∧
    s'.machine.input = s.machine.input ∧ s'.machine.network = s.machine.network ∧
    s'.machine.time = s.machine.time ∧
    ∀ (later : List Request) (logRank : Nat),
      List.Forall₂ StepReport.ShowsSame (s.transcript logRank later)
        (s'.transcript logRank later) ∧
      (s'.runs later).map Run.fault? = (s.runs later).map Run.fault? := by
  intro s
  have hsettled := (settled_start sink input network time).after requests
  have hpass : s.Passes (s.run steps false source).2 := by
    have hspec := s.run_spec steps false source
    rwa [(s.launch?_eq_none_iff steps source).mpr h] at hspec
  obtain ⟨distances, journal, nextId, hrun⟩ := s.run_of_not_valid steps h
  rw [hrun] at hpass ⊢
  refine ⟨rfl, rfl, rfl, rfl, rfl, rfl, rfl, rfl, rfl, rfl, fun later logRank => ?_⟩
  have hle : s.nextId ≤ nextId := hpass.nextId_le
  have hstore : s.machine.store.rename (.ofNodes (moveNodes s.nextId nextId)) =
      s.machine.store :=
    store_ofNodes_after sink input network time requests (Nat.le_refl _) fun _ =>
      ⟨moveNodes_of_lt, fun hid => Nat.le_trans hle (le_moveNodes hle hid)⟩
  -- later nodes are those behind the ones that the rejected script has used up
  have hmirrors : s.Mirrors (moveNodes s.nextId nextId) s.machine.journal.size journal.size
      ⟨{ s.machine with distances, journal }, nextId, true, s.hadRuntimeError⟩ := by
    refine ⟨⟨hstore.symm, rfl, rfl, fun id => ?_, rfl, rfl, rfl, rfl, .ofEnds _ _⟩,
      (moveNodes_first hle).symm, fun id hid => moveNodes_succ hid, rfl⟩
    rw [Renaming.ofNodes_node]
    rcases Nat.lt_or_ge id s.nextId with hid | hid
    · rw [moveNodes_of_lt hid]
      exact hpass.get?_eq id (.inl hid)
    · have hid' := le_moveNodes hle hid
      rw [hsettled.new id hid]
      exact (hpass.get?_eq _ (.inr hid')).trans (hsettled.new _ (Nat.le_trans hle hid'))
  exact hmirrors.shows_same (moveNodes_injective _ _) logRank later

/-- A script whose mistake is found after a distance was kept, between two that belong together. -/
theorem rejected_script_invisible_between :
    let s := (start (.start (.ofLimit none) [] .isolated 0)).after
      [.source 20 false "var a = \"x\"; fun f() \x7b return a; \x7d"]
    let (result, s') := s.run 20 false "\x7b var b = 2; b; \x7d return b;"
    let later := [Request.source 20 false "print f();"]
    result = .ok ∧ s'.hadError = true ∧
      (s.transcript 0 later).map StepReport.output = ["x\n"] ∧
      List.Forall₂ StepReport.ShowsSame (s.transcript 0 later) (s'.transcript 0 later) := by
  intro s
  obtain ⟨hinvalid, hprinted⟩ : ¬ Valid "\x7b var b = 2; b; \x7d return b;" ∧
      (s.transcript 0 [.source 20 false "print f();"]).map StepReport.output = ["x\n"] := by
    decide +kernel
  obtain ⟨hresult, herror, -, -, -, -, -, -, -, -, hlater⟩ :=
    rejected_script_invisible (.ofLimit none) [] .isolated 0
      [.source 20 false "var a = \"x\"; fun f() \x7b return a; \x7d"] 20 hinvalid
  exact ⟨hresult, herror, hprinted, (hlater _ 0).1⟩

end Session

end Scripting
