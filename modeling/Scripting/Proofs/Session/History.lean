import Scripting.Proofs.Eval.Runs
import Scripting.Proofs.Program.Reading
import Scripting.Session

/-!
# The runs of a session

A session is asked for one script after the other. Those in which nothing is wrong come to a run,
on the machine that the earlier ones have left. The nodes of a new program are new, so that its
distances do not disturb those of the earlier programs; hence every run of a session can rely on
what the earlier ones have left.
-/

namespace Scripting

open Resolution Eval

/-! ### Keeping distances -/

namespace Distances

variable {table : Distances} {id : NodeId} {links : List (NodeId × Nat)}

lemma get?_record (table : Distances) (id other : NodeId) (distance : Nat) :
    (table.record id distance).get? other =
      if other = id then some distance else table.get? other := by
  obtain ⟨entries⟩ := table
  simp only [get?, record]
  split
  · next hlt =>
    by_cases he : other = id
    · subst he
      simp [hlt]
    · simp [he, Ne.symm he]
  · next hge =>
    have hsize : (entries ++ Array.replicate (id - entries.size) none).size = id := by
      rw [Array.size_append, Array.size_replicate]
      exact Nat.add_sub_cancel' (Nat.le_of_not_lt hge)
    rw [Array.getElem?_push, hsize]
    split
    · rfl
    · rw [Array.getElem?_append, Array.getElem?_replicate]
      split
      · rfl
      · next hout =>
        rw [Array.getElem?_eq_none (Nat.le_of_not_lt hout)]
        split
        · rfl
        · rfl

/-- The table with more distances. -/
def recordAll (table : Distances) (links : List (NodeId × Nat)) : Distances :=
  links.foldl (fun table link => table.record link.1 link.2) table

lemma recordAll_append (table : Distances) (links links' : List (NodeId × Nat)) :
    table.recordAll (links ++ links') = (table.recordAll links).recordAll links' :=
  List.foldl_append

lemma get?_recordAll_of_notMem (h : id ∉ links.map Prod.fst) :
    (table.recordAll links).get? id = table.get? id := by
  induction links generalizing table with
  | nil => rfl
  | cons link rest ih =>
    rw [List.map_cons, List.mem_cons, not_or] at h
    rw [recordAll, List.foldl_cons]
    exact (ih h.2).trans (by rw [get?_record, if_neg h.1])

lemma get?_recordAll (hn : (links.map Prod.fst).Nodup) {distance : Nat}
    (hm : (id, distance) ∈ links) : (table.recordAll links).get? id = some distance := by
  induction links generalizing table with
  | nil => simp at hm
  | cons link rest ih =>
    rw [List.map_cons, List.nodup_cons] at hn
    rw [recordAll, List.foldl_cons]
    rcases List.mem_cons.mp hm with rfl | hm
    · exact (get?_recordAll_of_notMem hn.1).trans (by simp [get?_record])
    · exact ih hn.2 hm

/-- The table has the new distances, and the old ones where there is no new one. -/
lemma get?_recordAll_eq (hn : (links.map Prod.fst).Nodup) :
    (table.recordAll links).get? id = (links.lookup id).or (table.get? id) := by
  cases hl : links.lookup id with
  | none =>
    refine get?_recordAll_of_notMem fun hm => ?_
    obtain ⟨link, hlink, rfl⟩ := List.mem_map.mp hm
    exact absurd (List.lookup_eq_none_iff.mp hl link hlink) (by simp)
  | some distance =>
    obtain ⟨before, after, rfl, -⟩ := List.lookup_eq_some_iff.mp hl
    exact get?_recordAll hn (List.mem_append_right _ List.mem_cons_self)

end Distances

namespace Machine

lemma recordResolution_spec (m : Machine) (r : Resolution) :
    (m.recordResolution r).store = m.store ∧ (m.recordResolution r).scope = m.scope ∧
      (m.recordResolution r).held = m.held ∧
      (m.recordResolution r).distances = m.distances.recordAll r.found.toList := by
  have fold : ∀ (links : List (NodeId × Nat)) (m : Machine),
      let m' := links.foldl (fun m link => m.recordDistance link.1 link.2) m
      m'.store = m.store ∧ m'.scope = m.scope ∧ m'.held = m.held ∧
        m'.distances = m.distances.recordAll links := by
    intro links
    induction links with
    | nil => exact fun m => ⟨rfl, rfl, rfl, rfl⟩
    | cons link rest ih => exact fun m => ih (m.recordDistance link.1 link.2)
  rw [recordResolution, ← Array.foldl_toList]
  exact fold r.found.toList m

end Machine

namespace Program

variable {p : Program} {table table' : Distances}

/-- Only the distances of its own nodes matter to a program. -/
lemma Accepted.congr (h : p.Accepted table)
    (ht : ∀ id ∈ stmtsIds p, table'.get? id = table.get? id) : p.Accepted table' := by
  obtain ⟨links, hl, hi⟩ := h.agrees.links
  refine ⟨h.wellFormed, h.agrees.nodup, h.agrees.errors_eq, links, hl, fun id hid distance => ?_⟩
  rw [ht id hid]
  exact hi id hid distance

/-- A program without mistakes whose nodes are new is accepted when its distances are kept. -/
lemma accepted_recordAll (hw : StmtsWellFormed p) (hn : (stmtsIds p).Nodup)
    (he : p.resolve.errors = #[]) (ht : ∀ id ∈ stmtsIds p, table.get? id = none) :
    p.Accepted (table.recordAll p.resolve.found.toList) := by
  obtain ⟨links, hl, hs⟩ := (stmts_walked p .start).found
  obtain rfl : p.resolve.found.toList = links := hl
  refine ⟨hw, hn, he, p.resolve.found.toList, rfl, fun id hid distance => ?_⟩
  constructor
  · intro hg
    by_cases hm : id ∈ p.resolve.found.toList.map Prod.fst
    · obtain ⟨⟨_, distance'⟩, hlink, rfl⟩ := List.mem_map.mp hm
      rw [Distances.get?_recordAll (hs.nodup hn) hlink] at hg
      obtain rfl := Option.some.inj hg
      exact hlink
    · rw [Distances.get?_recordAll_of_notMem hm, ht id hid] at hg
      cases hg
  · exact Distances.get?_recordAll (hs.nodup hn)

end Program

/-! ### From a script to a run -/

namespace Session

/-- The program in a script, and the session when it was read. -/
def read? (s : Session) (source : String) : Option (Program × Session) :=
  match scan source with
  | .error _ => none
  | .ok tokens =>
    let s := s.log .debug ("scanned " ++ toString tokens.length ++ " tokens")
    match Program.parse s.nextId tokens with
    | (.error _, _) => none
    | (.ok program, nextId) =>
      some (program, { s with nextId }.log .debug
        ("parsed " ++ toString program.length ++ " statements"))

/-- The run that a script comes to, unless something is wrong with it. -/
def launch? (s : Session) (steps : Nat) (dumpOnly : Bool) (source : String) : Option Run :=
  match s.read? source with
  | none => none
  | some (program, s) =>
    if dumpOnly then none
    else if program.resolve.errors.isEmpty then
      some ⟨steps, program, s.machine.recordResolution program.resolve⟩
    else none

/-- What a session makes of the end of a run. -/
def conclude (s : Session) : EStateM.Result Stop Machine Unit → StepResult × Session
  | .ok _ machine => (.ok, { s with machine })
  | .error (.fault fault) machine =>
    (.ok, { s with machine := machine.report fault.report, hadRuntimeError := true })
  | .error .exhausted machine => (.exhausted, { s with machine })

/-- A step of a session without a run: at most, new nodes get distances. -/
structure Passes (s s' : Session) : Prop where
  store_eq : s'.machine.store = s.machine.store
  scope_eq : s'.machine.scope = s.machine.scope
  held_eq : s'.machine.held = s.machine.held
  nextId_le : s.nextId ≤ s'.nextId
  get?_eq : ∀ id, id < s.nextId ∨ s'.nextId ≤ id →
    s'.machine.distances.get? id = s.machine.distances.get? id

/-- A step of a session that makes a run, from a session with the distances of the program. -/
structure Makes (s : Session) (run : Run) (result : StepResult × Session) : Prop where
  prepared : ∃ s' : Session, s.Passes s' ∧ s'.machine = run.machine ∧
    IdsWithin s.nextId s'.nextId (stmtsIds run.program) ∧
    run.machine.distances = s.machine.distances.recordAll run.program.resolve.found.toList ∧
    result = s'.conclude run.outcome
  wellFormed : StmtsWellFormed run.program
  errors_eq : run.program.resolve.errors = #[]

lemma Passes.trans {s s' s'' : Session} (h : s.Passes s') (h' : s'.Passes s'') :
    s.Passes s'' where
  store_eq := h'.store_eq.trans h.store_eq
  scope_eq := h'.scope_eq.trans h.scope_eq
  held_eq := h'.held_eq.trans h.held_eq
  nextId_le := Nat.le_trans h.nextId_le h'.nextId_le
  get?_eq := by
    intro id hid
    rcases hid with hid | hid
    · exact (h'.get?_eq id (.inl (Nat.lt_of_lt_of_le hid h.nextId_le))).trans
        (h.get?_eq id (.inl hid))
    · exact (h'.get?_eq id (.inr hid)).trans
        (h.get?_eq id (.inr (Nat.le_trans h'.nextId_le hid)))

/-- A step that leaves everything but the journal and the output alone. -/
lemma Passes.of_eq {s s' : Session} (hs : s'.machine.store = s.machine.store)
    (hf : s'.machine.scope = s.machine.scope) (hh : s'.machine.held = s.machine.held)
    (hn : s.nextId ≤ s'.nextId) (hd : s'.machine.distances = s.machine.distances) :
    s.Passes s' :=
  ⟨hs, hf, hh, hn, fun id _ => by rw [hd]⟩

lemma passes_log (s : Session) (level : LogLevel) (message : String) :
    s.Passes (s.log level message) :=
  .of_eq rfl rfl rfl (Nat.le_refl _) rfl

lemma rejectWith_spec (s : Session) (lines : List String) :
    (s.rejectWith lines).machine.store = s.machine.store ∧
      (s.rejectWith lines).machine.scope = s.machine.scope ∧
      (s.rejectWith lines).machine.held = s.machine.held ∧
      (s.rejectWith lines).machine.distances = s.machine.distances := by
  have fold : ∀ (lines : List String) (m : Machine),
      (lines.foldl Machine.report m).store = m.store ∧
        (lines.foldl Machine.report m).scope = m.scope ∧
        (lines.foldl Machine.report m).held = m.held ∧
        (lines.foldl Machine.report m).distances = m.distances := by
    intro lines
    induction lines with
    | nil => exact fun m => ⟨rfl, rfl, rfl, rfl⟩
    | cons line rest ih => exact fun m => ih (m.report line)
  exact fold lines s.machine

lemma passes_rejectWith (s : Session) (lines : List String) : s.Passes (s.rejectWith lines) := by
  obtain ⟨hs, hf, hh, hd⟩ := s.rejectWith_spec lines
  exact .of_eq hs hf hh (Nat.le_refl _) hd

lemma passes_dump (s : Session) (lines : List String) : s.Passes (s.dump lines).2 := by
  induction lines generalizing s with
  | nil => exact .of_eq rfl rfl rfl (Nat.le_refl _) rfl
  | cons line rest ih =>
    have hw : s.Passes
        (s.mapMachine ({ · with sink := (s.machine.sink.writeLine line).2 })) :=
      .of_eq rfl rfl rfl (Nat.le_refl _) rfl
    simp only [dump]
    split
    · exact hw.trans (ih _)
    · exact hw

@[simp] lemma log_nextId (s : Session) (level : LogLevel) (message : String) :
    (s.log level message).nextId = s.nextId :=
  rfl

/-- A script that is read: it is scanned, and its tokens make a program. -/
lemma read?_eq_some {s s' : Session} {source : String} {p : Program}
    (h : s.read? source = some (p, s')) :
    ∃ tokens nextId, scan source = .ok tokens ∧
      Program.parse s.nextId tokens = (.ok p, nextId) ∧
      s' = { s.log .debug ("scanned " ++ toString tokens.length ++ " tokens") with nextId }.log
        .debug ("parsed " ++ toString p.length ++ " statements") := by
  cases hscan : scan source with
  | error errors => simp [read?, hscan] at h
  | ok tokens =>
    rcases hparse : Program.parse s.nextId tokens with ⟨errors | program, nextId⟩
    · simp [read?, hscan, hparse] at h
    · simp only [read?, hscan, log_nextId, hparse, Option.some.injEq, Prod.mk.injEq] at h
      obtain ⟨rfl, rfl⟩ := h
      exact ⟨tokens, nextId, rfl, hparse, rfl⟩

/-- Only the nodes of the program that was read are new. -/
lemma passes_read? {s s' : Session} {source : String} {p : Program}
    (h : s.read? source = some (p, s')) :
    s.Passes s' ∧ s'.machine.distances = s.machine.distances ∧ StmtsWellFormed p ∧
      IdsWithin s.nextId s'.nextId (stmtsIds p) := by
  obtain ⟨tokens, nextId, hscan, hparse, rfl⟩ := read?_eq_some h
  obtain ⟨hw, hids⟩ := Program.parse_fits (scan_spelled hscan) hparse
  have hle := Program.le_parse_snd s.nextId tokens
  rw [hparse] at hle
  exact ⟨.of_eq rfl rfl rfl hle rfl, rfl, hw, hids⟩

lemma passes_run_of_read?_none {s : Session} {source : String} (h : s.read? source = none)
    (steps : Nat) (dumpOnly : Bool) : s.Passes (s.run steps dumpOnly source).2 := by
  cases hscan : scan source with
  | error errors =>
    simp only [run, hscan]
    exact s.passes_rejectWith _
  | ok tokens =>
    have hle := Program.le_parse_snd s.nextId tokens
    rcases hparse : Program.parse s.nextId tokens with ⟨errors | program, nextId⟩
    · rw [hparse] at hle
      simp only [run, hscan, log_nextId, hparse]
      obtain ⟨hs, hf, hh, hd⟩ := rejectWith_spec
        (s.log .debug ("scanned " ++ toString tokens.length ++ " tokens"))
        (errors.map SyntaxError.report)
      exact .of_eq hs hf hh hle hd
    · simp [read?, hscan, hparse] at h

lemma run_of_read?_some {s s' : Session} {source : String} {p : Program}
    (h : s.read? source = some (p, s')) (steps : Nat) (dumpOnly : Bool) :
    s.run steps dumpOnly source =
      if dumpOnly then s'.dump (renderStmts p) else s'.runProgram steps p := by
  obtain ⟨tokens, nextId, hscan, hparse, rfl⟩ := read?_eq_some h
  simp only [run, hscan, log_nextId, hparse]

/-- Keeping the distances of a program that was just read. -/
lemma Passes.record {s s' : Session} {p : Program} (h : s.Passes s')
    (hids : IdsWithin s.nextId s'.nextId (stmtsIds p)) :
    s.Passes (s'.mapMachine (·.recordResolution p.resolve)) := by
  obtain ⟨hs, hf, hh, hd⟩ := s'.machine.recordResolution_spec p.resolve
  refine ⟨hs.trans h.store_eq, hf.trans h.scope_eq, hh.trans h.held_eq, h.nextId_le,
    fun id hid => ?_⟩
  refine Eq.trans ?_ (h.get?_eq id hid)
  rw [mapMachine, hd]
  apply Distances.get?_recordAll_of_notMem
  intro hm
  obtain ⟨links, hl, hsub⟩ := (stmts_walked p .start).found
  obtain rfl : p.resolve.found.toList = links := hl
  obtain ⟨hlo, hhi⟩ := hids.within id (hsub.subset hm)
  rcases hid with hid | hid
  · exact absurd hid (Nat.not_lt.mpr hlo)
  · exact absurd hhi (Nat.not_lt.mpr hid)

lemma runProgram_of_accepted (s : Session) (steps : Nat) {p : Program}
    (he : p.resolve.errors.isEmpty) :
    s.runProgram steps p = (s.mapMachine (·.recordResolution p.resolve)).conclude
      (Run.outcome ⟨steps, p, s.machine.recordResolution p.resolve⟩) := by
  simp only [runProgram, he, if_true, Run.outcome]
  rfl

/-- A step of a session either makes a run or passes without one. -/
theorem run_spec (s : Session) (steps : Nat) (dumpOnly : Bool) (source : String) :
    match s.launch? steps dumpOnly source with
    | none => s.Passes (s.run steps dumpOnly source).2
    | some run => s.Makes run (s.run steps dumpOnly source) := by
  unfold launch?
  cases hread : s.read? source with
  | none => exact passes_run_of_read?_none hread steps dumpOnly
  | some read =>
    obtain ⟨p, s'⟩ := read
    obtain ⟨hpass, hd, hw, hids⟩ := passes_read? hread
    rw [run_of_read?_some hread steps dumpOnly]
    cases dumpOnly with
    | true => exact hpass.trans (s'.passes_dump _)
    | false =>
      by_cases he : p.resolve.errors.isEmpty
      · simp only [he, if_true, Bool.false_eq_true, if_false]
        refine ⟨⟨_, hpass.record hids, rfl, hids, ?_, s'.runProgram_of_accepted steps he⟩, hw, ?_⟩
        · rw [(s'.machine.recordResolution_spec p.resolve).2.2.2, hd]
        · exact Array.isEmpty_iff.mp he
      · simp only [he, Bool.false_eq_true, if_false]
        have hrun : s'.runProgram steps p =
            (.ok, (s'.mapMachine (·.recordResolution p.resolve)).rejectWith
              (p.resolve.errors.toList.map StaticError.report)) := by
          simp only [runProgram, he, Bool.false_eq_true, if_false]
        rw [hrun]
        exact (hpass.record hids).trans (passes_rejectWith _ _)

/-- Log messages in front of a run do not matter. -/
lemma Makes.of_log {s : Session} {level : LogLevel} {message : String} {run : Run}
    {result : StepResult × Session} (h : (s.log level message).Makes run result) :
    s.Makes run result := by
  obtain ⟨s', hpass, hm, hids, hd, hr⟩ := h.prepared
  exact ⟨⟨s', (s.passes_log level message).trans hpass, hm, hids, hd, hr⟩, h.wellFormed,
    h.errors_eq⟩

end Session

/-! ### Requests -/

/-- A script that a session is asked to run or to print. -/
inductive Request where
  | source (steps : Nat) (dumpOnly : Bool) (text : String)
  | file (steps : Nat) (dumpOnly : Bool) (path : String) (content : Except ReadFailure ByteArray)

namespace Request

/-- The step of a session that does what is asked for. -/
def perform (s : Session) : Request → StepResult × Session
  | .source steps dumpOnly text => s.run steps dumpOnly text
  | .file steps dumpOnly path content => s.runFile steps dumpOnly path content

/-- The run that a request comes to, if it does. -/
def run? (s : Session) : Request → Option Run
  | .source steps dumpOnly text => s.launch? steps dumpOnly text
  | .file steps dumpOnly path content =>
    match Session.scriptOf content with
    | .ok text => (s.log .info ("running " ++ path)).launch? steps dumpOnly text
    | .error _ => none

theorem perform_spec (s : Session) (q : Request) :
    match q.run? s with
    | none => s.Passes (q.perform s).2
    | some run => s.Makes run (q.perform s) := by
  cases q with
  | source steps dumpOnly text => exact s.run_spec steps dumpOnly text
  | file steps dumpOnly path content =>
    have hlog := s.passes_log .info ("running " ++ path)
    simp only [run?, perform, Session.runFile]
    cases Session.scriptOf content with
    | error failure => exact hlog
    | ok text =>
      have hrun := (s.log .info ("running " ++ path)).run_spec steps dumpOnly text
      dsimp only
      cases hl : (s.log .info ("running " ++ path)).launch? steps dumpOnly text with
      | none =>
        rw [hl] at hrun
        exact hlog.trans hrun
      | some run =>
        rw [hl] at hrun
        exact hrun.of_log

end Request

namespace Session

/-- The session when the requests were performed. -/
def after (s : Session) (requests : List Request) : Session :=
  requests.foldl (fun s q => (q.perform s).2) s

lemma after_append (s : Session) (requests requests' : List Request) :
    s.after (requests ++ requests') = (s.after requests).after requests' :=
  List.foldl_append

/-- The runs that requests come to, one after the other. -/
def runs (s : Session) : List Request → List Run
  | [] => []
  | q :: rest => (q.run? s).toList ++ (q.perform s).2.runs rest

end Session

/-! ### What a run finds -/

namespace Eval

/-- One of the runs has abandoned the declaration of a variable. -/
def Abandoned (runs : List Run) (f : FrameId) (name : String) : Prop :=
  ∃ run ∈ runs, run.Abandons f name

/-- Only identifiers are declared. -/
lemma Abandoned.ofWord_eq {runs : List Run} {f : FrameId} {name : String}
    (h : Abandoned runs f name) : TokenKind.ofWord name = .identifier := by
  obtain ⟨run, -, trail, c, stop, after, -, ⟨token, value, -, hn, rfl, -⟩, -⟩ := h
  exact hn.ofWord_eq

/-- A run finds what earlier ones have left. -/
structure Run.Follows (run : Run) (earlier : List Run) : Prop where
  accepted : ∀ r ∈ earlier ++ [run], r.program.Accepted run.machine.distances
  sited : run.machine.store.Sited ((earlier ++ [run]).map Run.program) (Abandoned earlier)
  scope_eq : run.machine.scope = Machine.globals

namespace Run.Follows

variable {run : Run} {earlier : List Run}

/-- What a run builds on when it follows others. -/
def background (h : run.Follows earlier) : Background where
  programs := (earlier ++ [run]).map Run.program
  table := run.machine.distances
  begun := Abandoned earlier
  accepted := by
    intro p hp
    obtain ⟨r, hr, rfl⟩ := List.mem_map.mp hp
    exact h.accepted r hr
  ofWord_eq := fun _ _ => Abandoned.ofWord_eq

lemma grounded (h : run.Follows earlier) : run.Grounded h.background where
  mem := List.mem_map_of_mem (List.mem_append_right earlier List.mem_cons_self)
  carries := ⟨rfl, h.sited.imp fun _ _ hp => .inr (.inl hp)⟩
  scope_eq := h.scope_eq

/-- A run that ends in a fault does so because of a call that may fail so. -/
lemma mayFail (h : run.Follows earlier) {fault : Fault} (hf : run.fault? = some fault) :
    ∃ trail c after, run.Visits trail c ∧ c.outcome = .error (.fault fault) after ∧
      c.MayFail fault.cause := by
  obtain ⟨after, ho⟩ := fault?_eq_some_iff.mp hf
  obtain ⟨trail, c, after', hv, hc, -, hstop⟩ := h.grounded.stopped_of_error ho
  exact ⟨trail, c, after', hv, hc, hstop.2 fault rfl⟩

end Run.Follows

end Eval

namespace Session

/-- What a session is like that has made the given runs. -/
structure Settled (s : Session) (runs : List Run) : Prop where
  scope_eq : s.machine.scope = Machine.globals
  sited : s.machine.store.Sited (runs.map Run.program) (Abandoned runs)
  accepted : ∀ run ∈ runs, run.program.Accepted s.machine.distances
  old : ∀ run ∈ runs, ∀ id ∈ stmtsIds run.program, id < s.nextId
  new : ∀ id, s.nextId ≤ id → s.machine.distances.get? id = none

lemma exists_builtin_of_getElem? {i : CallableId} {k : Callable}
    (h : Machine.builtins.callables[i]? = some k) : ∃ b, k = .builtin b := by
  have hk : k ∈ [Callable.builtin .clock, .builtin .input, .builtin .reverse] :=
    Array.mem_toList_iff.mpr (Array.mem_of_getElem? h)
  simp only [List.mem_cons, List.not_mem_nil, or_false] at hk
  rcases hk with rfl | rfl | rfl
  · exact ⟨_, rfl⟩
  · exact ⟨_, rfl⟩
  · exact ⟨_, rfl⟩

lemma exists_host_of_getElem? {c : ClassId} {cls : Class}
    (h : Machine.builtins.classes[c]? = some cls) : ∃ host, cls = Machine.classOfHost host := by
  have hc : cls ∈ [Machine.classOfHost .socket, Machine.classOfHost .serverSocket] :=
    Array.mem_toList_iff.mpr (Array.mem_of_getElem? h)
  simp only [List.mem_cons, List.not_mem_nil, or_false] at hc
  rcases hc with rfl | rfl
  · exact ⟨_, rfl⟩
  · exact ⟨_, rfl⟩

/-- In the beginning there are only the built-in functions and classes. -/
lemma settled_start (sink : Sink) (input : List UInt8) (network : Network) (time : Nat) :
    (start (.start sink input network time)).Settled [] where
  scope_eq := rfl
  sited := by
    refine ⟨⟨_, rfl, rfl, rfl⟩, ?_, ?_, ?_⟩
    · intro i k hk
      obtain ⟨b, rfl⟩ := exists_builtin_of_getElem? hk
      exact trivial
    · intro c cls hc
      obtain ⟨host, rfl⟩ := exists_host_of_getElem? hc
      exact ⟨fun _ _ hf => (by cases hf), fun _ _ hg => (by cases hg)⟩
    · intro f slot hs
      obtain ⟨frame, hf, hv⟩ := Option.bind_eq_some_iff.mp hs
      have hf : frame ∈ Machine.builtins.frames.toList :=
        Array.mem_toList_iff.mpr (Array.mem_of_getElem? hf)
      obtain rfl := List.mem_singleton.mp hf
      simp [Record.get?, List.lookup_cons] at hv
  accepted := by simp
  old := by simp
  new := fun id _ => rfl

/-- A session takes over what a run leaves, apart from a report. -/
lemma conclude_spec (s : Session) (run : Run) :
    let after := Exec.after (Eval.runProgram run.steps run.program) run.machine
    (s.conclude run.outcome).2.machine.store = after.store ∧
      (s.conclude run.outcome).2.machine.scope = after.scope ∧
      (s.conclude run.outcome).2.machine.held = after.held ∧
      (s.conclude run.outcome).2.machine.distances = after.distances ∧
      (s.conclude run.outcome).2.nextId = s.nextId := by
  simp only [Exec.after, ← Run.outcome.eq_1]
  rcases run.outcome with ⟨_, m⟩ | ⟨_ | _, m⟩
  · exact ⟨rfl, rfl, rfl, rfl, rfl⟩
  · exact ⟨rfl, rfl, rfl, rfl, rfl⟩
  · exact ⟨rfl, rfl, rfl, rfl, rfl⟩

namespace Settled

variable {s s' : Session} {earlier : List Run} {run : Run} {result : StepResult × Session}

lemma passes (h : s.Settled earlier) (hp : s.Passes s') : s'.Settled earlier where
  scope_eq := hp.scope_eq.trans h.scope_eq
  sited := by
    rw [hp.store_eq]
    exact h.sited
  accepted := fun r hr => (h.accepted r hr).congr fun id hid =>
    hp.get?_eq id (.inl (h.old r hr id hid))
  old := fun r hr id hid => Nat.lt_of_lt_of_le (h.old r hr id hid) hp.nextId_le
  new := fun id hid => (hp.get?_eq id (.inr hid)).trans (h.new id (Nat.le_trans hp.nextId_le hid))

/-- The run that a settled session makes follows the earlier ones. -/
lemma follows (h : s.Settled earlier) (hm : s.Makes run result) : run.Follows earlier := by
  obtain ⟨s', hp, hmachine, hids, hd, -⟩ := hm.prepared
  have hs' := h.passes hp
  constructor
  · intro r hr
    rcases List.mem_append.mp hr with hr | hr
    · rw [← hmachine]
      exact hs'.accepted r hr
    · obtain rfl := List.mem_singleton.mp hr
      rw [hd]
      exact Program.accepted_recordAll hm.wellFormed hids.nodup hm.errors_eq fun id hid =>
        h.new id (hids.within id hid).1
  · rw [← hmachine]
    refine hs'.sited.subset ?_
    rw [List.map_append]
    exact List.subset_append_left _ _
  · rw [← hmachine]
    exact hs'.scope_eq

/-- The session is settled again when it has made its run. -/
lemma makes (h : s.Settled earlier) (hm : s.Makes run result) :
    result.2.Settled (earlier ++ [run]) := by
  have hf := h.follows hm
  obtain ⟨s', hp, hmachine, hids, hd, rfl⟩ := hm.prepared
  have hs' := h.passes hp
  have ha := runProgram_advances run.steps run.program run.machine
  obtain ⟨hstore, hscope, -, hdist, hnext⟩ := s'.conclude_spec run
  rw [ha.scope_eq] at hscope
  rw [ha.distances_eq] at hdist
  constructor
  · rw [hscope]
    exact hf.scope_eq
  · rw [hstore]
    refine hf.grounded.sited_after (Abandoned (earlier ++ [run])) ?_ ?_
    · rintro f name ⟨r, hr, hn⟩
      exact ⟨r, List.mem_append_left _ hr, hn⟩
    · exact fun f name hn => ⟨run, List.mem_append_right _ List.mem_cons_self, hn⟩
  · rw [hdist]
    exact hf.accepted
  · intro r hr id hid
    rw [hnext]
    rcases List.mem_append.mp hr with hr | hr
    · exact hs'.old r hr id hid
    · obtain rfl := List.mem_singleton.mp hr
      exact (hids.within id hid).2
  · intro id hid
    rw [hnext] at hid
    rw [hdist, ← hmachine]
    exact hs'.new id hid

lemma perform (h : s.Settled earlier) (q : Request) :
    (q.perform s).2.Settled (earlier ++ (q.run? s).toList) := by
  have hq := q.perform_spec s
  cases hr : q.run? s with
  | none =>
    rw [hr] at hq
    simpa using h.passes hq
  | some run =>
    rw [hr] at hq
    exact h.makes hq

/-- Requests keep a session settled. -/
theorem after (h : s.Settled earlier) (requests : List Request) :
    (s.after requests).Settled (earlier ++ s.runs requests) := by
  induction requests generalizing s earlier with
  | nil =>
    rw [runs, List.append_nil]
    exact h
  | cons q rest ih =>
    rw [runs, ← List.append_assoc]
    exact ih (h.perform q)

/-- Each of the runs of a session follows those before it. -/
theorem follows_of_runs (h : s.Settled earlier) {requests : List Request} {before later : List Run}
    (hr : s.runs requests = before ++ run :: later) : run.Follows (earlier ++ before) := by
  induction requests generalizing s earlier before with
  | nil => simp [runs] at hr
  | cons q rest ih =>
    have hq := q.perform_spec s
    have hs := h.perform q
    rw [runs] at hr
    cases hrun : q.run? s with
    | none =>
      rw [hrun] at hr hs
      simpa using ih hs hr
    | some first =>
      rw [hrun] at hr hs hq
      cases before with
      | nil =>
        obtain ⟨rfl, -⟩ := List.cons.inj hr
        simpa using h.follows hq
      | cons first' before =>
        obtain ⟨rfl, hrest⟩ := List.cons.inj hr
        simpa using ih hs hrest

end Settled

end Session

end Scripting
