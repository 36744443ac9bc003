import Mathlib.Data.List.Flatten
import Mathlib.Data.List.Nodup
import Mathlib.Data.List.Pairwise
import Scripting.Proofs.Resolution.Marks
import Scripting.Proofs.Session.Relabeling

/-!
# Nodes and their distances

Whatever texts are read one after the other, no two nodes of the programs have the same identity.
Resolving a program comes by each of its nodes once, and only by these. So a session, which keeps
the distances of all its programs in one table, never writes over one of them, and a node that is
evaluated has the distance that was found for it, or none, however long ago that was.
-/

namespace Scripting

open Resolution Eval

/-! ### Reading one text after the other -/

namespace Program

/-- Read texts one after the other, from the first identity that no node has yet. A text in which
something is wrong makes no program, but it may use up identities. -/
def parseAll (nextId : NodeId) : List (List Token) → List Program × NodeId
  | [] => ([], nextId)
  | tokens :: rest =>
    let (result, mid) := Program.parse nextId tokens
    let (programs, next) := parseAll mid rest
    (result.toOption.toList ++ programs, next)

/-- The identities in programs that are read one after the other are all different and new. -/
theorem parseAll_ids (nextId : NodeId) (texts : List (List Token)) :
    IdsWithin nextId (parseAll nextId texts).2 ((parseAll nextId texts).1.flatMap stmtsIds) ∧
      nextId ≤ (parseAll nextId texts).2 := by
  induction texts generalizing nextId with
  | nil => exact ⟨.nil _ _, Nat.le_refl _⟩
  | cons tokens rest ih =>
    have hle := Program.le_parse_snd nextId tokens
    rcases hparse : Program.parse nextId tokens with ⟨errors | p, mid⟩
    · rw [hparse] at hle
      obtain ⟨hids, hle'⟩ := ih mid
      simp only [parseAll, hparse]
      exact ⟨hids.widen hle (Nat.le_refl _), Nat.le_trans hle hle'⟩
    · rw [hparse] at hle
      obtain ⟨hids, hle'⟩ := ih mid
      simp only [parseAll, hparse]
      refine ⟨?_, Nat.le_trans hle hle'⟩
      simpa [Except.toOption] using (Program.parse_ids hparse).append hids hle hle'

end Program

/-- Where a table agrees with the walk through a program, the nodes have the distances that were
found for them. -/
lemma Program.Accepted.get?_eq {p : Program} {table : Distances} (h : p.Accepted table)
    {id : NodeId} (hid : id ∈ stmtsIds p) : table.get? id = p.distance? id := by
  obtain ⟨links, hl, hi⟩ := h.agrees.links
  obtain rfl : p.resolve.found.toList = links := hl
  cases hd : p.distance? id with
  | some distance =>
    obtain ⟨before, later, he, -⟩ := List.lookup_eq_some_iff.mp hd
    rw [hi id hid, he]
    exact List.mem_append_right _ List.mem_cons_self
  | none =>
    refine Option.eq_none_iff_forall_ne_some.mpr fun distance ht => ?_
    have hm := (hi id hid distance).mp ht
    exact absurd (List.lookup_eq_none_iff.mp hd _ hm) (by simp)

/-- The node and the word of a reference that a call evaluates. -/
def Eval.Call.reference? (c : Call) : Option (NodeId × Token) :=
  match c.task with
  | .expr e => e.reference?
  | _ => none

lemma Eval.Call.exists_expr_of_reference? {c : Call} {node : NodeId × Token}
    (h : c.reference? = some node) : ∃ e, c.task = .expr e ∧ e.reference? = some node := by
  obtain ⟨steps, t, m⟩ := c
  cases t with
  | expr e => exact ⟨e, rfl, h⟩
  | _ => cases h

/-! ### What a session reads -/

namespace Request

/-- The script that is asked for is only printed. -/
def dumpOnly : Request → Bool
  | .source _ dumpOnly _ => dumpOnly
  | .file _ dumpOnly _ _ => dumpOnly

/-- The words of the script that is asked for, unless it is not there or cannot be scanned. -/
def tokens? : Request → Option (List Token)
  | .source _ _ text => (scan text).toOption
  | .file _ _ _ content => (Session.scriptOf content).toOption.bind fun text => (scan text).toOption

/-- The program that is asked for, unless something is wrong with its text. -/
def program? (s : Session) (q : Request) : Option Program :=
  q.tokens?.bind fun tokens => (Program.parse s.nextId tokens).1.toOption

/-- The program that is resolved when it is asked for, with mistakes or without. -/
def resolved? (s : Session) (q : Request) : Option Program :=
  if q.dumpOnly then none else q.program? s

end Request

namespace Session

/-- The programs that requests make a session read, one after the other. -/
def programs (s : Session) : List Request → List Program
  | [] => []
  | q :: rest => (q.program? s).toList ++ (q.perform s).2.programs rest

/-- The programs that requests make a session resolve, one after the other. -/
def resolved (s : Session) : List Request → List Program
  | [] => []
  | q :: rest => (q.resolved? s).toList ++ (q.perform s).2.resolved rest

/-- The nodes and the distances that requests make a session keep, one after the other. -/
def links (s : Session) (requests : List Request) : List (NodeId × Nat) :=
  (s.resolved requests).flatMap fun p => p.resolve.found.toList

lemma resolved_sublist_programs (s : Session) (requests : List Request) :
    (s.resolved requests).Sublist (s.programs requests) := by
  induction requests generalizing s with
  | nil => exact .slnil
  | cons q rest ih =>
    refine List.Sublist.append ?_ (ih _)
    unfold Request.resolved?
    split
    · exact List.nil_sublist _
    · exact List.Sublist.refl _

lemma resolved_append (s : Session) (requests later : List Request) :
    s.resolved (requests ++ later) =
      s.resolved requests ++ (s.after requests).resolved later := by
  induction requests generalizing s with
  | nil => rfl
  | cons q rest ih => exact (congrArg _ (ih _)).trans (List.append_assoc _ _ _).symm

/-- A step of a session reads a text, if there is one, and keeps the distances of a program, if it
resolves one. -/
structure Takes (s : Session) (tokens? : Option (List Token)) (resolved? : Option Program)
    (s' : Session) : Prop where
  nextId_eq : s'.nextId = (Program.parseAll s.nextId tokens?.toList).2
  distances_eq : s'.machine.distances =
    s.machine.distances.recordAll (resolved?.toList.flatMap fun p => p.resolve.found.toList)

lemma dump_spec (s : Session) (lines : List String) :
    (s.dump lines).2.nextId = s.nextId ∧
      (s.dump lines).2.machine.distances = s.machine.distances := by
  induction lines generalizing s with
  | nil => exact ⟨rfl, rfl⟩
  | cons line rest ih =>
    simp only [dump]
    split
    · exact ih _
    · exact ⟨rfl, rfl⟩

/-- Whether a program is run or rejected, its distances are kept before. -/
lemma runProgram_spec (s : Session) (steps : Nat) (p : Program) :
    (s.runProgram steps p).2.nextId = s.nextId ∧
      (s.runProgram steps p).2.machine.distances =
        s.machine.distances.recordAll p.resolve.found.toList := by
  have hrecord := (s.machine.recordResolution_spec p.resolve).2.2.2
  by_cases he : p.resolve.errors.isEmpty
  · rw [s.runProgram_of_accepted steps he]
    obtain ⟨-, -, -, hd, hn⟩ := (s.mapMachine (·.recordResolution p.resolve)).conclude_spec
      ⟨steps, p, s.machine.recordResolution p.resolve⟩
    have ha := runProgram_advances steps p (s.machine.recordResolution p.resolve)
    exact ⟨hn, hd.trans (ha.distances_eq.trans hrecord)⟩
  · simp only [runProgram, he, Bool.false_eq_true, if_false]
    exact ⟨rfl, (rejectWith_spec _ _).2.2.2.trans hrecord⟩

lemma run_takes (s : Session) (steps : Nat) (dumpOnly : Bool) (source : String) :
    s.Takes (scan source).toOption
      ((Request.source steps dumpOnly source).resolved? s) (s.run steps dumpOnly source).2 := by
  cases hscan : scan source with
  | error errors =>
    have hnone : (Request.source steps dumpOnly source).resolved? s = none := by
      simp [Request.resolved?, Request.program?, Request.tokens?, hscan, Except.toOption]
    rw [hnone]
    simp only [run, hscan]
    exact ⟨rfl, (rejectWith_spec _ _).2.2.2⟩
  | ok tokens =>
    rcases hparse : Program.parse s.nextId tokens with ⟨errors | p, nextId⟩
    · have hnone : (Request.source steps dumpOnly source).resolved? s = none := by
        simp [Request.resolved?, Request.program?, Request.tokens?, hscan, hparse, Except.toOption]
      rw [hnone]
      simp only [run, hscan, log_nextId, hparse]
      exact ⟨by simp [Program.parseAll, Except.toOption, hparse], (rejectWith_spec _ _).2.2.2⟩
    · have hnext : nextId = (Program.parseAll s.nextId [tokens]).2 := by
        simp [Program.parseAll, hparse]
      simp only [run, hscan, log_nextId, hparse]
      cases dumpOnly with
      | true =>
        obtain ⟨hn, hd⟩ := dump_spec _ (renderStmts p)
        exact ⟨hn.trans hnext, hd⟩
      | false =>
        have hsome : (Request.source steps false source).resolved? s = some p := by
          simp [Request.resolved?, Request.program?, Request.tokens?, Request.dumpOnly, hscan,
            hparse, Except.toOption]
        obtain ⟨hn, hd⟩ := runProgram_spec _ steps p
        rw [hsome]
        refine ⟨hn.trans hnext, hd.trans ?_⟩
        rw [Option.toList_some, List.flatMap_singleton]
        rfl

end Session

open Session in
/-- Performing a request takes what is asked for. -/
lemma Request.perform_takes (s : Session) (q : Request) :
    s.Takes q.tokens? (q.resolved? s) (q.perform s).2 := by
  cases q with
  | source steps dumpOnly text => exact s.run_takes steps dumpOnly text
  | file steps dumpOnly path content =>
    simp only [perform, runFile, tokens?, resolved?, program?]
    cases scriptOf content with
    | error failure =>
      refine ⟨rfl, ?_⟩
      simp only [Except.toOption, Option.bind_none, ite_self]
      rfl
    | ok text =>
      have hrun := (s.log .info ("running " ++ path)).run_takes steps dumpOnly text
      exact ⟨hrun.nextId_eq, hrun.distances_eq⟩

namespace Session

/-- The programs of a session are read one after the other, and its table is what they keep. -/
theorem after_takes (s : Session) (requests : List Request) :
    let read := Program.parseAll s.nextId (requests.filterMap Request.tokens?)
    s.programs requests = read.1 ∧ (s.after requests).nextId = read.2 ∧
      (s.after requests).machine.distances = s.machine.distances.recordAll (s.links requests) := by
  induction requests generalizing s with
  | nil => exact ⟨rfl, rfl, rfl⟩
  | cons q rest ih =>
    have htakes := q.perform_takes s
    obtain ⟨hprograms, hnext, hdistances⟩ := ih (q.perform s).2
    rw [htakes.distances_eq] at hdistances
    have hlinks : (s.after (q :: rest)).machine.distances =
        s.machine.distances.recordAll (s.links (q :: rest)) := by
      refine hdistances.trans ?_
      simp only [links, resolved, List.flatMap_append]
      exact List.foldl_append.symm
    cases ht : q.tokens? with
    | none =>
      have hn : (q.perform s).2.nextId = s.nextId := by
        simpa [ht, Program.parseAll] using htakes.nextId_eq
      rw [hn] at hprograms hnext
      simp only [List.filterMap_cons, ht]
      refine ⟨?_, hnext, hlinks⟩
      simp [programs, Request.program?, ht, hprograms]
    | some tokens =>
      have hn : (q.perform s).2.nextId = (Program.parse s.nextId tokens).2 := by
        simpa [ht, Program.parseAll] using htakes.nextId_eq
      rw [hn] at hprograms hnext
      simp only [List.filterMap_cons, ht, Program.parseAll]
      refine ⟨?_, hnext, hlinks⟩
      simp [programs, Request.program?, ht, hprograms]

/-- The identities in the programs of a session are all different. -/
lemma nodup_programs (s : Session) (requests : List Request) :
    ((s.programs requests).flatMap stmtsIds).Nodup := by
  rw [(s.after_takes requests).1]
  exact (Program.parseAll_ids _ _).1.nodup

/-- A node is one of a single program. -/
lemma eq_of_mem_ids {s : Session} {requests : List Request} {p p' : Program}
    (hp : p ∈ s.programs requests) (hp' : p' ∈ s.programs requests) {id : NodeId}
    (hid : id ∈ stmtsIds p) (hid' : id ∈ stmtsIds p') : p' = p := by
  by_contra hne
  have hsymm : Std.Symm (Function.onFun List.Disjoint stmtsIds) := ⟨fun _ _ h _ hb ha => h ha hb⟩
  have hdisjoint := (List.nodup_flatMap.mp (s.nodup_programs requests)).2
  exact hdisjoint.forall hp' hp hne hid' hid

/-- What resolving programs finds is about their nodes, and about each of them once. -/
lemma links_sublist (ps : List Program) :
    ((ps.flatMap fun p => p.resolve.found.toList).map Prod.fst).Sublist (ps.flatMap stmtsIds) := by
  rw [List.map_flatMap]
  refine .flatMap_right ps fun p _ => ?_
  obtain ⟨links, hl, hs⟩ := (stmts_walked p .start).found
  obtain rfl : p.resolve.found.toList = links := hl
  exact hs

/-- The node of a program that keeps its distances among others has the distance that was found for
it. -/
lemma get?_recordAll_of_mem {table : Distances} {ps : List Program}
    (hn : (ps.flatMap stmtsIds).Nodup) {p : Program} (hp : p ∈ ps) {id : NodeId}
    (hid : id ∈ stmtsIds p) (ht : table.get? id = none) :
    (table.recordAll (ps.flatMap fun p => p.resolve.found.toList)).get? id = p.distance? id := by
  obtain ⟨before, later, rfl⟩ := List.append_of_mem hp
  rw [List.flatMap_append, List.flatMap_cons, List.nodup_append, List.nodup_append] at hn
  obtain ⟨-, ⟨hnp, -, hlater⟩, hbefore⟩ := hn
  have hbefore : id ∉ (before.flatMap fun p => p.resolve.found.toList).map Prod.fst := fun hm =>
    hbefore id ((links_sublist before).subset hm) id (List.mem_append_left _ hid) rfl
  have hlater : id ∉ (later.flatMap fun p => p.resolve.found.toList).map Prod.fst := fun hm =>
    hlater id hid id ((links_sublist later).subset hm) rfl
  rw [List.flatMap_append, List.flatMap_cons, Distances.recordAll_append,
    Distances.recordAll_append, Distances.get?_recordAll_of_notMem hlater]
  refine Program.get?_recordAll hnp ?_
  rw [Distances.get?_recordAll_of_notMem hbefore, ht]

lemma resolved?_of_launch? {s : Session} {steps : Nat} {dumpOnly : Bool} {text : String} {run : Run}
    (h : s.launch? steps dumpOnly text = some run) :
    (Request.source steps dumpOnly text).resolved? s = some run.program := by
  cases hr : s.read? text with
  | none => simp [launch?, hr] at h
  | some read =>
    obtain ⟨p, s'⟩ := read
    obtain ⟨tokens, nextId, hscan, hparse, -⟩ := read?_eq_some hr
    cases dumpOnly with
    | true => simp [launch?, hr] at h
    | false =>
      simp only [launch?, hr, Bool.false_eq_true, if_false] at h
      split at h
      · obtain rfl := Option.some.inj h
        simp [Request.resolved?, Request.program?, Request.tokens?, Request.dumpOnly, hscan,
          hparse, Except.toOption]
      · cases h

/-- A program that comes to a run is resolved before. -/
lemma resolved?_of_run? {s : Session} {q : Request} {run : Run} (h : q.run? s = some run) :
    q.resolved? s = some run.program := by
  cases q with
  | source steps dumpOnly text => exact resolved?_of_launch? h
  | file steps dumpOnly path content =>
    simp only [Request.run?] at h
    simp only [Request.resolved?, Request.program?, Request.tokens?]
    cases hcontent : scriptOf content with
    | error failure =>
      rw [hcontent] at h
      cases h
    | ok text =>
      rw [hcontent] at h
      exact resolved?_of_launch? (s := s.log .info ("running " ++ path)) h

lemma program_mem_resolved {s : Session} {requests : List Request} {run : Run}
    (h : run ∈ s.runs requests) : run.program ∈ s.resolved requests := by
  induction requests generalizing s with
  | nil => cases h
  | cons q rest ih =>
    rcases List.mem_append.mp h with h | h
    · apply List.mem_append_left
      rw [Option.mem_toList] at h ⊢
      exact resolved?_of_run? h
    · exact List.mem_append_right _ (ih h)

/-- The node of a reference that is evaluated is one of a program that was resolved. -/
lemma exists_resolved_of_visited {sink : Sink} {input : List UInt8} {network : Network}
    {time : Nat} {requests : List Request} {c : Call} {id : NodeId} {token : Token}
    (hc : VisitedIn ((start (.start sink input network time)).runs requests) c)
    (hr : c.reference? = some (id, token)) :
    ∃ p ∈ (start (.start sink input network time)).resolved requests, id ∈ stmtsIds p ∧
      p.Accepted c.machine.distances := by
  obtain ⟨run, hrun, trail, hv⟩ := hc
  obtain ⟨e, ht, he⟩ := Call.exists_expr_of_reference? hr
  obtain ⟨earlier, later, hruns⟩ := List.append_of_mem hrun
  have hfollows := (settled_start sink input network time).follows_of_runs hruns
  obtain ⟨hcarries, hready⟩ := hfollows.grounded.ready hv
  rw [ht] at hready
  obtain ⟨p, hp, ks, r, -, hl, -⟩ := hready
  obtain ⟨run', hrun', rfl⟩ := List.mem_map.mp hp
  refine ⟨run'.program, ?_, ?_, ?_⟩
  · apply program_mem_resolved
    rw [hruns]
    rcases List.mem_append.mp hrun' with hrun' | hrun'
    · exact List.mem_append_left _ hrun'
    · exact List.mem_append_right _ (List.mem_singleton.mp hrun' ▸ List.mem_cons_self)
  · exact hl.ids_subset (Expr.mem_ids_of_reference? he)
  · rw [hcarries.distances_eq]
    exact hfollows.background.accepted _ hp

/-- **Nodes keep their distances.** Whatever texts are read one after the other, the nodes of all
the programs have different identities; and the programs of a session are read so. The walk that
resolves a program leaves one mark for every node in it, and no other: a distance for those that
refer to a name, if all these names are in scope, and a mistake for those that are misplaced. The
table of a session has the distances of all programs that were resolved, each of which was recorded
where there was none before. Hence a node has for good the distance that was found for it, or none;
and every reference that is evaluated has a node of exactly one program, with the distance that was
found when that was resolved. -/
theorem nodes_keep_distances (sink : Sink) (input : List UInt8) (network : Network) (time : Nat)
    (requests : List Request) :
    let s := start (.start sink input network time)
    (∀ nextId texts, ((Program.parseAll nextId texts).1.flatMap stmtsIds).Nodup) ∧
    s.programs requests =
      (Program.parseAll s.nextId (requests.filterMap Request.tokens?)).1 ∧
    (∀ (p : Program) (r : Resolution),
      let t := stmtsEvents r.classContext p
      let r' := resolveStmts p r
      (Traversal.ids t = stmtsIds p ∧ (Traversal.placed t).Sublist (stmtsIds p) ∧
        (Traversal.placed t).length + Traversal.misplaced t = (stmtsIds p).length) ∧
      (r.InSight t → r'.found.toList.map Prod.fst =
        r.found.toList.map Prod.fst ++ Traversal.placed t) ∧
      r'.misplaced = r.misplaced + Traversal.misplaced t) ∧
    (s.after requests).machine.distances = Distances.empty.recordAll (s.links requests) ∧
    (∀ before id distance later, s.links requests = before ++ (id, distance) :: later →
      (Distances.empty.recordAll before).get? id = none) ∧
    (∀ later, ∀ p ∈ s.resolved requests, ∀ id ∈ stmtsIds p,
      (s.after (requests ++ later)).machine.distances.get? id = p.distance? id) ∧
    ∀ c id token, VisitedIn (s.runs requests) c → c.reference? = some (id, token) →
      ∃ p ∈ s.resolved requests, id ∈ stmtsIds p ∧
        (∀ p' ∈ s.programs requests, id ∈ stmtsIds p' → p' = p) ∧
        c.machine.distances.get? id = p.distance? id := by
  intro s
  have nodup_resolved (requests : List Request) :
      ((s.resolved requests).flatMap stmtsIds).Nodup :=
    (s.nodup_programs requests).sublist ((s.resolved_sublist_programs requests).flatMap _)
  have hnew : ∀ id, Distances.empty.get? id = none := fun id => rfl
  refine ⟨fun nextId texts => (Program.parseAll_ids nextId texts).1.nodup,
    (s.after_takes requests).1, fun p r => ?_, (s.after_takes requests).2.2, ?_, ?_, ?_⟩
  · have hids := stmts_ids_events r.classContext p
    have hmarked := stmts_marked p (r := r) rfl
    refine ⟨⟨hids, ?_, ?_⟩, hmarked.found_eq, hmarked.misplaced_eq⟩
    · rw [← hids]
      exact Traversal.placed_sublist_ids _
    · rw [← hids]
      exact Traversal.length_placed_add_misplaced _
  · intro before id distance later hlinks
    have hkeys := (nodup_resolved requests).sublist (links_sublist (s.resolved requests))
    rw [← links, hlinks, List.map_append, List.nodup_append] at hkeys
    rw [Distances.get?_recordAll_of_notMem, hnew]
    exact fun hm => hkeys.2.2 id hm id List.mem_cons_self rfl
  · intro later p hp id hid
    rw [(s.after_takes _).2.2]
    refine get?_recordAll_of_mem (nodup_resolved _) ?_ hid (hnew id)
    rw [resolved_append]
    exact List.mem_append_left _ hp
  · intro c id token hc hr
    obtain ⟨p, hp, hid, hacc⟩ := exists_resolved_of_visited hc hr
    have hread := (s.resolved_sublist_programs requests).subset hp
    exact ⟨p, hp, hid, fun p' hp' hid' => eq_of_mem_ids hread hp' hid hid', hacc.get?_eq hid⟩

/-- A function that was made by the first script is called by the last one. In between, a script is
only printed, one cannot be read, and one is resolved but has a mistake in it. -/
theorem nodes_keep_distances_called_later :
    let s := start (.start (.ofLimit none) [] .isolated 0)
    let requests :=
      [Request.source 30 false ("fun make() \x7b var n = 0; " ++
        "fun next() \x7b n = n + 1; return n; \x7d return next; \x7d var f = make();"),
      .source 30 true "\x7b var a = 1; print a; \x7d",
      .source 30 false "\x7b var b; b = b + ; \x7d",
      .source 30 false "\x7b var c = 1; print c; print this; \x7d",
      .source 30 false "\x7b var d = 5; print d + f(); \x7d"]
    (s.after requests).machine.sink.textSince 0 =
      "\x7b(var a 1) (print a)\x7d\n6\n" ∧
    (s.programs requests).map stmtsIds = [[1, 2, 3, 4, 5], [6], [9, 10], [11, 12]] ∧
    (s.after requests).machine.distances =
      Distances.empty.recordAll [(1, 1), (2, 1), (3, 1), (4, 0), (9, 0), (11, 0)] ∧
    ∃ c token, VisitedIn ((s.runs requests).drop 1) c ∧ c.reference? = some (1, token) ∧
      c.machine.distances.get? 1 = some 1 := by
  intro s requests
  obtain ⟨hcalls, hdistance, hprinted, hids, hlinks⟩ :
      (((s.runs requests).drop 1).flatMap Run.calls).any
          (fun c => (c.reference?.map Prod.fst) == some 1) ∧
        (∀ p ∈ s.resolved requests, 1 ∈ stmtsIds p → p.distance? 1 = some 1) ∧
        (s.after requests).machine.sink.textSince 0 = "\x7b(var a 1) (print a)\x7d\n6\n" ∧
        (s.programs requests).map stmtsIds = [[1, 2, 3, 4, 5], [6], [9, 10], [11, 12]] ∧
        s.links requests = [(1, 1), (2, 1), (3, 1), (4, 0), (9, 0), (11, 0)] := by
    decide +kernel
  obtain ⟨c, ⟨run, hrun, hvisits⟩, htest⟩ := exists_visitedIn hcalls
  obtain ⟨⟨id, token⟩, hnode, hid⟩ := Option.map_eq_some_iff.mp (eq_of_beq htest)
  obtain rfl : id = 1 := hid
  obtain ⟨-, -, -, htable, -, -, hevaluated⟩ :=
    nodes_keep_distances (.ofLimit none) [] .isolated 0 requests
  obtain ⟨p, hp, hmem, -, hget⟩ :=
    hevaluated c 1 token ⟨run, List.mem_of_mem_drop hrun, hvisits⟩ hnode
  exact ⟨hprinted, hids, by rw [htable, hlinks], c, token, ⟨run, hrun, hvisits⟩, hnode,
    hget.trans (hdistance p hp hmem)⟩

end Session

end Scripting
