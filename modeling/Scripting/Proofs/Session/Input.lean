import Scripting.Proofs.Eval.Reading
import Scripting.Proofs.Session.Chains
import Scripting.Proofs.Session.Rejection

/-!
# The input of a session

Between its runs, a session only tells what it does, whatever it is asked for, and leaves the input
alone. So the reads of all its runs, one after the other, take one raw line each off the input that
the session was started with.
-/

namespace Scripting

open Eval

/-! ### Between runs -/

/-- Another machine only in its distances, in its output and in what was told. -/
def Machine.Tells (m m' : Machine) : Prop :=
  ∃ distances sink journal, m' = { m with distances, sink, journal }

namespace Machine.Tells

variable {m m' m'' : Machine}

lemma refl (m : Machine) : m.Tells m :=
  ⟨_, _, _, rfl⟩

lemma trans (h : m.Tells m') (h' : m'.Tells m'') : m.Tells m'' := by
  obtain ⟨_, _, _, rfl⟩ := h
  obtain ⟨_, _, _, rfl⟩ := h'
  exact ⟨_, _, _, rfl⟩

lemma input_eq (h : m.Tells m') : m'.input = m.input := by
  obtain ⟨_, _, _, rfl⟩ := h
  rfl

end Machine.Tells

namespace Session

lemma rejectWith_tells (s : Session) (lines : List String) :
    s.machine.Tells (s.rejectWith lines).machine := by
  obtain ⟨journal, hs⟩ := s.rejectWith_eq lines
  rw [hs]
  exact ⟨_, _, journal, rfl⟩

lemma dump_tells (s : Session) (lines : List String) :
    s.machine.Tells (s.dump lines).2.machine := by
  induction lines generalizing s with
  | nil => exact .refl _
  | cons line rest ih =>
    have hline : s.machine.Tells (s.mapMachine fun m =>
        { m with sink := (s.machine.sink.writeLine line).2 }).machine := ⟨_, _, _, rfl⟩
    simp only [dump]
    split
    · exact hline.trans (ih _)
    · exact hline

lemma conclude_tells (s : Session) (run : Run) :
    run.after.Tells (s.conclude run.outcome).2.machine := by
  obtain ⟨journal, hm⟩ := s.conclude_machine run
  rw [hm]
  exact ⟨_, _, journal, rfl⟩

/-- A script that makes no run only tells something; so does the session before a run and after
it. -/
lemma run_tells (s : Session) (steps : Nat) (dumpOnly : Bool) (source : String) :
    match s.launch? steps dumpOnly source with
    | none => s.machine.Tells (s.run steps dumpOnly source).2.machine
    | some run => s.machine.Tells run.machine ∧
        run.after.Tells (s.run steps dumpOnly source).2.machine := by
  unfold launch?
  cases hread : s.read? source with
  | none =>
    cases hscan : scan source with
    | error errors =>
      simp only [run, hscan]
      exact s.rejectWith_tells _
    | ok tokens =>
      rcases hparse : Program.parse s.nextId tokens with ⟨errors | program, nextId⟩
      · simp only [run, hscan, log_nextId, hparse]
        exact .trans ⟨_, _, _, rfl⟩ (rejectWith_tells _ _)
      · simp [read?, hscan, hparse] at hread
  | some read =>
    obtain ⟨p, s'⟩ := read
    have hs' : s.machine.Tells s'.machine := by
      obtain ⟨tokens, nextId, -, -, rfl⟩ := read?_eq_some hread
      exact ⟨_, _, _, rfl⟩
    have hrecord : s'.machine.Tells (s'.machine.recordResolution p.resolve) := by
      obtain ⟨journal, -, hm⟩ := s'.machine.recordResolution_eq p.resolve
      rw [hm]
      exact ⟨_, _, journal, rfl⟩
    rw [run_of_read?_some hread steps dumpOnly]
    cases dumpOnly with
    | true => exact hs'.trans (s'.dump_tells _)
    | false =>
      by_cases he : p.resolve.errors.isEmpty
      · simp only [he, if_true, Bool.false_eq_true, if_false]
        rw [s'.runProgram_of_accepted steps he]
        exact ⟨hs'.trans hrecord, conclude_tells _ _⟩
      · simp only [he, Bool.false_eq_true, if_false, runProgram]
        exact hs'.trans (hrecord.trans (rejectWith_tells _ _))

end Session

/-- A request that makes no run only tells something; so does the session before a run and after
it. -/
lemma Request.perform_tells (s : Session) (q : Request) :
    match q.run? s with
    | none => s.machine.Tells (q.perform s).2.machine
    | some run => s.machine.Tells run.machine ∧ run.after.Tells (q.perform s).2.machine := by
  cases q with
  | source steps dumpOnly text => exact s.run_tells steps dumpOnly text
  | file steps dumpOnly path content =>
    simp only [run?, perform, Session.runFile]
    cases Session.scriptOf content with
    | error failure => exact ⟨_, _, _, rfl⟩
    | ok text =>
      have hlog : s.machine.Tells (s.log .info ("running " ++ path)).machine := ⟨_, _, _, rfl⟩
      have hrun := (s.log .info ("running " ++ path)).run_tells steps dumpOnly text
      dsimp only
      cases hl : (s.log .info ("running " ++ path)).launch? steps dumpOnly text with
      | none =>
        rw [hl] at hrun
        exact hlog.trans hrun
      | some run =>
        rw [hl] at hrun
        exact ⟨hlog.trans hrun.1, hrun.2⟩

namespace Session

/-- The reads in the runs that requests come to, in their order. -/
def reads (s : Session) (requests : List Request) : List Call :=
  (s.runs requests).flatMap Run.reads

/-- The way through a session. -/
lemma readPath (s : Session) (requests : List Request) :
    ReadPath s.machine.input (s.reads requests) (s.after requests).machine.input := by
  induction requests generalizing s with
  | nil => exact .nil _
  | cons q rest ih =>
    have hq := q.perform_tells s
    have hrest := ih (q.perform s).2
    unfold reads at hrest ⊢
    rw [runs, List.flatMap_append]
    cases hrun : q.run? s with
    | none =>
      rw [hrun] at hq
      rw [← hq.input_eq]
      exact hrest
    | some run =>
      rw [hrun] at hq
      obtain ⟨hstart, hend⟩ := hq
      have hpath := run.readPath
      rw [hstart.input_eq, ← hend.input_eq] at hpath
      rw [Option.toList_some, List.flatMap_singleton]
      exact hpath.append hrest

/-- Whatever a session is asked for, the calls of `input` read its raw lines one after the other,
each of them once. The call of a number takes the line of this number and gives its text without
the end of the line; it gives `nil` if the line is no text or if there are no more lines. What is
left of the input is the lines for which there was no call. -/
theorem input_reads_each_line_once (sink : Sink) (bytes : List UInt8) (network : Network)
    (time : Nat) (requests : List Request) :
    let s := start (.start sink bytes network time)
    (∀ c, c ∈ s.reads requests ↔
      VisitedIn (s.runs requests) c ∧ c.steps ≠ 0 ∧ c.task.isRead) ∧
    (∀ (k : Nat) (c : Call), (s.reads requests)[k]? = some c → c.ReadsLine bytes k) ∧
    (s.after requests).machine.input =
      ((rawLines bytes).drop (s.reads requests).length).flatten := by
  intro s
  have hmem : ∀ c, c ∈ s.reads requests ↔
      VisitedIn (s.runs requests) c ∧ c.steps ≠ 0 ∧ c.task.isRead := by
    intro c
    simp only [reads, List.mem_flatMap, Run.mem_reads, VisitedIn]
    constructor
    · rintro ⟨run, hr, hv, hc⟩
      exact ⟨⟨run, hr, hv⟩, hc⟩
    · rintro ⟨⟨run, hr, hv⟩, hc⟩
      exact ⟨run, hr, hv, hc⟩
  have hstart : s.machine.input = ((rawLines bytes).drop 0).flatten := (flatten_rawLines bytes).symm
  obtain ⟨hrest, hlines⟩ := (s.readPath requests).readsLine hstart fun c hc => ((hmem c).mp hc).2
  simp only [Nat.zero_add] at hrest hlines
  exact ⟨hmem, hlines, hrest⟩

/-- Four calls in three scripts, of which the second one is not run, and three lines: one with two
bytes at its end, one that is no text, and one without an end. -/
theorem input_reads_each_line_once_of_steps :
    let bytes : List UInt8 := [97, 13, 10, 255, 10, 98, 13]
    let s := start (.start (.ofLimit none) bytes .isolated 0)
    let requests := [Request.source 20 false "var a = input();", .source 20 false "break;",
      .source 20 false "input(); print a + input(); input();"]
    rawLines bytes = [[97, 13, 10], [255, 10], [98, 13]] ∧ (s.reads requests).length = 4 ∧
    (s.after requests).machine.sink.textSince 0 = "ab\r\n" ∧
    ∃ c, (s.reads requests)[2]? = some c ∧ c.ReadsLine bytes 2 := by
  intro bytes s requests
  obtain ⟨hlength, hprinted⟩ : (s.reads requests).length = 4 ∧
      (s.after requests).machine.sink.textSince 0 = "ab\r\n" := by
    decide +kernel
  have hc := List.getElem?_eq_getElem (show 2 < (s.reads requests).length by rw [hlength]; decide)
  obtain ⟨-, hreads, -⟩ := input_reads_each_line_once (.ofLimit none) bytes .isolated 0 requests
  exact ⟨by decide, hlength, hprinted, _, hc, hreads 2 _ hc⟩

end Session

end Scripting
