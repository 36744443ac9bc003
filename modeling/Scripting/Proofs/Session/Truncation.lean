import Scripting.Proofs.Eval.Truncation
import Scripting.Proofs.Session.Chains
import Scripting.Proofs.Session.Rejection

/-!
# A full sink

A script is run twice from the same session, once with a sink that takes everything and once with
one that has room for a number of bytes only. The second run does the same as the first one, or what
it prints is what the first one prints, cut where the sink is full.
-/

namespace Scripting

open Eval

/-- Keeping distances has nothing to do with what is printed. -/
lemma Machine.recordResolution_withLimit (m : Machine) (limit : Nat) (r : Resolution) :
    (m.withLimit limit).recordResolution r = (m.recordResolution r).withLimit limit := by
  have fold : ∀ (links : List (NodeId × Nat)) (m : Machine),
      links.foldl (fun m link => m.recordDistance link.1 link.2) (m.withLimit limit) =
        (links.foldl (fun m link => m.recordDistance link.1 link.2) m).withLimit limit := by
    intro links
    induction links with
    | nil => exact fun m => rfl
    | cons link rest ih => exact fun m => ih (m.recordDistance link.1 link.2)
  rw [recordResolution, recordResolution, ← Array.foldl_toList, ← Array.foldl_toList]
  dsimp only
  rw [fold]
  rfl

lemma Machine.recordResolution_sink (m : Machine) (r : Resolution) :
    (m.recordResolution r).sink = m.sink := by
  obtain ⟨journal, -, hm⟩ := m.recordResolution_eq r
  rw [hm]

namespace Session

variable {s s' : Session} {source : String} {p : Program}

/-- The session with a limit to what is printed in all. -/
def withLimit (s : Session) (limit : Nat) : Session :=
  s.mapMachine (·.withLimit limit)

lemma read?_withLimit (h : s.read? source = some (p, s')) (limit : Nat) :
    (s.withLimit limit).read? source = some (p, s'.withLimit limit) := by
  obtain ⟨tokens, nextId, hscan, hparse, rfl⟩ := read?_eq_some h
  have hid : (s.withLimit limit).nextId = s.nextId := rfl
  simp only [read?, hscan, log_nextId, hid, hparse]
  rfl

/-- A valid script is read, and nothing is wrong with its program. -/
lemma exists_read?_of_valid (s : Session) (h : Valid source) :
    ∃ p s', s.read? source = some (p, s') ∧ p.resolve.errors.isEmpty := by
  have hlaunch := mt (s.launch?_eq_none_iff 0 source).mp (not_not_intro h)
  unfold launch? at hlaunch
  split at hlaunch
  · exact absurd rfl hlaunch
  · next p s' hread =>
    refine ⟨p, s', hread, ?_⟩
    by_contra he
    simp [he] at hlaunch

lemma conclude_limited (s : Session) (limit : Nat) (r : EStateM.Result Stop Machine Unit) :
    (s.withLimit limit).conclude (Exec.limited limit r) =
      ((s.conclude r).1, (s.conclude r).2.withLimit limit) := by
  rcases r with ⟨_, m⟩ | ⟨_ | _, m⟩
  · rfl
  · rfl
  · rfl

/-- A script that is read, and whose program has no mistake, becomes a run. -/
lemma launched (steps : Nat) (hread : s.read? source = some (p, s'))
    (he : p.resolve.errors.isEmpty) :
    s.launch? steps false source = some ⟨steps, p, s'.machine.recordResolution p.resolve⟩ ∧
      s.run steps false source = (s'.mapMachine (·.recordResolution p.resolve)).conclude
        (Run.outcome ⟨steps, p, s'.machine.recordResolution p.resolve⟩) := by
  constructor
  · simp only [launch?, hread, Bool.false_eq_true, if_false, he, if_true]
  · rw [run_of_read?_some hread]
    exact s'.runProgram_of_accepted steps he

/-- A valid script becomes a run of one program without a limit and with one, from machines that
differ in the limit only. -/
lemma exists_launched_alike (s : Session) (steps limit : Nat) (h : Valid source) :
    ∃ (p : Program) (ready : Session),
      ready.machine.sink = s.machine.sink ∧ ready.machine.scope = s.machine.scope ∧
      s.launch? steps false source = some ⟨steps, p, ready.machine⟩ ∧
      s.run steps false source = ready.conclude (Run.outcome ⟨steps, p, ready.machine⟩) ∧
      (s.withLimit limit).launch? steps false source =
        some ⟨steps, p, ready.machine.withLimit limit⟩ ∧
      (s.withLimit limit).run steps false source = (ready.withLimit limit).conclude
        (Run.outcome ⟨steps, p, ready.machine.withLimit limit⟩) := by
  obtain ⟨p, s', hread, he⟩ := s.exists_read?_of_valid h
  obtain ⟨hlaunch, hrun⟩ := launched steps hread he
  obtain ⟨hlaunch', hrun'⟩ := launched steps (read?_withLimit hread limit) he
  have hmachine : (s'.withLimit limit).machine.recordResolution p.resolve =
      (s'.machine.recordResolution p.resolve).withLimit limit :=
    s'.machine.recordResolution_withLimit limit p.resolve
  have hready : (s'.withLimit limit).mapMachine (·.recordResolution p.resolve) =
      (s'.mapMachine (·.recordResolution p.resolve)).withLimit limit := by
    simp only [withLimit, mapMachine, Machine.recordResolution_withLimit]
  rw [hmachine] at hlaunch' hrun'
  rw [hready] at hrun'
  refine ⟨p, _, ?_, ?_, hlaunch, hrun, hlaunch', hrun'⟩
  · obtain ⟨tokens, nextId, -, -, rfl⟩ := read?_eq_some hread
    exact Machine.recordResolution_sink _ _
  · obtain ⟨tokens, nextId, -, -, rfl⟩ := read?_eq_some hread
    exact (Machine.recordResolution_spec _ _).2.1

/-- The output of a valid script with room for a number of bytes only. If all of it fits, nothing is
different. Otherwise it is cut there, and the script ends in a fault on the line of the statement
that prints the first byte that does not fit; the session is in the scope of the globals again. -/
theorem full_sink_truncates (s : Session) (steps room : Nat) {source : String}
    (hlimit : s.machine.sink.limit = none) (hscope : s.machine.scope = Machine.globals)
    (hsource : Valid source) :
    let limit := s.machine.sink.taken.size + room
    let full := s.run steps false source
    let limited := (s.withLimit limit).run steps false source
    ∃ printed run run', s.launch? steps false source = some run ∧
      (s.withLimit limit).launch? steps false source = some run' ∧
      full.2.machine.sink.taken = s.machine.sink.taken ++ printed ∧
      (printed.size ≤ room → limited = (full.1, full.2.withLimit limit)) ∧
      (room < printed.size →
        limited.2.machine.sink.taken = s.machine.sink.taken ++ printed.extract 0 room ∧
        limited.1 = .ok ∧ limited.2.hadRuntimeError = true ∧
        limited.2.machine.scope = Machine.globals ∧
        ∃ line, (∃ trail c, run.Visits trail c ∧ c.PrintsPast limit line) ∧
          run'.fault? = some ⟨.outputFull, line⟩ ∧
          limited.2.machine.journal.back? = some (.report (Fault.report ⟨.outputFull, line⟩))) := by
  intro limit full limited
  obtain ⟨p, ready, hready, hscope', hlaunch, hfull, hlaunch', hlimited⟩ :=
    s.exists_launched_alike steps limit hsource
  let run : Run := ⟨steps, p, ready.machine⟩
  let run' : Run := ⟨steps, p, ready.machine.withLimit limit⟩
  -- what the evaluator does in one run and in the other
  have hfits : run.machine.Fits limit := by
    refine ⟨(congrArg Sink.limit hready).trans hlimit, ?_⟩
    rw [show run.machine.sink = _ from hready]
    exact Nat.le_add_right _ _
  obtain ⟨hprints, hcut⟩ := run.truncates hfits
  obtain ⟨-, printed, hprinted⟩ := hprints run.machine
  rw [show run.machine.sink = _ from hready] at hprinted
  have hsize : ((Eval.runProgram run.steps run.program).after run.machine).sink.taken.size =
      s.machine.sink.taken.size + printed.size := by
    rw [hprinted, ByteArray.size_append]
  refine ⟨printed, run, run', hlaunch, hlaunch', ?_, fun hle => ?_, fun hlt => ?_⟩
  · obtain ⟨journal, hm⟩ := ready.conclude_machine run
    rw [show full = _ from hfull, hm]
    exact hprinted
  · have hsame : run'.outcome = Exec.limited limit run.outcome :=
      hcut.fits (hsize ▸ Nat.add_le_add_left hle _)
    rw [show limited = _ from hlimited, show full = _ from hfull]
    rw [show run'.outcome = _ from hsame, conclude_limited]
  · obtain ⟨line, after, ho, htaken, hline⟩ := hcut.cut (hsize ▸ Nat.add_lt_add_left hlt _)
    have ho' : run'.outcome = .error (.fault ⟨.outputFull, line⟩) after := ho
    have hafter : after.scope = Machine.globals := by
      have hadvances := runProgram_advances steps p run'.machine
      rw [Exec.after, show Eval.runProgram steps p run'.machine = _ from ho'] at hadvances
      exact hadvances.scope_eq.trans (hscope'.trans hscope)
    rw [show limited = _ from hlimited, ho']
    refine ⟨?_, rfl, rfl, hafter, line, hline, Run.fault?_eq_some_iff.mpr ⟨after, ho'⟩,
      Array.back?_push⟩
    show after.sink.taken = _
    rw [htaken, hprinted, extract_zero_append (Nat.le_add_right _ _), Nat.add_sub_cancel_left]

/-- Two lines are printed in a call, of which the second one fits only in part. -/
theorem full_sink_truncates_in_call :
    let s := start (.start (.ofLimit none) [] .isolated 0)
    let source := "fun f() \x7b print nil;\nprint nil; \x7d f();"
    let full := s.run 20 false source
    let limited := (s.withLimit 6).run 20 false source
    (Valid source ∧ full.2.machine.sink.taken.toList = [110, 105, 108, 10, 110, 105, 108, 10] ∧
      limited.2.machine.sink.taken.toList = [110, 105, 108, 10, 110, 105]) ∧
    limited.2.hadRuntimeError = true ∧
    ∃ run line, s.launch? 20 false source = some run ∧
      (∃ trail c, run.Visits trail c ∧ c.PrintsPast 6 line) ∧
      limited.2.machine.journal.back? = some (.report (Fault.report ⟨.outputFull, line⟩)) := by
  intro s source full limited
  obtain ⟨hruns, hsize⟩ : (Valid source ∧
      full.2.machine.sink.taken.toList = [110, 105, 108, 10, 110, 105, 108, 10] ∧
      limited.2.machine.sink.taken.toList = [110, 105, 108, 10, 110, 105]) ∧
        full.2.machine.sink.taken.size = 8 := by
    decide +kernel
  obtain ⟨printed, run, run', hlaunch, -, htaken, -, hcut⟩ :=
    full_sink_truncates s 20 6 rfl rfl hruns.1
  have hprinted : printed.size = 8 := by
    rw [show full.2.machine.sink.taken = _ from htaken, ByteArray.size_append] at hsize
    exact (Nat.zero_add _).symm.trans hsize
  obtain ⟨-, -, herror, -, line, hline, -, hreport⟩ := hcut (by rw [hprinted]; decide)
  exact ⟨hruns, herror, run, line, hlaunch, hline, hreport⟩

end Session

end Scripting
