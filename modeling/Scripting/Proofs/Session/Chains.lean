import Scripting.Proofs.Eval.Steps
import Scripting.Proofs.Session.History

/-!
# Runs one after the other

What one run leaves, the next one finds. That is so for the runs of a session, and it is all that is
needed for what holds of the store whatever distances the machines have, recorded or not.
-/

namespace Scripting

namespace Eval

/-- Runs one after the other: the first one finds the given store, and the others what the one
before has left. Nothing is said about the distances. -/
def Chained : Store → List Run → Prop
  | _, [] => True
  | s, run :: later => run.machine.store = s ∧ Chained run.after.store later

/-- What each run keeps holds when the last one begins, and when it ends. -/
lemma Chained.keeps {holds : Store → Prop} {good : Run → Prop}
    (hkeeps : ∀ run, good run → holds run.machine.store → holds run.after.store) {s : Store}
    {runs : List Run} (h : Chained s runs) (hs : holds s) (hgood : ∀ run ∈ runs, good run) :
    ∀ run ∈ runs, holds run.machine.store ∧ holds run.after.store := by
  induction runs generalizing s with
  | nil => simp
  | cons first later ih =>
    obtain ⟨rfl, hlater⟩ := h
    rw [List.forall_mem_cons] at hgood
    have hafter := hkeeps first hgood.1 hs
    exact List.forall_mem_cons.mpr ⟨⟨hs, hafter⟩, ih hlater hafter hgood.2⟩

end Eval

open Eval

/-- A session takes over the machine that a run leaves, apart from a report. -/
lemma Session.conclude_machine (s : Session) (run : Run) :
    ∃ journal, (s.conclude run.outcome).2.machine = { run.after with journal } := by
  simp only [Run.after, Exec.after, ← Run.outcome.eq_1]
  rcases run.outcome with ⟨_, m⟩ | ⟨_ | _, m⟩
  · exact ⟨_, rfl⟩
  · exact ⟨_, rfl⟩
  · exact ⟨_, rfl⟩

/-- The runs of a session are chained. -/
theorem Session.chained_runs (s : Session) (requests : List Request) :
    Chained s.machine.store (s.runs requests) := by
  induction requests generalizing s with
  | nil => exact trivial
  | cons q rest ih =>
    have hspec := q.perform_spec s
    have hrest := ih (q.perform s).2
    rw [runs]
    cases hr : q.run? s with
    | none =>
      rw [hr] at hspec
      rw [hspec.store_eq] at hrest
      exact hrest
    | some run =>
      rw [hr] at hspec
      obtain ⟨s', hpass, hmachine, -, -, hresult⟩ := hspec.prepared
      have hstore : run.machine.store = s.machine.store := by
        rw [← hmachine, hpass.store_eq]
      have hafter : (q.perform s).2.machine.store = run.after.store := by
        rw [hresult]
        exact (s'.conclude_spec run).1
      rw [hafter] at hrest
      exact ⟨hstore, hrest⟩

end Scripting
