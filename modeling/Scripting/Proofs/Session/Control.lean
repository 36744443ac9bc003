import Scripting.Proofs.Session.History

/-!
# Control comes back

However an evaluation ends, it leaves the scope that it found. A `break` gets no further than to the
loop around it and a `return` no further than to the function around it, and in a program that the
walk accepts there is a loop or a function around each.
-/

namespace Scripting

open Eval

/-- Whatever is evaluated, called or executed leaves the scope as it was, however it ends; so a
session is always in the scope of the globals between two requests. -/
theorem scope_eq_after :
    (∀ (steps : Nat) (m : Machine),
      (∀ e, ((evaluate steps e).after m).scope = m.scope) ∧
      (∀ es, ((evaluateAll steps es).after m).scope = m.scope) ∧
      (∀ callee line arguments, ((call steps callee line arguments).after m).scope = m.scope) ∧
      (∀ k arguments, ((run steps k arguments).after m).scope = m.scope) ∧
      (∀ f arguments, ((runFunction steps f arguments).after m).scope = m.scope) ∧
      (∀ g, ((runGetter steps g).after m).scope = m.scope) ∧
      (∀ c arguments, ((construct steps c arguments).after m).scope = m.scope) ∧
      (∀ s, ((execute steps s).after m).scope = m.scope) ∧
      (∀ condition body, ((repeatWhile steps condition body).after m).scope = m.scope) ∧
      (∀ ss, ((executeAll steps ss).after m).scope = m.scope) ∧
      (∀ frame ss, ((Exec.within frame (executeAll steps ss)).after m).scope = m.scope) ∧
      ∀ p, ((runProgram steps p).after m).scope = m.scope) ∧
    ∀ sink input network time requests,
      ((Session.start (.start sink input network time)).after requests).machine.scope =
        Machine.globals := by
  constructor
  · intro steps m
    have task : ∀ t : Task, ((t.perform steps).after m).scope = m.scope :=
      fun t => (t.perform_advances steps m).scope_eq
    refine ⟨fun e => task (.expr e), fun es => task (.exprs es),
      fun callee line arguments => task (.call callee line arguments),
      fun k arguments => task (.callable k arguments),
      fun f arguments => task (.function f arguments), fun g => task (.getter g),
      fun c arguments => task (.construct c arguments), fun s => task (.stmt s),
      fun condition body => task (.loop condition body), fun ss => task (.stmts ss), ?_, ?_⟩
    · intro frame ss
      exact ((Mode.within frame).wrap_advances ((Task.stmts ss).perform_advances steps) m).scope_eq
    · exact fun p => (runProgram_advances steps p m).scope_eq
  · intro sink input network time requests
    exact ((Session.settled_start sink input network time).after requests).scope_eq

/-- In the runs of a session, no `break` and no `return` gets out: there is never a fault for a
stray `break`, and the statements of a program only complete normally. Whatever the program, a
statement that ends with `break` or `return` has one in it that is meant for what is around. -/
theorem completions_stay_inside (sink : Sink) (input : List UInt8) (network : Network)
    (time : Nat) {requests : List Request} {earlier later : List Run} {run : Run}
    (h : (Session.start (.start sink input network time)).runs requests =
      earlier ++ run :: later) :
    (∀ fault, run.fault? = some fault → fault.cause ≠ .strayBreak) ∧
    (∀ trail c, run.Visits trail c → ∀ fault after, c.outcome = .error (.fault fault) after →
      fault.cause ≠ .strayBreak) ∧
    (∀ s ∈ run.program, ∀ steps m completion after,
      execute steps s m = .ok completion after → completion = .normal) ∧
    ∀ steps s m completion after, execute steps s m = .ok completion after →
      (completion = .broke → s.Breaks) ∧ ∀ value, completion = .returned value → s.Returns := by
  have hfollows := (Session.settled_start sink input network time).follows_of_runs h
  have hstray : ∀ fault, run.fault? = some fault → fault.cause ≠ .strayBreak := by
    intro fault hf hstray
    obtain ⟨trail, c, after, -, -, hordinary | ⟨f, name, -, hcause⟩⟩ := hfollows.mayFail hf
    · exact hordinary.2 hstray
    · rw [hcause] at hstray
      cases hstray
  refine ⟨hstray, ?_, ?_, ?_⟩
  · intro trail c hv fault after hc
    obtain ⟨after', ho, -⟩ := hv.error hc
    exact hstray fault (Run.fault?_eq_some_iff.mpr ⟨after', ho⟩)
  · intro s hs steps m completion after he
    have hflow : completion.Allowed s.Breaks s.Returns := Task.flows (t := .stmt s) he
    have haccepted := hfollows.accepted run (List.mem_append_right earlier List.mem_cons_self)
    obtain ⟨hbreak, hreturn⟩ := haccepted.not_breaks hs
    cases completion with
    | normal => rfl
    | broke => exact absurd hflow hbreak
    | returned value => exact absurd hflow hreturn
  · intro steps s m completion after he
    have hflow : completion.Allowed s.Breaks s.Returns := Task.flows (t := .stmt s) he
    constructor
    · rintro rfl
      exact hflow
    · rintro value rfl
      exact hflow

/-- A program with a `break` and a `return` that is run to its end. -/
theorem completions_stay_inside_of_loop :
    ∃ run, (Session.start (.start (.ofLimit none) [] .isolated 0)).runs
        [.source 20 false "fun f() \x7b while (true) \x7b break; \x7d return nil; \x7d f();"] =
          [run] ∧
      run.fault? = none ∧
      ∀ s ∈ run.program, ∀ steps m completion after,
        execute steps s m = .ok completion after → completion = .normal := by
  obtain ⟨run, hruns, hfault⟩ := List.map_eq_singleton_iff.mp
    (show ((Session.start (.start (.ofLimit none) [] .isolated 0)).runs
      [.source 20 false "fun f() \x7b while (true) \x7b break; \x7d return nil; \x7d f();"]).map
        Run.fault? = [none] by decide +kernel)
  obtain ⟨-, -, hnormal, -⟩ := completions_stay_inside _ _ _ _
    (show _ = [] ++ run :: [] from hruns)
  exact ⟨run, hruns, hfault, hnormal⟩

end Scripting
