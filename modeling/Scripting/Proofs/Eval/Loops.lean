import Scripting.Program.Parser
import Scripting.Proofs.Eval.Outcomes

/-!
# Loops with three clauses

There is no statement for a loop with three clauses: reading one gives blocks around a loop that has
a condition only. Here it is said what such a loop means when one takes it as it is written: first
the initializer, in a scope of its own; then rounds, each with the condition, the body and the
increment. The statement that is read in its place ends in exactly the ways that this allows.
-/

namespace Scripting

/-- A loop as it is written, with the clauses that it has. -/
structure ForLoop where
  initializer : Option Stmt
  condition : Option Expr
  increment : Option Expr
  body : Stmt

namespace ForLoop

/-- What is done in every round: the body, or a block with the body and the increment. -/
def round (l : ForLoop) : Stmt :=
  match l.increment with
  | none => l.body
  | some step => .block [l.body, .expression step]

/-- The condition; without one, it always holds. -/
def test (l : ForLoop) : Expr :=
  l.condition.getD (.literal (.bool true))

/-- The statement that is read for a loop. -/
def tree (l : ForLoop) : Stmt :=
  Parser.forLoop l.initializer l.test l.increment l.body

lemma tree_eq (l : ForLoop) : l.tree =
    match l.initializer with
    | none => .whileStmt l.test l.round
    | some first => .block [first, .whileStmt l.test l.round] := by
  obtain ⟨initializer, condition, increment, body⟩ := l
  cases initializer <;> cases increment <;> rfl

end ForLoop

namespace Machine

/-- In a new block. -/
def intoBlock (m : Machine) : Machine :=
  let (frame, store) := m.store.openFrame .block m.scope []
  { m with store, scope := frame, held := .frame m.scope :: m.held }

/-- Back in the scope of an earlier machine. -/
def backTo (m earlier : Machine) : Machine :=
  { m with scope := earlier.scope, held := earlier.held }

end Machine

namespace Eval

variable {m after : Machine}

/-! ### Statements one after the other -/

lemma ends_block {body : List Stmt} {o : Except Fault Completion} :
    (Task.stmt (.block body)).Ends m o after ↔
      ∃ inside, (Task.stmts body).Ends m.intoBlock o inside ∧ after = inside.backTo m := by
  have hblock : (Task.stmt (.block body)).Ends m o after ↔
      (Plan.call (.within (m.store.openFrame .block m.scope []).1) (.stmts body) .done).Ends
        { m with store := (m.store.openFrame .block m.scope []).2 } o after := by
    rw [Task.ends_iff]
    exact Plan.ends_get.trans Plan.ends_updateStore
  rw [hblock, Plan.ends_call]
  constructor
  · rintro (⟨r, inside, hbody, hdone⟩ | ⟨fault, inside, rfl, hbody, rfl⟩)
    · obtain ⟨rfl, rfl⟩ := Plan.ends_done.mp hdone
      exact ⟨inside, hbody, rfl⟩
    · exact ⟨inside, hbody, rfl⟩
  · rintro ⟨inside, hbody, rfl⟩
    cases o with
    | ok r => exact .inl ⟨r, inside, hbody, Plan.ends_done.mpr ⟨rfl, rfl⟩⟩
    | error fault => exact .inr ⟨fault, inside, rfl, hbody, rfl⟩

/-- Behind a statement that does not complete normally, nothing is done. -/
lemma ends_cons {s : Stmt} {rest : List Stmt} {o : Except Fault Completion} :
    (Task.stmts (s :: rest)).Ends m o after ↔
      (∃ between, (Task.stmt s).Ends m (.ok .normal) between ∧
        (Task.stmts rest).Ends between o after) ∨
      (o ≠ .ok .normal ∧ (Task.stmt s).Ends m o after) := by
  rw [Task.ends_iff]
  refine Plan.ends_call.trans ?_
  constructor
  · rintro (⟨completion, inside, hs, hrest⟩ | ⟨fault, inside, rfl, hs, rfl⟩)
    · cases completion with
      | normal => exact .inl ⟨inside, hs, Plan.ends_tail.mp hrest⟩
      | returned value =>
        obtain ⟨rfl, rfl⟩ := Plan.ends_done.mp hrest
        exact .inr ⟨nofun, hs⟩
      | broke =>
        obtain ⟨rfl, rfl⟩ := Plan.ends_done.mp hrest
        exact .inr ⟨nofun, hs⟩
    · exact .inr ⟨nofun, hs⟩
  · rintro (⟨between, hs, hrest⟩ | ⟨hne, hs⟩)
    · exact .inl ⟨.normal, between, hs, Plan.ends_tail.mpr hrest⟩
    · cases o with
      | error fault => exact .inr ⟨fault, after, rfl, hs, rfl⟩
      | ok completion =>
        cases completion with
        | normal => exact absurd rfl hne
        | returned value => exact .inl ⟨_, after, hs, Plan.ends_done.mpr ⟨rfl, rfl⟩⟩
        | broke => exact .inl ⟨_, after, hs, Plan.ends_done.mpr ⟨rfl, rfl⟩⟩

lemma ends_nil {o : Except Fault Completion} :
    (Task.stmts []).Ends m o after ↔ o = .ok .normal ∧ after = m := by
  rw [Task.ends_iff]
  exact Plan.ends_done

/-- A statement alone. -/
lemma ends_singleton {s : Stmt} {o : Except Fault Completion} :
    (Task.stmts [s]).Ends m o after ↔ (Task.stmt s).Ends m o after := by
  rw [ends_cons]
  constructor
  · rintro (⟨between, hs, hrest⟩ | ⟨-, hs⟩)
    · obtain ⟨rfl, rfl⟩ := ends_nil.mp hrest
      exact hs
    · exact hs
  · intro hs
    by_cases ho : o = .ok .normal
    · subst ho
      exact .inl ⟨after, hs, ends_nil.mpr ⟨rfl, rfl⟩⟩
    · exact .inr ⟨ho, hs⟩

/-- A statement that evaluates an expression and drops its value. -/
lemma ends_expression {e : Expr} {o : Except Fault Completion} :
    (Task.stmt (.expression e)).Ends m o after ↔
      ∃ r, (Task.expr e).Ends m r after ∧ o = r.map fun _ => .normal := by
  rw [Task.ends_iff]
  refine Plan.ends_call.trans ?_
  constructor
  · rintro (⟨value, inside, he, hdone⟩ | ⟨fault, inside, rfl, he, rfl⟩)
    · obtain ⟨rfl, rfl⟩ := Plan.ends_done.mp hdone
      exact ⟨.ok value, he, rfl⟩
    · exact ⟨.error fault, he, rfl⟩
  · rintro ⟨r, he, rfl⟩
    cases r with
    | ok value => exact .inl ⟨value, after, he, Plan.ends_done.mpr ⟨rfl, rfl⟩⟩
    | error fault => exact .inr ⟨fault, after, rfl, he, rfl⟩

/-- A statement that a loop can start with completes normally, if it does not end in a fault. -/
lemma normal_of_initializer {s : Stmt} {completion : Completion}
    (hs : (∃ name value, s = .var name value) ∨ ∃ e, s = .expression e)
    (h : (Task.stmt s).Ends m (.ok completion) after) : completion = .normal := by
  rcases hs with ⟨name, value, rfl⟩ | ⟨e, rfl⟩
  · rw [Task.ends_iff] at h
    cases value with
    | none =>
      have hdone := Plan.ends_changeStore.mp (Plan.ends_get.mp h)
      exact Except.ok.inj (Plan.ends_done.mp hdone).1
    | some value =>
      rcases Plan.ends_call.mp h with ⟨r, inside, -, hn⟩ | ⟨fault, inside, he, -⟩
      · have hdone := (Plan.ends_act_of_ok (x := defineHere name.lexeme r) rfl).mp hn
        exact Except.ok.inj (Plan.ends_done.mp hdone).1
      · cases he
  · obtain ⟨r, -, he⟩ := ends_expression.mp h
    cases r with
    | ok value => exact Except.ok.inj he
    | error fault => cases he

end Eval

namespace ForLoop

open Eval

variable (l : ForLoop)

/-! ### What a loop means -/

/-- How the condition comes out. -/
def Checks (m : Machine) (o : Except Fault Bool) (after : Machine) : Prop :=
  match l.condition with
  | none => o = .ok true ∧ after = m
  | some condition =>
    ∃ r, (Task.expr condition).Ends m r after ∧ o = r.map Value.isTruthy

/-- How the increment comes out, evaluated once. -/
def Increments (m : Machine) (o : Except Fault Unit) (after : Machine) : Prop :=
  match l.increment with
  | none => o = .ok () ∧ after = m
  | some step => ∃ r, (Task.expr step).Ends m r after ∧ o = r.map fun _ => ()

/-- The machine that a body starts on: a body with an increment has a block around both. -/
def enterRound (m : Machine) : Machine :=
  match l.increment with
  | none => m
  | some _ => m.intoBlock

/-- The machine behind a round that has come to an end on another one. -/
def leaveRound (m inside : Machine) : Machine :=
  match l.increment with
  | none => inside
  | some _ => inside.backTo m

/-- A round: the body, and then the increment if the body has completed normally. -/
inductive Round (m : Machine) : Except Fault Completion → Machine → Prop
  | stopped {o : Except Fault Completion} {inside : Machine} :
    (Task.stmt l.body).Ends (l.enterRound m) o inside → o ≠ .ok .normal →
      Round m o (l.leaveRound m inside)
  | failed {between inside : Machine} {fault : Fault} :
    (Task.stmt l.body).Ends (l.enterRound m) (.ok .normal) between →
      l.Increments between (.error fault) inside → Round m (.error fault) (l.leaveRound m inside)
  | completed {between inside : Machine} :
    (Task.stmt l.body).Ends (l.enterRound m) (.ok .normal) between →
      l.Increments between (.ok ()) inside → Round m (.ok .normal) (l.leaveRound m inside)

/-- Rounds for as long as the condition holds and the rounds complete normally. -/
inductive Rounds : Machine → Except Fault Completion → Machine → Prop
  | unchecked {m after : Machine} {fault : Fault} :
    l.Checks m (.error fault) after → Rounds m (.error fault) after
  | finished {m after : Machine} : l.Checks m (.ok false) after → Rounds m (.ok .normal) after
  | failed {m checked after : Machine} {fault : Fault} :
    l.Checks m (.ok true) checked → l.Round checked (.error fault) after →
      Rounds m (.error fault) after
  | broke {m checked after : Machine} :
    l.Checks m (.ok true) checked → l.Round checked (.ok .broke) after →
      Rounds m (.ok .normal) after
  | returned {m checked after : Machine} {value : Value} :
    l.Checks m (.ok true) checked → l.Round checked (.ok (.returned value)) after →
      Rounds m (.ok (.returned value)) after
  | again {m checked next after : Machine} {o : Except Fault Completion} :
    l.Checks m (.ok true) checked → l.Round checked (.ok .normal) next → Rounds next o after →
      Rounds m o after

/-- A loop: its initializer, once and in a scope of its own, and then its rounds. -/
inductive Runs (m : Machine) : Except Fault Completion → Machine → Prop
  | bare {o : Except Fault Completion} {after : Machine} :
    l.initializer = none → l.Rounds m o after → Runs m o after
  | failed {first : Stmt} {fault : Fault} {inside : Machine} :
    l.initializer = some first → (Task.stmt first).Ends m.intoBlock (.error fault) inside →
      Runs m (.error fault) (inside.backTo m)
  | started {first : Stmt} {between inside : Machine} {o : Except Fault Completion} :
    l.initializer = some first → (Task.stmt first).Ends m.intoBlock (.ok .normal) between →
      l.Rounds between o inside → Runs m o (inside.backTo m)

/-! ### The statement for a loop means the same -/

variable {l} {m after : Machine}

lemma checks_iff {o : Except Fault Bool} : l.Checks m o after ↔
    ∃ r, (Task.expr l.test).Ends m r after ∧ o = r.map Value.isTruthy := by
  unfold Checks test
  cases l.condition with
  | some condition => exact Iff.rfl
  | none =>
    constructor
    · rintro ⟨rfl, rfl⟩
      exact ⟨.ok (.bool true), Task.ends_iff.mpr (Plan.ends_done.mpr ⟨rfl, rfl⟩), rfl⟩
    · rintro ⟨r, h, rfl⟩
      obtain ⟨rfl, rfl⟩ := Plan.ends_done.mp (Task.ends_iff.mp h)
      exact ⟨rfl, rfl⟩

/-- A round of the statement is a round of the loop. -/
lemma ends_round {o : Except Fault Completion} :
    (Task.stmt l.round).Ends m o after ↔ l.Round m o after := by
  obtain ⟨initializer, condition, increment, body⟩ := l
  cases increment with
  | none =>
    constructor
    · intro h
      by_cases ho : o = .ok .normal
      · subst ho
        exact .completed (l := ⟨initializer, condition, none, body⟩) h ⟨rfl, rfl⟩
      · exact .stopped (l := ⟨initializer, condition, none, body⟩) h ho
    · rintro (⟨h, -⟩ | ⟨-, he, -⟩ | ⟨h, -, rfl⟩)
      · exact h
      · cases he
      · exact h
  | some step =>
    refine ends_block.trans ?_
    constructor
    · rintro ⟨inside, h, rfl⟩
      rcases ends_cons.mp h with ⟨between, hbody, hstep⟩ | ⟨hne, hbody⟩
      · obtain ⟨r, hr, rfl⟩ := ends_expression.mp (ends_singleton.mp hstep)
        cases r with
        | ok value => exact .completed hbody ⟨.ok value, hr, rfl⟩
        | error fault => exact .failed hbody ⟨.error fault, hr, rfl⟩
      · exact .stopped hbody hne
    · rintro (⟨h, hne⟩ | ⟨h, r, hr, he⟩ | ⟨h, r, hr, he⟩)
      · exact ⟨_, ends_cons.mpr (.inr ⟨hne, h⟩), rfl⟩
      · cases r with
        | ok value => cases he
        | error fault' =>
          cases he
          exact ⟨_, ends_cons.mpr (.inl ⟨_, h, ends_singleton.mpr
            (ends_expression.mpr ⟨_, hr, rfl⟩)⟩), rfl⟩
      · cases r with
        | error fault => cases he
        | ok value =>
          exact ⟨_, ends_cons.mpr (.inl ⟨_, h, ends_singleton.mpr
            (ends_expression.mpr ⟨_, hr, rfl⟩)⟩), rfl⟩

/-- How the loop of the statement ends is how the rounds do. -/
lemma rounds_of_ends {steps : Nat} {o : Except Fault Completion}
    (h : ((Task.loop l.test l.round).perform steps).Ends m o after) : l.Rounds m o after := by
  induction steps generalizing m with
  | zero =>
    rw [Task.perform_zero] at h
    cases o <;> cases h
  | succ steps ih =>
    rw [Task.perform_succ] at h
    rcases Plan.ends_perform_call.mp h with ⟨value, checked, hcheck, hn⟩ | ⟨fault, checked, rfl,
      hcheck, rfl⟩
    · have hchecks : l.Checks m (.ok value.isTruthy) checked :=
        checks_iff.mpr ⟨.ok value, ⟨steps, hcheck⟩, rfl⟩
      cases hv : value.isTruthy with
      | false =>
        rw [hv] at hchecks
        rw [if_neg (by simp [hv])] at hn
        obtain ⟨rfl, rfl⟩ := Exec.ends_pure.mp hn
        exact .finished hchecks
      | true =>
        rw [hv] at hchecks
        rw [if_pos hv] at hn
        rcases Plan.ends_perform_call.mp hn with ⟨completion, next, hround, hrest⟩ | ⟨fault,
          next, rfl, hround, rfl⟩
        · have hround := ends_round.mp ⟨steps, hround⟩
          cases completion with
          | normal =>
            rw [Plan.perform_tail] at hrest
            exact .again hchecks hround (ih hrest)
          | returned value =>
            obtain ⟨rfl, rfl⟩ := Exec.ends_pure.mp hrest
            exact .returned hchecks hround
          | broke =>
            obtain ⟨rfl, rfl⟩ := Exec.ends_pure.mp hrest
            exact .broke hchecks hround
        · exact .failed hchecks (ends_round.mp ⟨steps, hround⟩)
    · exact .unchecked (checks_iff.mpr ⟨.error fault, ⟨steps, hcheck⟩, rfl⟩)

/-- Behind a condition that holds, the loop of the statement ends as a round and what comes then. -/
lemma ends_loop_of_checks {checked : Machine} {o : Except Fault Completion}
    (hc : l.Checks m (.ok true) checked)
    (h : ∀ next : Completion → Plan Completion, next .normal = .tail (.loop l.test l.round) →
      next .broke = .done .normal → (∀ value, next (.returned value) = .done (.returned value)) →
        (Plan.call .plain (.stmt l.round) next).Ends checked o after) :
    (Task.loop l.test l.round).Ends m o after := by
  obtain ⟨r, hr, he⟩ := checks_iff.mp hc
  cases r with
  | error fault => cases he
  | ok value =>
    refine Task.ends_iff.mpr (Plan.ends_call.mpr (.inl ⟨value, checked, hr, ?_⟩))
    rw [if_pos (Except.ok.inj he).symm]
    exact h _ rfl rfl fun _ => rfl

/-- The rounds of a loop are those of the statement. -/
lemma ends_of_rounds {o : Except Fault Completion} (h : l.Rounds m o after) :
    (Task.loop l.test l.round).Ends m o after := by
  induction h with
  | @unchecked m after fault hc =>
    obtain ⟨r, hr, he⟩ := checks_iff.mp hc
    cases r with
    | ok value => cases he
    | error fault' =>
      cases he
      exact Task.ends_iff.mpr (Plan.ends_call.mpr (.inr ⟨fault, after, rfl, hr, rfl⟩))
  | @finished m after hc =>
    obtain ⟨r, hr, he⟩ := checks_iff.mp hc
    cases r with
    | error fault => cases he
    | ok value =>
      refine Task.ends_iff.mpr (Plan.ends_call.mpr (.inl ⟨value, after, hr, ?_⟩))
      rw [if_neg (by simp [← Except.ok.inj he])]
      exact Plan.ends_done.mpr ⟨rfl, rfl⟩
  | failed hc hr =>
    exact ends_loop_of_checks hc fun next _ _ _ =>
      Plan.ends_call.mpr (.inr ⟨_, _, rfl, ends_round.mpr hr, rfl⟩)
  | broke hc hr =>
    refine ends_loop_of_checks hc fun next _ hbroke _ =>
      Plan.ends_call.mpr (.inl ⟨_, _, ends_round.mpr hr, ?_⟩)
    rw [hbroke]
    exact Plan.ends_done.mpr ⟨rfl, rfl⟩
  | returned hc hr =>
    refine ends_loop_of_checks hc fun next _ _ hreturned =>
      Plan.ends_call.mpr (.inl ⟨_, _, ends_round.mpr hr, ?_⟩)
    rw [hreturned]
    exact Plan.ends_done.mpr ⟨rfl, rfl⟩
  | again hc hr _ ih =>
    refine ends_loop_of_checks hc fun next hnormal _ _ =>
      Plan.ends_call.mpr (.inl ⟨_, _, ends_round.mpr hr, ?_⟩)
    rw [hnormal]
    exact Plan.ends_tail.mpr ih

lemma ends_while {o : Except Fault Completion} :
    (Task.stmt (.whileStmt l.test l.round)).Ends m o after ↔ l.Rounds m o after := by
  rw [Task.ends_iff]
  refine Plan.ends_tail.trans ⟨?_, ends_of_rounds⟩
  rintro ⟨steps, h⟩
  exact rounds_of_ends h

/-- The statement that is read for a loop ends as the loop does. -/
theorem ends_tree {o : Except Fault Completion}
    (hfirst : ∀ first ∈ l.initializer,
      (∃ name value, first = .var name value) ∨ ∃ e, first = .expression e) :
    (Task.stmt l.tree).Ends m o after ↔ l.Runs m o after := by
  rw [tree_eq]
  cases hinit : l.initializer with
  | none =>
    refine ends_while.trans ⟨fun h => .bare hinit h, ?_⟩
    rintro (⟨-, h⟩ | ⟨he, -⟩ | ⟨he, -⟩)
    · exact h
    · rw [hinit] at he
      cases he
    · rw [hinit] at he
      cases he
  | some first =>
    refine ends_block.trans ?_
    constructor
    · rintro ⟨inside, h, rfl⟩
      rcases ends_cons.mp h with ⟨between, hs, hrest⟩ | ⟨hne, hs⟩
      · exact .started hinit hs (ends_while.mp (ends_singleton.mp hrest))
      · cases o with
        | error fault => exact .failed hinit hs
        | ok completion =>
          obtain rfl := normal_of_initializer (hfirst first (by simp [hinit])) hs
          exact absurd rfl hne
    · rintro (⟨he, -⟩ | ⟨he, hs⟩ | ⟨he, hs, hrounds⟩)
      · rw [hinit] at he
        cases he
      · obtain rfl := Option.some.inj (hinit.symm.trans he)
        exact ⟨_, ends_cons.mpr (.inr ⟨nofun, hs⟩), rfl⟩
      · obtain rfl := Option.some.inj (hinit.symm.trans he)
        exact ⟨_, ends_cons.mpr (.inl ⟨_, hs, ends_singleton.mpr (ends_while.mpr hrounds)⟩), rfl⟩

end ForLoop

end Scripting
