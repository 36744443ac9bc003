import Scripting.Proofs.Eval.Faults
import Scripting.Proofs.Eval.Provenance

/-!
# What calls blame

The faults of a run come from the actions of its calls. So a cause that no action of any call gives
is not the cause of a fault. The two causes that blame an operator for being unknown are such: only
operations give them, and only for operators that code is not built of.
-/

namespace Scripting

open Resolution

/-- A cause that does not blame an operator for being unknown. -/
def Cause.Known (cause : Cause) : Prop :=
  cause ≠ .unknownUnary ∧ cause ≠ .unknownBinary

instance (cause : Cause) : Decidable cause.Known :=
  inferInstanceAs (Decidable (_ ∧ _))

namespace Eval

variable {α β : Type} {only : Cause → Prop}

/-- All faults that an action ends in have causes of a kind. -/
def Blames (only : Cause → Prop) (x : Exec α) : Prop :=
  ∀ m fault after, x m = .error (.fault fault) after → only fault.cause

section

variable {x : Exec α} {line : Nat}

lemma blames_of_ok (h : ∀ m, ∃ a after, x m = .ok a after) : Blames only x := by
  intro m fault after hx
  obtain ⟨a, after', ho⟩ := h m
  rw [ho] at hx
  cases hx

lemma blames_of_quiet (h : x.Quiet) : Blames only x :=
  blames_of_ok fun m => (h m).imp fun _ ha => ha.imp fun _ ho => ho.1

lemma blames_store : Blames only Exec.store :=
  blames_of_ok fun _ => ⟨_, _, rfl⟩

lemma blames_get : Blames only (get : Exec Machine) :=
  blames_of_ok fun _ => ⟨_, _, rfl⟩

lemma blames_updateStore (update : Store → α × Store) : Blames only (Exec.updateStore update) :=
  blames_of_ok fun _ => ⟨_, _, rfl⟩

lemma blames_changeStore (change : Store → Store) : Blames only (Exec.changeStore change) :=
  blames_of_ok fun _ => ⟨_, _, rfl⟩

lemma blames_fail {cause : Cause} (h : only cause) :
    Blames only (Exec.fail cause line : Exec α) := by
  intro m fault after hx
  cases hx
  exact h

lemma blames_ofExcept {e : Except Cause α} (h : ∀ cause, e = .error cause → only cause) :
    Blames only (Exec.ofExcept line e) := by
  cases e with
  | ok a => exact blames_of_ok fun _ => ⟨_, _, rfl⟩
  | error cause => exact blames_fail (h cause rfl)

lemma Blames.bind {next : α → Exec β} (hx : Blames only x) (hn : ∀ a, Blames only (next a)) :
    Blames only (x >>= next) := by
  intro m fault after h
  cases ho : x m with
  | ok a m' =>
    rw [Exec.bind_of_ok ho] at h
    exact hn a m' fault after h
  | error stop m' =>
    rw [Exec.bind_of_error ho] at h
    cases h
    exact hx m fault after ho

end

namespace Plan

/-- All actions of a plan blame causes of a kind only. -/
def Blames (only : Cause → Prop) : Plan α → Prop
  | .done _ => True
  | .act x next => Eval.Blames only x ∧ ∀ g, (next g).Blames only
  | .call _ t next => ∀ r : t.Result, (next r).Blames only

lemma blames_only {x : Exec α} (h : Eval.Blames only x) : (Plan.only x).Blames only :=
  ⟨h, fun _ => trivial⟩

lemma blames_tail (t : Task) : (tail t).Blames only :=
  fun _ => trivial

/-- A plan ends in a fault because of one of its actions, or because of a call that does. -/
lemma Blames.of_error {self : (t : Task) → Exec t.Result} {p : Plan α} (hp : p.Blames only)
    {m after : Machine} {fault : Fault} (h : p.perform self m = .error (.fault fault) after) :
    only fault.cause ∨ ∃ t m' after', p.Asks self m t m' ∧
      self t m' = .error (.fault fault) after' := by
  induction p generalizing m with
  | done a => cases h
  | act x next ih =>
    cases ho : x m with
    | ok g m' =>
      rw [perform_act, Exec.bind_of_ok ho] at h
      rcases ih g (hp.2 g) h with hc | ⟨t, m'', after', ha, hs⟩
      · exact .inl hc
      · exact .inr ⟨t, m'', after', ⟨g, m', ho, ha⟩, hs⟩
    | error stop m' =>
      rw [perform_act, Exec.bind_of_error ho] at h
      cases h
      exact .inl (hp.1 m fault after ho)
  | call mode t next ih =>
    have hwrap := mode.wrap_apply (self t) m
    cases ho : self t (mode.enter m) with
    | ok r m' =>
      rw [perform_call_of_ok ho] at h
      rcases ih r (hp r) h with hc | ⟨t', m'', after', ha, hs⟩
      · exact .inl hc
      · exact .inr ⟨t', m'', after', .inr ⟨r, m', ho, ha⟩, hs⟩
    | error stop m' =>
      rw [ho] at hwrap
      rw [perform_call, Exec.bind_of_error hwrap] at h
      cases h
      exact .inr ⟨t, mode.enter m, m', .inl ⟨rfl, rfl⟩, ho⟩

end Plan

/-- What a call ends in, one of the calls in it blames. -/
theorem Call.blames {root : Call} (h : ∀ trail c, root.Reaches trail c → c.task.plan.Blames only)
    {fault : Fault} {after : Machine} (ho : root.outcome = .error (.fault fault) after) :
    only fault.cause := by
  obtain ⟨steps, t, m⟩ := root
  induction steps generalizing t m after with
  | zero =>
    rw [Call.outcome, Task.perform_zero] at ho
    cases ho
  | succ steps ih =>
    rw [Call.outcome, Task.perform_succ] at ho
    rcases (h [] _ .start).of_error ho with hc | ⟨t', m', after', ha, hs⟩
    · exact hc
    · have hm : Call.Makes ⟨steps + 1, t, m⟩ ⟨steps, t', m'⟩ := ⟨rfl, ha⟩
      exact ih t' m' (fun trail c hr => h _ c (hm.reaches hr)) hs

/-- What a run ends in, one of its calls blames, or it is a `break` outside of all loops. -/
theorem Run.blames {run : Run} (h : ∀ trail c, run.Visits trail c → c.task.plan.Blames only)
    (hstray : only .strayBreak) {fault : Fault} (hf : run.fault? = some fault) :
    only fault.cause := by
  obtain ⟨after, ho⟩ := fault?_eq_some_iff.mp hf
  have hplan (p : Program) : (programPlan p).Blames only := by
    induction p with
    | nil => exact trivial
    | cons s rest ih =>
      intro completion
      cases completion with
      | broke => exact Plan.blames_only (blames_fail hstray)
      | normal => exact ih
      | returned value => exact ih
  rw [outcome, runProgram_eq] at ho
  rcases (hplan run.program).of_error ho with hc | ⟨t, m, after', ha, hs⟩
  · exact hc
  · have hroot : run.Starts ⟨run.steps, t, m⟩ := ⟨rfl, ha⟩
    exact Call.blames (fun trail c hr => h trail c ⟨_, hroot, hr⟩) hs

/-! ### Operators -/

lemma known_of_applyUnary {operator : TokenKind} {operand : Value} {cause : Cause}
    (hk : operator ∈ unaryOperators) (h : Value.applyUnary operator operand = .error cause) :
    cause.Known := by
  rcases cause_of_applyUnary h with rfl | ⟨-, hn⟩
  · decide
  · exact absurd hk hn

lemma known_of_applyBinary {store : Store} {operator : TokenKind} {a b : Value} {cause : Cause}
    (hk : operator ∈ binaryOperators)
    (h : Value.applyBinary store operator a b = .error cause) : cause.Known := by
  have table : ∀ cause ∈ [Cause.operandsNotOrdered, .operandsNotNumbers, .zeroDivision,
      .operandsNotAddable], cause.Known := by
    decide
  rcases cause_of_applyBinary h with hc | ⟨-, hn⟩
  · exact table cause hc
  · exact absurd hk hn

lemma known_of_getAt {s : Store} {f : FrameId} {distance : Nat} {name : String} {cause : Cause}
    (h : s.getAt f distance name = .error cause) : cause.Known := by
  rcases Store.getAt_error h with rfl | ⟨_, rfl⟩
  · decide
  · exact ⟨nofun, nofun⟩

lemma blames_readVariable (id : NodeId) (name : Token) :
    Blames Cause.Known (readVariable id name) := by
  refine blames_get.bind fun m => blames_ofExcept fun cause hc => ?_
  split at hc
  · exact known_of_getAt hc
  · rcases Store.get_error hc with rfl | rfl
    · decide
    · exact ⟨nofun, nofun⟩

lemma blames_writeVariable (id : NodeId) (name : Token) (value : Value) :
    Blames Cause.Known (writeVariable id name value) := by
  refine blames_get.bind fun m => (blames_ofExcept fun cause hc => ?_).bind fun frame =>
    blames_changeStore _
  split at hc
  · obtain ⟨_, rfl⟩ := Store.locateAt_error hc
    exact ⟨nofun, nofun⟩
  · obtain rfl := Store.locate_error hc
    exact ⟨nofun, nofun⟩

lemma blames_readProperty (object : Value) (name : Token) :
    Blames Cause.Known (readProperty object name) := by
  cases object with
  | instanceRef i =>
    intro m fault after h
    rw [readProperty_instanceRef] at h
    refine blames_ofExcept (fun cause hc => ?_) _ fault after h
    obtain rfl := cause_of_property hc
    exact ⟨nofun, nofun⟩
  | _ => exact blames_fail (by decide)

lemma blames_readSuper (id : NodeId) (keyword method : Token) :
    Blames Cause.Known (readSuper id keyword method) := by
  refine blames_get.bind fun m => ?_
  split
  · exact blames_fail (by decide)
  · refine (blames_ofExcept fun _ => known_of_getAt).bind fun superclass => ?_
    split
    · refine (blames_ofExcept fun _ => known_of_getAt).bind fun receiver => ?_
      split
      · exact blames_fail ⟨nofun, nofun⟩
      · exact blames_updateStore _
    · exact blames_fail ⟨nofun, nofun⟩

lemma blames_print (text : String) (line : Nat) :
    Blames Cause.Known (Exec.print text line) := by
  refine (blames_of_ok fun _ => ⟨_, _, rfl⟩).bind fun taken => ?_
  split_ifs
  · exact blames_of_ok fun _ => ⟨_, _, rfl⟩
  · exact blames_fail (by decide)

lemma blames_defineHere (name : String) (value : Value) :
    Blames Cause.Known (defineHere name value) :=
  blames_get.bind fun _ => blames_changeStore _

lemma blames_declareClass (name : Token) (superclass : Option ClassId)
    (methods : List FunctionDecl) (getters : List GetterDecl) :
    Blames Cause.Known (declareClass name superclass methods getters) := by
  have hbind (closure scope : FrameId) : Blames Cause.Known (do
      let c ← Exec.updateStore fun store =>
        let ancestors := (superclass.map store.lineage).getD []
        store.addClass
          ⟨name.lexeme, ancestors, methodRecord closure methods, getterRecord closure getters, none⟩
      let frame ← Exec.ofExcept name.line ((← Exec.store).locate scope name.lexeme)
      Exec.changeStore (·.define frame name.lexeme (.classRef c)) : Exec Unit) := by
    refine (blames_updateStore _).bind fun c => blames_store.bind fun store =>
      (blames_ofExcept fun cause hc => ?_).bind fun frame => blames_changeStore _
    obtain rfl := Store.locate_error hc
    exact ⟨nofun, nofun⟩
  refine (blames_defineHere _ _).bind fun _ => blames_get.bind fun m => ?_
  cases superclass with
  | none => exact hbind m.scope m.scope
  | some k => exact (blames_updateStore _).bind fun closure => hbind closure m.scope

lemma blames_resultOf (line : Nat) (completion : Completion) :
    Blames Cause.Known (resultOf line completion) := by
  cases completion with
  | normal => exact blames_of_ok fun _ => ⟨_, _, rfl⟩
  | returned value => exact blames_of_ok fun _ => ⟨_, _, rfl⟩
  | broke => exact blames_fail (by decide)

section

variable {Name : Token → Prop}

lemma exprPlan_blames {e : Expr} (h : e.Built Name) : (Task.exprPlan e).Blames Cause.Known := by
  cases e with
  | literal value => exact trivial
  | grouping inner => exact Plan.blames_tail _
  | unary operator operand =>
    exact fun value => Plan.blames_only (blames_ofExcept fun _ => known_of_applyUnary h)
  | binary left operator right =>
    exact fun a b => ⟨blames_store, fun store =>
      Plan.blames_only (blames_ofExcept fun _ => known_of_applyBinary h)⟩
  | logical left operator right =>
    intro a
    dsimp only
    split_ifs
    · exact trivial
    · exact Plan.blames_tail _
    · exact fun _ => trivial
    · exact trivial
  | ternary condition first second =>
    intro value
    dsimp only
    split
    · exact Plan.blames_tail _
    · exact Plan.blames_tail _
  | name id name => exact Plan.blames_only (blames_readVariable id name)
  | this id keyword => exact Plan.blames_only (blames_readVariable id keyword)
  | assign id name value =>
    exact fun value => ⟨blames_writeVariable id name value, fun _ => trivial⟩
  | call callee paren arguments => exact fun _ _ => Plan.blames_tail _
  | get object name =>
    refine fun object => ⟨blames_readProperty object name, fun property =>
      ⟨blames_store, fun store => ?_⟩⟩
    dsimp only
    split
    · exact fun _ => trivial
    · exact trivial
  | nilGet object name =>
    intro object
    dsimp only
    split
    · exact trivial
    · exact Plan.blames_only (blames_readProperty _ name)
  | set object name value =>
    intro object
    dsimp only
    split
    · exact fun value => ⟨blames_changeStore _, fun _ => trivial⟩
    · exact Plan.blames_only (blames_fail (by decide))
  | super id keyword method => exact Plan.blames_only (blames_readSuper id keyword method)
  | lambda declaration =>
    exact Plan.blames_only (blames_get.bind fun _ => blames_updateStore _)

lemma stmtPlan_blames (s : Stmt) : (Task.stmtPlan s).Blames Cause.Known := by
  cases s with
  | expression value => exact fun _ => trivial
  | print keyword value =>
    exact fun value => ⟨blames_store, fun store => ⟨blames_print _ _, fun _ => trivial⟩⟩
  | var name initializer =>
    cases initializer with
    | none => exact ⟨blames_get, fun m => ⟨blames_changeStore _, fun _ => trivial⟩⟩
    | some value => exact fun value => ⟨blames_defineHere _ _, fun _ => trivial⟩
  | block body => exact ⟨blames_get, fun m => ⟨blames_updateStore _, fun _ _ => trivial⟩⟩
  | function declaration =>
    exact ⟨blames_get.bind fun _ => blames_updateStore _, fun value =>
      ⟨blames_defineHere _ _, fun _ => trivial⟩⟩
  | getter declaration =>
    exact ⟨blames_get.bind fun _ => blames_updateStore _, fun value =>
      ⟨blames_defineHere _ _, fun _ => trivial⟩⟩
  | classDecl name superclass methods getters =>
    cases superclass with
    | none => exact ⟨blames_declareClass _ _ _ _, fun _ => trivial⟩
    | some superclass =>
      intro value
      cases value with
      | classRef c => exact ⟨blames_declareClass _ _ _ _, fun _ => trivial⟩
      | _ => exact Plan.blames_only (blames_fail (by decide))
  | ifStmt condition consequent alternative =>
    intro value
    dsimp only
    split_ifs
    · exact Plan.blames_tail _
    · cases alternative with
      | none => exact trivial
      | some other => exact Plan.blames_tail _
  | whileStmt condition body => exact Plan.blames_tail _
  | breakStmt keyword => exact trivial
  | returnStmt keyword value =>
    cases value with
    | none => exact trivial
    | some value => exact fun _ => trivial

/-- A call for code that is built as in a script blames no operator for being unknown. -/
theorem plan_blames {t : Task} (h : ∀ x, t.place? = some x → x.Built Name) :
    t.plan.Blames Cause.Known := by
  cases t with
  | expr e => exact exprPlan_blames (h _ rfl)
  | exprs es =>
    cases es with
    | nil => exact trivial
    | cons e es => exact fun _ _ => trivial
  | call callee line arguments =>
    refine ⟨blames_store, fun store => ?_⟩
    cases callee with
    | callable id =>
      dsimp only
      split
      · exact Plan.blames_only (blames_fail (by decide))
      · split_ifs
        · exact Plan.blames_tail _
        · exact Plan.blames_only (blames_fail ⟨nofun, nofun⟩)
    | classRef c =>
      dsimp only
      split_ifs
      · exact Plan.blames_tail _
      · exact Plan.blames_only (blames_fail ⟨nofun, nofun⟩)
    | _ => exact Plan.blames_only (blames_fail (by decide))
  | callable k arguments =>
    cases k with
    | function f => exact Plan.blames_tail _
    | getter g => exact Plan.blames_tail _
    | builtin b => exact Plan.blames_only (blames_of_quiet (b.run_quiet arguments))
    | hostMethod method i => exact Plan.blames_only (blames_of_quiet (method.run_quiet i arguments))
  | function f arguments =>
    refine ⟨blames_updateStore _, fun frame completion => ⟨blames_resultOf _ _, fun result => ?_⟩⟩
    split_ifs
    · exact ⟨blames_store, fun store =>
        Plan.blames_only (blames_ofExcept fun _ => known_of_getAt)⟩
    · exact trivial
  | getter g =>
    exact ⟨blames_updateStore _, fun frame completion =>
      Plan.blames_only (blames_resultOf _ _)⟩
  | construct c arguments =>
    refine ⟨blames_store, fun store => ?_⟩
    dsimp only
    split
    · next host _ => exact Plan.blames_only (blames_of_quiet (host.construct_quiet c arguments))
    · refine ⟨blames_updateStore _, fun i => ?_⟩
      split
      · exact trivial
      · exact ⟨blames_updateStore _, fun bound _ => trivial⟩
  | stmt s => exact stmtPlan_blames s
  | loop condition body =>
    intro value
    dsimp only
    split_ifs
    · intro completion
      cases completion with
      | normal => exact Plan.blames_tail _
      | broke => exact trivial
      | returned value => exact trivial
    · exact trivial
  | stmts ss =>
    cases ss with
    | nil => exact trivial
    | cons s ss =>
      intro completion
      cases completion with
      | normal => exact Plan.blames_tail _
      | broke => exact trivial
      | returned value => exact trivial

end

end Eval

end Scripting
