import Scripting.Proofs.Eval.Flow
import Scripting.Proofs.Eval.Mirroring

/-!
# Running renamed programs

Evaluation looks at neither identities nor lines, other than to look up a distance and to blame a
fault. So running a renamed program on a machine that mirrors another one goes the same way: it
gives the same values, prints and reads the same, and ends in the same fault on the renamed line.
`Lockstep` collects this for everything that the evaluator does within a number of steps.
-/

namespace Scripting

open Exec

namespace Eval

variable {ρ : Renaming} {told told' : Nat}

/-! ### Actions of the evaluator -/

lemma readVariable_mirrors (id : NodeId) (name : Token) :
    Mirrors ρ told told' Eq (readVariable id name)
      (readVariable (ρ.node id) (name.rename ρ)) := by
  refine Mirrors.bind Mirrors.get fun m m' hm => ?_
  rw [hm.get?_eq, hm.store_eq, hm.scope_eq]
  exact Mirrors.ofExcept name.line _

lemma writeVariable_mirrors (id : NodeId) (name : Token) (value : Value) :
    Mirrors ρ told told' Eq (writeVariable id name value)
      (writeVariable (ρ.node id) (name.rename ρ) value) := by
  refine Mirrors.bind Mirrors.get fun m m' hm => ?_
  rw [hm.get?_eq, hm.store_eq, hm.scope_eq]
  exact Mirrors.bind_eq (Mirrors.ofExcept name.line _) fun frame =>
    Mirrors.changeStore fun _ => rfl

lemma defineHere_mirrors (name : String) (value : Value) :
    Mirrors ρ told told' Eq (defineHere name value) (defineHere name value) := by
  refine Mirrors.bind Mirrors.get fun m m' hm => ?_
  rw [hm.scope_eq]
  exact Mirrors.changeStore fun _ => rfl

lemma makeFunction_mirrors (d : FunctionDecl) :
    Mirrors ρ told told' Eq (makeFunction d) (makeFunction (d.rename ρ)) := by
  refine Mirrors.bind Mirrors.get fun m m' hm => ?_
  rw [hm.scope_eq]
  exact Mirrors.updateStore_eq fun s => s.addFunction_rename ρ ⟨d, m.scope, false⟩

lemma makeGetter_mirrors (d : GetterDecl) :
    Mirrors ρ told told' Eq (makeGetter d) (makeGetter (d.rename ρ)) := by
  refine Mirrors.bind Mirrors.get fun m m' hm => ?_
  rw [hm.scope_eq]
  exact Mirrors.updateStore_eq fun s => s.addGetter_rename ρ ⟨d, m.scope⟩

lemma readProperty_mirrors (object : Value) (name : Token) :
    Mirrors ρ told told' Eq (readProperty object name)
      (readProperty object (name.rename ρ)) := by
  cases object with
  | instanceRef i =>
    exact Mirrors.bind_eq (Mirrors.updateStore_eq fun s => s.property_rename ρ i name.lexeme)
      fun outcome => Mirrors.ofExcept name.line outcome
  | _ => exact Mirrors.fail .noProperties name.line

lemma readSuper_mirrors (id : NodeId) (keyword method : Token) :
    Mirrors ρ told told' Eq (readSuper id keyword method)
      (readSuper (ρ.node id) (keyword.rename ρ) (method.rename ρ)) := by
  refine Mirrors.bind Mirrors.get fun m m' hm => ?_
  rw [hm.get?_eq, hm.store_eq, hm.scope_eq]
  cases m.distances.get? id with
  | none => exact Mirrors.fail .superUnresolved keyword.line
  | some distance =>
    refine Mirrors.bind_eq (Mirrors.ofExcept keyword.line _) fun superclass => ?_
    cases superclass with
    | classRef c =>
      refine Mirrors.bind_eq (Mirrors.ofExcept keyword.line _) fun receiver => ?_
      rw [Store.findMethod?_rename, Token.rename_lexeme]
      cases m.store.findMethod? c method.lexeme with
      | none => exact Mirrors.fail (.undefinedProperty method.lexeme) method.line
      | some function =>
        refine Mirrors.updateStore_eq fun s => ?_
        simp only [Store.bindFunction_rename, Store.addFunction_rename]
    | _ =>
      simp only [Store.display_rename]
      exact Mirrors.fail (.superNotClass _) keyword.line

lemma methodRecord_rename (scope : FrameId) (methods : List FunctionDecl) :
    methodRecord scope (renameFunctions ρ methods) =
      (methodRecord scope methods).mapEntries (Function.rename ρ) := by
  have fold : ∀ (methods : List FunctionDecl) (record : Record Function),
      (renameFunctions ρ methods).foldl (fun record d =>
        record.insert d.name.lexeme ⟨d, scope, d.name.lexeme = Store.initializerName⟩)
        (record.mapEntries (Function.rename ρ)) =
      (methods.foldl (fun record d =>
        record.insert d.name.lexeme ⟨d, scope, d.name.lexeme = Store.initializerName⟩)
        record).mapEntries (Function.rename ρ) := by
    intro methods
    induction methods with
    | nil => exact fun _ => by simp only [renameFunctions, List.foldl_nil]
    | cons d methods ih =>
      intro record
      rw [renameFunctions, List.foldl_cons, List.foldl_cons, ← ih, ← Record.insert_mapEntries]
      simp only [FunctionDecl.rename_name, Token.rename_lexeme]
      rfl
  exact fold methods []

lemma getterRecord_rename (scope : FrameId) (getters : List GetterDecl) :
    getterRecord scope (renameGetters ρ getters) =
      (getterRecord scope getters).mapEntries (Getter.rename ρ) := by
  have fold : ∀ (getters : List GetterDecl) (record : Record Getter),
      (renameGetters ρ getters).foldl (fun record d =>
        record.insert d.name.lexeme ⟨d, scope⟩) (record.mapEntries (Getter.rename ρ)) =
      (getters.foldl (fun record d =>
        record.insert d.name.lexeme ⟨d, scope⟩) record).mapEntries (Getter.rename ρ) := by
    intro getters
    induction getters with
    | nil => exact fun _ => by simp only [renameGetters, List.foldl_nil]
    | cons d getters ih =>
      intro record
      rw [renameGetters, List.foldl_cons, List.foldl_cons, ← ih, ← Record.insert_mapEntries]
      simp only [GetterDecl.rename_name, Token.rename_lexeme]
      rfl
  exact fold getters []

lemma declareClass_mirrors (name : Token) (superclass : Option ClassId)
    (methods : List FunctionDecl) (getters : List GetterDecl) :
    Mirrors ρ told told' Eq (declareClass name superclass methods getters)
      (declareClass (name.rename ρ) superclass (renameFunctions ρ methods)
        (renameGetters ρ getters)) := by
  refine Mirrors.bind_eq (defineHere_mirrors _ _) fun _ => ?_
  refine Mirrors.bind Mirrors.get fun m m' hm => ?_
  rw [hm.scope_eq]
  -- the class is made, and found again under its name
  have made : ∀ closure : FrameId, Mirrors ρ told told' Eq
      (do
        let c ← Exec.updateStore fun store =>
          let ancestors := (superclass.map store.lineage).getD []
          store.addClass ⟨name.lexeme, ancestors, methodRecord closure methods,
            getterRecord closure getters, none⟩
        let frame ← Exec.ofExcept name.line ((← Exec.store).locate m.scope name.lexeme)
        Exec.changeStore (·.define frame name.lexeme (.classRef c)) : Exec Unit)
      (do
        let c ← Exec.updateStore fun store =>
          let ancestors := (superclass.map store.lineage).getD []
          store.addClass ⟨name.lexeme, ancestors, methodRecord closure (renameFunctions ρ methods),
            getterRecord closure (renameGetters ρ getters), none⟩
        let frame ← Exec.ofExcept (ρ.line name.line)
          ((← Exec.store).locate m.scope name.lexeme)
        Exec.changeStore (·.define frame name.lexeme (.classRef c))) := by
    intro closure
    refine Mirrors.bind_eq (Mirrors.updateStore_eq fun s => ?_) fun c => ?_
    · have hl : superclass.map (s.rename ρ).lineage = superclass.map s.lineage := by
        cases superclass with
        | none => rfl
        | some c => exact congrArg some (s.lineage_rename ρ c)
      simp only [hl, methodRecord_rename, getterRecord_rename]
      exact s.addClass_rename ρ ⟨name.lexeme, (superclass.map s.lineage).getD [],
        methodRecord closure methods, getterRecord closure getters, none⟩
    · refine Mirrors.bind Mirrors.store ?_
      rintro s _ rfl
      exact Mirrors.bind_eq (Mirrors.ofExcept name.line _) fun frame =>
        Mirrors.changeStore fun _ => rfl
  cases superclass with
  | none => exact made m.scope
  | some c => exact Mirrors.bind_eq (Mirrors.updateStore_eq fun _ => rfl) made

lemma resultOf_mirrors (line : Nat) (completion : Completion) :
    Mirrors ρ told told' Eq (resultOf line completion) (resultOf (ρ.line line) completion) := by
  cases completion with
  | normal => exact Mirrors.pure rfl
  | returned value => exact Mirrors.pure rfl
  | broke => exact Mirrors.fail _ _

lemma bindParameters_rename (params : List Token) (arguments : List Value) :
    bindParameters (params.map (Token.rename ρ)) arguments = bindParameters params arguments := by
  simp only [bindParameters, List.zip_map_left, List.foldl_map]
  rfl

lemma superclassToken_rename (ρ : Renaming) (name : Token) (superclass : Expr) :
    superclassToken (name.rename ρ) (superclass.rename ρ) =
      (superclassToken name superclass).rename ρ := by
  cases superclass <;> simp only [superclassToken, Expr.rename]

/-! ### Everything that the evaluator does -/

/-- Within a number of steps, everything with renamed code goes the same way. -/
structure Lockstep (ρ : Renaming) (told told' : Nat) (steps : Nat) : Prop where
  evaluate : ∀ e, Mirrors ρ told told' Eq (evaluate steps e) (evaluate steps (e.rename ρ))
  evaluateAll : ∀ es, Mirrors ρ told told' Eq (evaluateAll steps es)
    (evaluateAll steps (renameExprs ρ es))
  call : ∀ callee line arguments, Mirrors ρ told told' Eq (call steps callee line arguments)
    (call steps callee (ρ.line line) arguments)
  run : ∀ k arguments, Mirrors ρ told told' Eq (run steps k arguments)
    (run steps (k.rename ρ) arguments)
  runFunction : ∀ f arguments, Mirrors ρ told told' Eq (runFunction steps f arguments)
    (runFunction steps (f.rename ρ) arguments)
  runGetter : ∀ g, Mirrors ρ told told' Eq (runGetter steps g) (runGetter steps (g.rename ρ))
  construct : ∀ c arguments, Mirrors ρ told told' Eq (construct steps c arguments)
    (construct steps c arguments)
  execute : ∀ s, Mirrors ρ told told' Eq (execute steps s) (execute steps (s.rename ρ))
  repeatWhile : ∀ condition body, Mirrors ρ told told' Eq (repeatWhile steps condition body)
    (repeatWhile steps (condition.rename ρ) (body.rename ρ))
  executeAll : ∀ ss, Mirrors ρ told told' Eq (executeAll steps ss)
    (executeAll steps (renameStmts ρ ss))

section Step

variable {steps : Nat} (h : Lockstep ρ told told' steps)

include h

lemma evaluate_mirrors (e : Expr) :
    Mirrors ρ told told' Eq (evaluate (steps + 1) e) (evaluate (steps + 1) (e.rename ρ)) := by
  cases e with
  | literal value => exact Mirrors.pure rfl
  | grouping inner => exact h.evaluate inner
  | unary operator operand =>
    exact Mirrors.bind_eq (h.evaluate operand) fun value => Mirrors.ofExcept operator.line _
  | binary left operator right =>
    refine Mirrors.bind_eq (h.evaluate left) fun a => ?_
    refine Mirrors.bind_eq (Mirrors.holding a (h.evaluate right)) fun b => ?_
    refine Mirrors.bind Mirrors.store ?_
    rintro s _ rfl
    have happly : Value.applyBinary (s.rename ρ) operator.kind a b =
        Value.applyBinary s operator.kind a b := by
      have hadd : Value.add (s.rename ρ) a b = Value.add s a b := by
        cases a <;> cases b <;> simp [Value.add]
      unfold Value.applyBinary
      rw [hadd]
    rw [Token.rename_kind, happly]
    exact Mirrors.ofExcept operator.line _
  | logical left operator right =>
    refine Mirrors.bind_eq (h.evaluate left) fun a => ?_
    rw [Token.rename_kind]
    split_ifs
    · exact Mirrors.pure rfl
    · exact h.evaluate right
    · exact Mirrors.holding a (h.evaluate right)
    · exact Mirrors.pure rfl
  | ternary condition first second =>
    refine Mirrors.bind_eq (h.evaluate condition) fun a => ?_
    split
    · exact h.evaluate first
    · exact h.evaluate second
  | name id name => exact readVariable_mirrors id name
  | this id keyword => exact readVariable_mirrors id keyword
  | assign id name value =>
    refine Mirrors.bind_eq (h.evaluate value) fun v => ?_
    exact Mirrors.bind_eq (writeVariable_mirrors id name v) fun _ => Mirrors.pure rfl
  | call callee paren arguments =>
    refine Mirrors.bind_eq (h.evaluate callee) fun f => ?_
    refine Mirrors.bind_eq (Mirrors.holding f (h.evaluateAll arguments)) fun values => ?_
    exact h.call f paren.line values
  | get object name =>
    refine Mirrors.bind_eq (h.evaluate object) fun v => ?_
    refine Mirrors.bind_eq (readProperty_mirrors v name) fun property => ?_
    refine Mirrors.bind Mirrors.store ?_
    rintro s _ rfl
    rw [Store.getter?_rename]
    cases s.getter? property with
    | none => exact Mirrors.pure rfl
    | some g => exact Mirrors.holding v (h.runGetter g)
  | nilGet object name =>
    refine Mirrors.bind_eq (h.evaluate object) fun v => ?_
    cases v with
    | nil => exact Mirrors.pure rfl
    | _ => exact readProperty_mirrors _ name
  | set object name value =>
    refine Mirrors.bind_eq (h.evaluate object) fun v => ?_
    cases v with
    | instanceRef i =>
      refine Mirrors.bind_eq (Mirrors.holding _ (h.evaluate value)) fun v => ?_
      exact Mirrors.bind_eq (Mirrors.changeStore fun _ => rfl) fun _ => Mirrors.pure rfl
    | _ => exact Mirrors.fail .noFields name.line
  | super id keyword method => exact readSuper_mirrors id keyword method
  | lambda declaration => exact makeFunction_mirrors declaration

lemma evaluateAll_mirrors (es : List Expr) :
    Mirrors ρ told told' Eq (evaluateAll (steps + 1) es)
      (evaluateAll (steps + 1) (renameExprs ρ es)) := by
  cases es with
  | nil => exact Mirrors.pure rfl
  | cons e es =>
    refine Mirrors.bind_eq (h.evaluate e) fun value => ?_
    exact Mirrors.bind_eq (Mirrors.holding value (h.evaluateAll es)) fun values =>
      Mirrors.pure rfl

lemma call_mirrors (callee : Value) (line : Nat) (arguments : List Value) :
    Mirrors ρ told told' Eq (call (steps + 1) callee line arguments)
      (call (steps + 1) callee (ρ.line line) arguments) := by
  refine Mirrors.bind Mirrors.store ?_
  rintro s _ rfl
  cases callee with
  | callable id =>
    dsimp only
    rw [Store.getElem?_callables_rename]
    cases s.callables[id]? with
    | none => exact Mirrors.fail .notCallable line
    | some k =>
      simp only [Option.map_some, Callable.arity_rename]
      split
      · exact h.run k arguments
      · exact Mirrors.fail (.arityMismatch _ _) line
  | classRef c =>
    simp only [Store.classArity_rename]
    split
    · exact h.construct c arguments
    · exact Mirrors.fail (.arityMismatch _ _) line
  | _ => exact Mirrors.fail .notCallable line

lemma run_mirrors (k : Callable) (arguments : List Value) :
    Mirrors ρ told told' Eq (run (steps + 1) k arguments)
      (run (steps + 1) (k.rename ρ) arguments) := by
  cases k with
  | function f => exact h.runFunction f arguments
  | getter g => exact h.runGetter g
  | builtin b => exact b.run_neutral arguments
  | hostMethod method receiver => exact method.run_neutral receiver arguments

lemma runFunction_mirrors (f : Function) (arguments : List Value) :
    Mirrors ρ told told' Eq (runFunction (steps + 1) f arguments)
      (runFunction (steps + 1) (f.rename ρ) arguments) := by
  have hd : (f.rename ρ).declaration = f.declaration.rename ρ := rfl
  unfold runFunction
  simp only [hd, FunctionDecl.rename_params, FunctionDecl.rename_body, FunctionDecl.rename_name,
    Token.rename_line, bindParameters_rename]
  refine Mirrors.bind_eq (Mirrors.updateStore_eq fun _ => rfl) fun frame => ?_
  refine Mirrors.bind_eq (Mirrors.within frame (h.executeAll _)) fun completion => ?_
  refine Mirrors.bind_eq (resultOf_mirrors _ completion) fun result => ?_
  rw [show (f.rename ρ).isInitializer = f.isInitializer from rfl]
  split
  · refine Mirrors.bind Mirrors.store ?_
    rintro s _ rfl
    exact Mirrors.ofExcept f.declaration.name.line _
  · exact Mirrors.pure rfl

lemma runGetter_mirrors (g : Getter) :
    Mirrors ρ told told' Eq (runGetter (steps + 1) g)
      (runGetter (steps + 1) (g.rename ρ)) := by
  have hd : (g.rename ρ).declaration = g.declaration.rename ρ := rfl
  unfold runGetter
  simp only [hd, GetterDecl.rename_body, GetterDecl.rename_name, Token.rename_line]
  refine Mirrors.bind_eq (Mirrors.updateStore_eq fun _ => rfl) fun frame => ?_
  refine Mirrors.bind_eq (Mirrors.within frame (h.executeAll _)) fun completion => ?_
  exact resultOf_mirrors _ completion

lemma construct_mirrors (c : ClassId) (arguments : List Value) :
    Mirrors ρ told told' Eq (construct (steps + 1) c arguments)
      (construct (steps + 1) c arguments) := by
  refine Mirrors.bind Mirrors.store ?_
  rintro s _ rfl
  rw [Store.host_rename]
  cases (s.classes[c]?).bind Class.host with
  | some host => exact host.construct_neutral c arguments
  | none =>
    dsimp only
    refine Mirrors.bind_eq (Mirrors.updateStore_eq fun _ => rfl) fun i => ?_
    rw [Store.findMethod?_rename]
    cases s.findMethod? c Store.initializerName with
    | none => exact Mirrors.pure rfl
    | some initializer =>
      refine Mirrors.bind (R := fun f f' => f' = f.rename ρ)
        (Mirrors.updateStore fun _ => ⟨rfl, rfl⟩) ?_
      rintro bound _ rfl
      exact Mirrors.bind_eq (h.runFunction bound arguments) fun _ => Mirrors.pure rfl

lemma execute_mirrors (s : Stmt) :
    Mirrors ρ told told' Eq (execute (steps + 1) s) (execute (steps + 1) (s.rename ρ)) := by
  cases s with
  | expression value => exact Mirrors.bind_eq (h.evaluate value) fun _ => Mirrors.pure rfl
  | print keyword value =>
    refine Mirrors.bind_eq (h.evaluate value) fun v => ?_
    refine Mirrors.bind Mirrors.store ?_
    rintro s _ rfl
    rw [Store.display_rename]
    exact Mirrors.bind_eq (Mirrors.print _ keyword.line) fun _ => Mirrors.pure rfl
  | var name initializer =>
    cases initializer with
    | none =>
      refine Mirrors.bind Mirrors.get fun m m' hm => ?_
      rw [hm.scope_eq]
      exact Mirrors.bind_eq (Mirrors.changeStore fun _ => rfl) fun _ => Mirrors.pure rfl
    | some value =>
      refine Mirrors.bind_eq (h.evaluate value) fun v => ?_
      exact Mirrors.bind_eq (defineHere_mirrors _ _) fun _ => Mirrors.pure rfl
  | block body =>
    refine Mirrors.bind Mirrors.get fun m m' hm => ?_
    rw [hm.scope_eq]
    refine Mirrors.bind_eq (Mirrors.updateStore_eq fun _ => rfl) fun frame => ?_
    exact Mirrors.within frame (h.executeAll body)
  | function declaration =>
    refine Mirrors.bind_eq (makeFunction_mirrors declaration) fun value => ?_
    rw [FunctionDecl.rename_name]
    exact Mirrors.bind_eq (defineHere_mirrors _ _) fun _ => Mirrors.pure rfl
  | getter declaration =>
    refine Mirrors.bind_eq (makeGetter_mirrors declaration) fun value => ?_
    rw [GetterDecl.rename_name]
    exact Mirrors.bind_eq (defineHere_mirrors _ _) fun _ => Mirrors.pure rfl
  | classDecl name superclass methods getters =>
    cases superclass with
    | none =>
      exact Mirrors.bind_eq (declareClass_mirrors name none methods getters) fun _ =>
        Mirrors.pure rfl
    | some superclass =>
      refine Mirrors.bind_eq (h.evaluate superclass) fun v => ?_
      cases v with
      | classRef c =>
        exact Mirrors.bind_eq (declareClass_mirrors name (some c) methods getters) fun _ =>
          Mirrors.pure rfl
      | _ =>
        have ht := superclassToken_rename ρ name superclass
        refine Mirrors.bind_eq ?_ fun _ => Mirrors.pure rfl
        simp only [ht, Token.rename_line]
        exact Mirrors.fail .superclassNotClass (superclassToken name superclass).line
  | ifStmt condition consequent alternative =>
    cases alternative with
    | none =>
      refine Mirrors.bind_eq (h.evaluate condition) fun v => ?_
      split
      · exact h.execute consequent
      · exact Mirrors.pure rfl
    | some alternative =>
      refine Mirrors.bind_eq (h.evaluate condition) fun v => ?_
      split
      · exact h.execute consequent
      · exact h.execute alternative
  | whileStmt condition body => exact h.repeatWhile condition body
  | breakStmt keyword => exact Mirrors.pure rfl
  | returnStmt keyword value =>
    cases value with
    | none => exact Mirrors.pure rfl
    | some value => exact Mirrors.bind_eq (h.evaluate value) fun _ => Mirrors.pure rfl

lemma repeatWhile_mirrors (condition : Expr) (body : Stmt) :
    Mirrors ρ told told' Eq (repeatWhile (steps + 1) condition body)
      (repeatWhile (steps + 1) (condition.rename ρ) (body.rename ρ)) := by
  refine Mirrors.bind_eq (h.evaluate condition) fun v => ?_
  split
  · refine Mirrors.bind_eq (h.execute body) fun completion => ?_
    cases completion with
    | normal => exact h.repeatWhile condition body
    | broke => exact Mirrors.pure rfl
    | returned value => exact Mirrors.pure rfl
  · exact Mirrors.pure rfl

lemma executeAll_mirrors (ss : List Stmt) :
    Mirrors ρ told told' Eq (executeAll (steps + 1) ss)
      (executeAll (steps + 1) (renameStmts ρ ss)) := by
  cases ss with
  | nil => exact Mirrors.pure rfl
  | cons s ss =>
    refine Mirrors.bind_eq (h.execute s) fun completion => ?_
    cases completion with
    | normal => exact h.executeAll ss
    | broke => exact Mirrors.pure rfl
    | returned value => exact Mirrors.pure rfl

end Step

/-- Everything with renamed code goes the same way. -/
theorem lockstep (ρ : Renaming) (told told' : Nat) (steps : Nat) :
    Lockstep ρ told told' steps := by
  induction steps with
  | zero => constructor <;> intros <;> exact Mirrors.throw .exhausted
  | succ steps h =>
    exact ⟨evaluate_mirrors h, evaluateAll_mirrors h, call_mirrors h, run_mirrors h,
      runFunction_mirrors h, runGetter_mirrors h, construct_mirrors h, execute_mirrors h,
      repeatWhile_mirrors h, executeAll_mirrors h⟩

/-- A renamed program runs like the program. There must be no `break` for which there is no loop,
since that is blamed on no line of the program. -/
theorem runProgram_mirrors (steps : Nat) {p : Program} (hp : ∀ s ∈ p, ¬ s.Breaks) :
    Mirrors ρ told told' Eq (runProgram steps p) (runProgram steps (renameStmts ρ p)) := by
  induction p with
  | nil => exact Mirrors.pure rfl
  | cons s rest ih =>
    have ih := ih fun s hs => hp s (List.mem_cons_of_mem _ hs)
    intro m m' hm
    have hs := (lockstep ρ told told' steps).execute s m m' hm
    have hflow : ∀ completion after, execute steps s m = .ok completion after →
        completion ≠ .broke := by
      rintro completion after he rfl
      exact hp s List.mem_cons_self (Task.flows (t := .stmt s) he)
    rw [renameStmts]
    unfold runProgram
    cases he : execute steps s m with
    | error stop after =>
      cases he' : execute steps (s.rename ρ) m' with
      | ok completion after' =>
        rw [he, he'] at hs
        exact hs.elim
      | error stop' after' =>
        rw [he, he'] at hs
        rw [bind_of_error he, bind_of_error he']
        exact hs
    | ok completion after =>
      cases he' : execute steps (s.rename ρ) m' with
      | error stop' after' =>
        rw [he, he'] at hs
        exact hs.elim
      | ok completion' after' =>
        rw [he, he'] at hs
        obtain ⟨rfl, hafter⟩ := hs
        rw [bind_of_ok he, bind_of_ok he']
        cases completion with
        | normal => exact ih after after' hafter
        | returned value => exact ih after after' hafter
        | broke => exact absurd rfl (hflow _ _ he)

end Eval

end Scripting
