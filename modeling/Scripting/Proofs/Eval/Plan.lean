import Mathlib.Tactic.Common
import Scripting.Eval

/-!
# What a run asks for

The evaluator is taken apart into *tasks*: everything that it can be asked to do. What a task does
by itself, up to the tasks that it asks for in turn, is a *plan*, a tree of actions and calls.
`Task.perform_succ` says that performing a task is performing its plan, with one step less for the
calls. So whatever is shown of plans holds of the evaluator, and a plan shows every call that a run
can make and the machine on which it is made.
-/

namespace Scripting

namespace Eval

/-- What the evaluator can be asked to do. -/
inductive Task where
  | expr (e : Expr)
  | exprs (es : List Expr)
  | call (callee : Value) (line : Nat) (arguments : List Value)
  | callable (k : Callable) (arguments : List Value)
  | function (f : Function) (arguments : List Value)
  | getter (g : Getter)
  | construct (c : ClassId) (arguments : List Value)
  | stmt (s : Stmt)
  | loop (condition : Expr) (body : Stmt)
  | stmts (ss : List Stmt)

namespace Task

/-- What a task gives. -/
@[reducible] def Result : Task → Type
  | .expr _ => Value
  | .exprs _ => List Value
  | .call _ _ _ => Value
  | .callable _ _ => Value
  | .function _ _ => Value
  | .getter _ => Value
  | .construct _ _ => Value
  | .stmt _ => Completion
  | .loop _ _ => Completion
  | .stmts _ => Completion

/-- Let the evaluator do a task. -/
def perform (steps : Nat) : (t : Task) → Exec t.Result
  | .expr e => evaluate steps e
  | .exprs es => evaluateAll steps es
  | .call callee line arguments => Eval.call steps callee line arguments
  | .callable k arguments => run steps k arguments
  | .function f arguments => runFunction steps f arguments
  | .getter g => runGetter steps g
  | .construct c arguments => Eval.construct steps c arguments
  | .stmt s => execute steps s
  | .loop condition body => repeatWhile steps condition body
  | .stmts ss => executeAll steps ss

end Task

/-- On which machine a call is made. -/
inductive Mode where
  | plain
  /-- With another frame as the scope. -/
  | within (frame : FrameId)
  /-- While a value is still needed. -/
  | holding (value : Value)

namespace Mode

variable {α : Type}

/-- The machine on which a call starts. -/
def enter : Mode → Machine → Machine
  | .plain, m => m
  | .within frame, m => { m with scope := frame, held := .frame m.scope :: m.held }
  | .holding value, m => { m with held := value.references ++ m.held }

/-- The machine after a call that was made on `m` and ended on `after`. -/
def leave : Mode → Machine → Machine → Machine
  | .plain, _, after => after
  | .within _, m, after => { after with scope := m.scope, held := m.held }
  | .holding _, m, after => { after with scope := m.scope, held := m.held }

/-- An action, done on the machine of a mode. -/
def wrap : Mode → Exec α → Exec α
  | .plain, x => x
  | .within frame, x => Exec.within frame x
  | .holding value, x => Exec.holding value x

/-- How a wrapped action ends is how the action ends on the machine that it starts on. -/
lemma wrap_apply (mode : Mode) (x : Exec α) (m : Machine) :
    mode.wrap x m =
      match x (mode.enter m) with
      | .ok a after => .ok a (mode.leave m after)
      | .error stop after => .error stop (mode.leave m after) := by
  cases mode with
  | plain =>
    simp only [wrap, enter, leave]
    cases x m <;> rfl
  | within frame => rfl
  | holding value => rfl

@[simp] lemma leave_store (mode : Mode) (m after : Machine) :
    (mode.leave m after).store = after.store := by
  cases mode <;> rfl

@[simp] lemma leave_distances (mode : Mode) (m after : Machine) :
    (mode.leave m after).distances = after.distances := by
  cases mode <;> rfl

@[simp] lemma enter_store (mode : Mode) (m : Machine) : (mode.enter m).store = m.store := by
  cases mode <;> rfl

@[simp] lemma enter_distances (mode : Mode) (m : Machine) :
    (mode.enter m).distances = m.distances := by
  cases mode <;> rfl

end Mode

/-- What is done up to the calls of other tasks. -/
inductive Plan (α : Type) : Type 1 where
  | done (a : α)
  /-- An action that calls nothing. -/
  | act {γ : Type} (x : Exec γ) (next : γ → Plan α)
  | call (mode : Mode) (t : Task) (next : t.Result → Plan α)

namespace Plan

variable {α : Type}

/-- Follow a plan, given what the tasks do that it calls. -/
def perform (self : (t : Task) → Exec t.Result) : Plan α → Exec α
  | .done a => pure a
  | .act x next => do
    let g ← x
    (next g).perform self
  | .call mode t next => do
    let r ← mode.wrap (self t)
    (next r).perform self

/-- An action is all there is to do. -/
def only (x : Exec α) : Plan α :=
  .act x .done

/-- A call is all there is to do. -/
def tail (t : Task) : Plan t.Result :=
  .call .plain t .done

variable (self : (t : Task) → Exec t.Result)

@[simp] lemma perform_done (a : α) : (done a).perform self = pure a := rfl

@[simp] lemma perform_act {γ : Type} (x : Exec γ) (next : γ → Plan α) :
    (act x next).perform self = x >>= fun g => (next g).perform self := rfl

@[simp] lemma perform_call (mode : Mode) (t : Task) (next : t.Result → Plan α) :
    (call mode t next).perform self = mode.wrap (self t) >>= fun r => (next r).perform self := rfl

@[simp] lemma perform_only (x : Exec α) : (only x).perform self = x := by
  simp [only]

end Plan

namespace Task

/-- The plan of evaluating an expression. -/
def exprPlan : Expr → Plan Value
  | .literal value => .done value.toValue
  | .grouping inner => .tail (.expr inner)
  | .unary operator operand =>
    .call .plain (.expr operand) fun value =>
      .only (Exec.ofExcept operator.line (Value.applyUnary operator.kind value))
  | .binary left operator right =>
    .call .plain (.expr left) fun a =>
      .call (.holding a) (.expr right) fun b =>
        .act Exec.store fun store =>
          .only (Exec.ofExcept operator.line (Value.applyBinary store operator.kind a b))
  | .logical left operator right =>
    .call .plain (.expr left) fun a =>
      if operator.kind = .kwOr then
        if a.isTruthy then .done a else .tail (.expr right)
      else
        if a.isTruthy then .call (.holding a) (.expr right) .done else .done a
  | .ternary condition first second =>
    .call .plain (.expr condition) fun
      | .bool true => .tail (.expr first)
      | _ => .tail (.expr second)
  | .name id name => .only (readVariable id name)
  | .this id keyword => .only (readVariable id keyword)
  | .assign id name value =>
    .call .plain (.expr value) fun value =>
      .act (writeVariable id name value) fun _ => .done value
  | .call callee paren arguments =>
    .call .plain (.expr callee) fun callee =>
      .call (.holding callee) (.exprs arguments) fun arguments =>
        .tail (.call callee paren.line arguments)
  | .get object name =>
    .call .plain (.expr object) fun object =>
      .act (readProperty object name) fun property =>
        .act Exec.store fun store =>
          match store.getter? property with
          | some g => .call (.holding object) (.getter g) .done
          | none => .done property
  | .nilGet object name =>
    .call .plain (.expr object) fun
      | .nil => .done .nil
      | object => .only (readProperty object name)
  | .set object name value =>
    .call .plain (.expr object) fun
      | .instanceRef i =>
        .call (.holding (.instanceRef i)) (.expr value) fun value =>
          .act (Exec.changeStore (·.setField i name.lexeme value)) fun _ => .done value
      | _ => .only (Exec.fail .noFields name.line)
  | .super id keyword method => .only (readSuper id keyword method)
  | .lambda declaration => .only (makeFunction declaration)

/-- The plan of evaluating expressions. -/
def exprsPlan : List Expr → Plan (List Value)
  | [] => .done []
  | e :: es =>
    .call .plain (.expr e) fun value =>
      .call (.holding value) (.exprs es) fun values => .done (value :: values)

/-- The plan of a call. -/
def callPlan (callee : Value) (line : Nat) (arguments : List Value) : Plan Value :=
  .act Exec.store fun store =>
    match callee with
    | .callable id =>
      match store.callables[id]? with
      | none => .only (Exec.fail .notCallable line)
      | some k =>
        if arguments.length = k.arity then .tail (.callable k arguments)
        else .only (Exec.fail (.arityMismatch k.arity arguments.length) line)
    | .classRef c =>
      let arity := store.classArity c
      if arguments.length = arity then .tail (.construct c arguments)
      else .only (Exec.fail (.arityMismatch arity arguments.length) line)
    | _ => .only (Exec.fail .notCallable line)

/-- The plan of running a callable. -/
def callablePlan (k : Callable) (arguments : List Value) : Plan Value :=
  match k with
  | .function f => .tail (.function f arguments)
  | .getter g => .tail (.getter g)
  | .builtin builtin => .only (builtin.run arguments)
  | .hostMethod method receiver => .only (method.run receiver arguments)

/-- The plan of running the body of a function. -/
def functionPlan (f : Function) (arguments : List Value) : Plan Value :=
  .act (Exec.updateStore (·.openFrame .call f.closure
      (bindParameters f.declaration.params arguments))) fun frame =>
    .call (.within frame) (.stmts f.declaration.body) fun completion =>
      .act (resultOf f.declaration.name.line completion) fun result =>
        if f.isInitializer then
          .act Exec.store fun store =>
            .only (Exec.ofExcept f.declaration.name.line (store.getAt f.closure 0 "this"))
        else .done result

/-- The plan of running the body of a getter. -/
def getterPlan (g : Getter) : Plan Value :=
  .act (Exec.updateStore (·.openFrame .call g.closure [])) fun frame =>
    .call (.within frame) (.stmts g.declaration.body) fun completion =>
      .only (resultOf g.declaration.name.line completion)

/-- The plan of constructing an instance. -/
def constructPlan (c : ClassId) (arguments : List Value) : Plan Value :=
  .act Exec.store fun store =>
    match (store.classes[c]?).bind Class.host with
    | some host => .only (host.construct c arguments)
    | none =>
      .act (Exec.updateStore (·.addInstance ⟨c, [], none⟩)) fun i =>
        match store.findMethod? c Store.initializerName with
        | none => .done (.instanceRef i)
        | some initializer =>
          .act (Exec.updateStore (·.bindFunction initializer (.instanceRef i))) fun bound =>
            .call .plain (.function bound arguments) fun _ => .done (.instanceRef i)

/-- The plan of executing a statement. -/
def stmtPlan : Stmt → Plan Completion
  | .expression value => .call .plain (.expr value) fun _ => .done .normal
  | .print keyword value =>
    .call .plain (.expr value) fun value =>
      .act Exec.store fun store =>
        .act (Exec.print (store.display value) keyword.line) fun _ => .done .normal
  | .var name (some value) =>
    .call .plain (.expr value) fun value =>
      .act (defineHere name.lexeme value) fun _ => .done .normal
  | .var name none =>
    .act get fun m =>
      .act (Exec.changeStore (·.declare m.scope name.lexeme)) fun _ => .done .normal
  | .block body =>
    .act get fun m =>
      .act (Exec.updateStore (·.openFrame .block m.scope [])) fun frame =>
        .call (.within frame) (.stmts body) .done
  | .function declaration =>
    .act (makeFunction declaration) fun value =>
      .act (defineHere declaration.name.lexeme value) fun _ => .done .normal
  | .getter declaration =>
    .act (makeGetter declaration) fun value =>
      .act (defineHere declaration.name.lexeme value) fun _ => .done .normal
  | .classDecl name none methods getters =>
    .act (declareClass name none methods getters) fun _ => .done .normal
  | .classDecl name (some superclass) methods getters =>
    .call .plain (.expr superclass) fun
      | .classRef c => .act (declareClass name (some c) methods getters) fun _ => .done .normal
      | _ =>
        .only (Exec.fail .superclassNotClass (superclassToken name superclass).line)
  | .ifStmt condition consequent alternative =>
    .call .plain (.expr condition) fun value =>
      if value.isTruthy then .tail (.stmt consequent)
      else
        match alternative with
        | some other => .tail (.stmt other)
        | none => .done .normal
  | .whileStmt condition body => .tail (.loop condition body)
  | .breakStmt _ => .done .broke
  | .returnStmt _ (some value) => .call .plain (.expr value) fun value => .done (.returned value)
  | .returnStmt _ none => .done (.returned .nil)

/-- The plan of a loop. -/
def loopPlan (condition : Expr) (body : Stmt) : Plan Completion :=
  .call .plain (.expr condition) fun value =>
    if value.isTruthy then
      .call .plain (.stmt body) fun
        | .normal => .tail (.loop condition body)
        | .broke => .done .normal
        | .returned value => .done (.returned value)
    else .done .normal

/-- The plan of executing statements. -/
def stmtsPlan : List Stmt → Plan Completion
  | [] => .done .normal
  | s :: rest =>
    .call .plain (.stmt s) fun
      | .normal => .tail (.stmts rest)
      | completion => .done completion

/-- What a task does by itself. -/
def plan : (t : Task) → Plan t.Result
  | .expr e => exprPlan e
  | .exprs es => exprsPlan es
  | .call callee line arguments => callPlan callee line arguments
  | .callable k arguments => callablePlan k arguments
  | .function f arguments => functionPlan f arguments
  | .getter g => getterPlan g
  | .construct c arguments => constructPlan c arguments
  | .stmt s => stmtPlan s
  | .loop condition body => loopPlan condition body
  | .stmts ss => stmtsPlan ss

/-- Without steps, no task is done. -/
lemma perform_zero (t : Task) : t.perform 0 = throw .exhausted := by
  cases t <;> rfl

lemma perform_expr_succ (steps : Nat) (e : Expr) :
    (expr e).perform (steps + 1) = (exprPlan e).perform (perform steps) := by
  cases e with
  | logical left operator right =>
    simp only [perform, evaluate, exprPlan, Plan.perform_call]
    congr 1
    funext a
    split_ifs <;> simp [Plan.tail, perform, Mode.wrap]
  | ternary condition first second =>
    simp only [perform, evaluate, exprPlan, Plan.perform_call]
    congr 1
    funext v
    split <;> simp [Plan.tail, perform, Mode.wrap]
  | get object name =>
    simp only [perform, evaluate, exprPlan, Plan.perform_call, Plan.perform_act]
    congr 1
    funext v
    congr 1
    funext property
    congr 1
    funext store
    cases store.getter? property <;> simp [perform, Mode.wrap]
  | nilGet object name =>
    simp only [perform, evaluate, exprPlan, Plan.perform_call]
    congr 1
    funext v
    cases v <;> simp
  | set object name value =>
    simp only [perform, evaluate, exprPlan, Plan.perform_call]
    congr 1
    funext v
    cases v <;> simp [perform, Mode.wrap]
  | _ => simp [perform, evaluate, exprPlan, Plan.tail, Mode.wrap]

lemma perform_call_succ (steps : Nat) (callee : Value) (line : Nat) (arguments : List Value) :
    (call callee line arguments).perform (steps + 1) =
      (callPlan callee line arguments).perform (perform steps) := by
  simp only [perform, Eval.call, callPlan, Plan.perform_act]
  congr 1
  funext store
  cases callee with
  | callable id =>
    dsimp only
    cases store.callables[id]? with
    | none => simp
    | some k =>
      dsimp only
      split_ifs <;> simp [Plan.tail, perform, Mode.wrap]
  | classRef c =>
    dsimp only
    split_ifs <;> simp [Plan.tail, perform, Mode.wrap]
  | _ => simp

lemma perform_function_succ (steps : Nat) (f : Function) (arguments : List Value) :
    (function f arguments).perform (steps + 1) =
      (functionPlan f arguments).perform (perform steps) := by
  simp only [perform, runFunction, functionPlan, Plan.perform_act, Plan.perform_call]
  congr 1
  funext frame
  congr 1
  funext completion
  congr 1
  funext result
  split_ifs <;> simp

lemma perform_construct_succ (steps : Nat) (c : ClassId) (arguments : List Value) :
    (construct c arguments).perform (steps + 1) =
      (constructPlan c arguments).perform (perform steps) := by
  simp only [perform, Eval.construct, constructPlan, Plan.perform_act]
  congr 1
  funext store
  cases (store.classes[c]?).bind Class.host with
  | some host => simp
  | none =>
    simp only [Plan.perform_act]
    congr 1
    funext i
    cases store.findMethod? c Store.initializerName <;> simp [perform, Mode.wrap]

lemma perform_stmt_succ (steps : Nat) (s : Stmt) :
    (stmt s).perform (steps + 1) = (stmtPlan s).perform (perform steps) := by
  cases s with
  | var name initializer => cases initializer <;> simp [perform, execute, stmtPlan, Mode.wrap]
  | classDecl name superclass methods getters =>
    cases superclass with
    | none => simp [perform, execute, stmtPlan]
    | some superclass =>
      simp only [perform, execute, stmtPlan, Plan.perform_call]
      congr 1
      funext v
      cases v with
      | classRef c => simp
      | _ => rfl
  | ifStmt condition consequent alternative =>
    simp only [perform, execute, stmtPlan, Plan.perform_call]
    congr 1
    funext v
    split_ifs
    · simp [Plan.tail, perform, Mode.wrap]
    · cases alternative <;> simp [Plan.tail, perform, Mode.wrap]
  | returnStmt keyword value => cases value <;> simp [perform, execute, stmtPlan, Mode.wrap]
  | _ => simp [perform, execute, stmtPlan, Plan.tail, Mode.wrap]

lemma perform_loop_succ (steps : Nat) (condition : Expr) (body : Stmt) :
    (loop condition body).perform (steps + 1) =
      (loopPlan condition body).perform (perform steps) := by
  simp only [perform, repeatWhile, loopPlan, Plan.perform_call]
  congr 1
  funext v
  split_ifs
  · simp only [Plan.perform_call]
    congr 1
    funext completion
    cases completion <;> simp [Plan.tail, perform, Mode.wrap]
  · simp

lemma perform_stmts_succ (steps : Nat) (ss : List Stmt) :
    (stmts ss).perform (steps + 1) = (stmtsPlan ss).perform (perform steps) := by
  cases ss with
  | nil => simp [perform, executeAll, stmtsPlan]
  | cons s rest =>
    simp only [perform, executeAll, stmtsPlan, Plan.perform_call]
    congr 1
    funext completion
    cases completion <;> simp [Plan.tail, perform, Mode.wrap]

/-- A task is performed by following its plan, with one step less for the calls. -/
theorem perform_succ (steps : Nat) (t : Task) :
    t.perform (steps + 1) = t.plan.perform (perform steps) := by
  cases t with
  | expr e => exact perform_expr_succ steps e
  | exprs es => cases es <;> simp [perform, evaluateAll, plan, exprsPlan, Mode.wrap]
  | call callee line arguments => exact perform_call_succ steps callee line arguments
  | callable k arguments =>
    cases k <;> simp [perform, run, plan, callablePlan, Plan.tail, Mode.wrap]
  | function f arguments => exact perform_function_succ steps f arguments
  | getter g => simp [perform, runGetter, plan, getterPlan, Mode.wrap]
  | construct c arguments => exact perform_construct_succ steps c arguments
  | stmt s => exact perform_stmt_succ steps s
  | loop condition body => exact perform_loop_succ steps condition body
  | stmts ss => exact perform_stmts_succ steps ss

end Task

/-! ### The functions of the evaluator follow plans -/

section

variable (steps : Nat)

lemma evaluate_succ (e : Expr) :
    evaluate (steps + 1) e = (Task.exprPlan e).perform (Task.perform steps) :=
  Task.perform_succ steps (.expr e)

lemma evaluateAll_succ (es : List Expr) :
    evaluateAll (steps + 1) es = (Task.exprsPlan es).perform (Task.perform steps) :=
  Task.perform_succ steps (.exprs es)

lemma call_succ (callee : Value) (line : Nat) (arguments : List Value) :
    call (steps + 1) callee line arguments =
      (Task.callPlan callee line arguments).perform (Task.perform steps) :=
  Task.perform_succ steps (.call callee line arguments)

lemma runFunction_succ (f : Function) (arguments : List Value) :
    runFunction (steps + 1) f arguments =
      (Task.functionPlan f arguments).perform (Task.perform steps) :=
  Task.perform_succ steps (.function f arguments)

lemma construct_succ (c : ClassId) (arguments : List Value) :
    construct (steps + 1) c arguments =
      (Task.constructPlan c arguments).perform (Task.perform steps) :=
  Task.perform_succ steps (.construct c arguments)

end

end Eval

end Scripting
