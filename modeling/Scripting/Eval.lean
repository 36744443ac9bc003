import Scripting.Builtin

/-!
# Evaluation

What expressions and statements do. A statement either completes normally or asks the loop or the
function around it to end. Every step of the recursion takes one from the number of steps that are
left; the result does not depend on that number as long as it suffices.
-/

namespace Scripting

/-- How a statement ends. -/
inductive Completion where
  | normal
  /-- The function around it is to end with a value. -/
  | returned (value : Value)
  /-- The loop around it is to end. -/
  | broke

namespace Value

/-- The order of two values that have one; numbers may have none. -/
def ordering? : Value → Value → Except Cause (Option Ordering)
  | .number a, .number b =>
    if a < b then .ok (some .lt)
    else if b < a then .ok (some .gt)
    else if a == b then .ok (some .eq)
    else .ok none
  | .text a, .text b => .ok (some (compareOfLessAndEq a b))
  | .bool a, .bool b => .ok (some (compare a.toNat b.toNat))
  | _, _ => .error .operandsNotOrdered

/-- Whether two values are in an order that a comparison asks for. -/
def compareBy (test : Ordering → Bool) (a b : Value) : Except Cause Value :=
  (ordering? a b).map fun order => .bool (order.any test)

/-- An operation on two numbers. -/
def onNumbers (operation : Float → Float → Float) : Value → Value → Except Cause Value
  | .number a, .number b => .ok (.number (operation a b))
  | _, _ => .error .operandsNotNumbers

/-- The quotient of two numbers; there is none by zero. -/
def divide : Value → Value → Except Cause Value
  | .number a, .number b => if b == 0.0 then .error .zeroDivision else .ok (.number (a / b))
  | _, _ => .error .operandsNotNumbers

/-- The sum of two numbers, or the text of two values of which one is a text. -/
def add (store : Store) : Value → Value → Except Cause Value
  | .number a, .number b => .ok (.number (a + b))
  | .text a, b => .ok (.text (a ++ store.display b))
  | a, .text b => .ok (.text (store.display a ++ b))
  | _, _ => .error .operandsNotAddable

/-- The value of an operator before its operand. -/
def applyUnary (operator : TokenKind) (operand : Value) : Except Cause Value :=
  match operator with
  | .minus =>
    match operand with
    | .number x => .ok (.number (-x))
    | _ => .error .operandNotNumber
  | .bang => .ok (.bool !operand.isTruthy)
  | _ => .error .unknownUnary

/-- The value of an operator between its operands. -/
def applyBinary (store : Store) (operator : TokenKind) (left right : Value) :
    Except Cause Value :=
  match operator with
  | .equalEqual => .ok (.bool (left.same right))
  | .bangEqual => .ok (.bool !(left.same right))
  | .greater => compareBy Ordering.isGT left right
  | .greaterEqual => compareBy Ordering.isGE left right
  | .less => compareBy Ordering.isLT left right
  | .lessEqual => compareBy Ordering.isLE left right
  | .minus => onNumbers (· - ·) left right
  | .star => onNumbers (· * ·) left right
  | .slash => divide left right
  | .plus => add store left right
  | .elvis =>
    match left with
    | .nil => .ok right
    | _ => .ok left
  | _ => .error .unknownBinary

end Value

namespace Eval

/-- The value of a variable or of `this`: at the distance of its node, or else global. -/
def readVariable (id : NodeId) (name : Token) : Exec Value := do
  let m ← get
  Exec.ofExcept name.line <|
    match m.distances.get? id with
    | some distance => m.store.getAt m.scope distance name.lexeme
    | none => m.store.get Machine.globals name.lexeme

/-- Assign to a variable: at the distance of its node, or else to the global one. -/
def writeVariable (id : NodeId) (name : Token) (value : Value) : Exec Unit := do
  let m ← get
  let frame ← Exec.ofExcept name.line <|
    match m.distances.get? id with
    | some distance => m.store.locateAt m.scope distance name.lexeme
    | none => m.store.locate Machine.globals name.lexeme
  Exec.changeStore (·.define frame name.lexeme value)

/-- Give a variable of the current scope a value. -/
def defineHere (name : String) (value : Value) : Exec Unit := do
  let scope := (← get).scope
  Exec.changeStore (·.define scope name value)

/-- Make a function of a declaration in the current scope. -/
def makeFunction (declaration : FunctionDecl) : Exec Value := do
  let scope := (← get).scope
  Exec.updateStore (·.addFunction ⟨declaration, scope, false⟩)

/-- Make a getter of a declaration in the current scope. -/
def makeGetter (declaration : GetterDecl) : Exec Value := do
  let scope := (← get).scope
  Exec.updateStore (·.addGetter ⟨declaration, scope⟩)

/-- The property of a value under a name. -/
def readProperty (object : Value) (name : Token) : Exec Value := do
  match object with
  | .instanceRef i =>
    let outcome ← Exec.updateStore (·.property i name.lexeme)
    Exec.ofExcept name.line outcome
  | _ => Exec.fail .noProperties name.line

/-- A method of the superclass, bound to the current receiver. The superclass is in the frame
around the one with the receiver. -/
def readSuper (id : NodeId) (keyword method : Token) : Exec Value := do
  let m ← get
  match m.distances.get? id with
  | none => Exec.fail .superUnresolved keyword.line
  | some distance =>
    match ← Exec.ofExcept keyword.line (m.store.getAt m.scope distance keyword.lexeme) with
    | .classRef superclass =>
      let receiver ← Exec.ofExcept keyword.line (m.store.getAt m.scope (distance - 1) "this")
      match m.store.findMethod? superclass method.lexeme with
      | none => Exec.fail (.undefinedProperty method.lexeme) method.line
      | some function =>
        Exec.updateStore fun store =>
          let (bound, store) := store.bindFunction function receiver
          store.addFunction bound
    | other => Exec.fail (.superNotClass (m.store.display other)) keyword.line

/-- The members of a class that is declared in the current scope, the last one of a name. -/
def methodRecord (scope : FrameId) (methods : List FunctionDecl) : Record Function :=
  methods.foldl (fun record declaration =>
    let name := declaration.name.lexeme
    record.insert name ⟨declaration, scope, name = Store.initializerName⟩) []

/-- The getters of a class that is declared in the current scope, the last one of a name. -/
def getterRecord (scope : FrameId) (getters : List GetterDecl) : Record Getter :=
  getters.foldl (fun record declaration =>
    record.insert declaration.name.lexeme ⟨declaration, scope⟩) []

/-- Create a class and bind it to its name. The name is bound first, so that the members find it;
with a superclass, the members are closed over a frame that holds it. -/
def declareClass (name : Token) (superclass : Option ClassId) (methods : List FunctionDecl)
    (getters : List GetterDecl) : Exec Unit := do
  defineHere name.lexeme .nil
  let scope := (← get).scope
  let closure ←
    match superclass with
    | none => pure scope
    | some c => Exec.updateStore (·.openFrame .superclass scope [("super", some (.classRef c))])
  let c ← Exec.updateStore fun store =>
    let ancestors := (superclass.map store.lineage).getD []
    store.addClass
      ⟨name.lexeme, ancestors, methodRecord closure methods, getterRecord closure getters, none⟩
  let frame ← Exec.ofExcept name.line ((← Exec.store).locate scope name.lexeme)
  Exec.changeStore (·.define frame name.lexeme (.classRef c))

/-- The token that a superclass is blamed on. -/
def superclassToken (name : Token) : Expr → Token
  | .name _ superName => superName
  | _ => name

/-- The variables of a call: the parameters with the arguments. -/
def bindParameters (params : List Token) (arguments : List Value) : Record (Option Value) :=
  (params.zip arguments).foldl (fun vars (param, argument) =>
    vars.insert param.lexeme (some argument)) []

/-- The result of a body that ended so; `line` is that of the declaration. -/
def resultOf (line : Nat) : Completion → Exec Value
  | .normal => pure .nil
  | .returned value => pure value
  | .broke => Exec.fail .strayBreak line

mutual

/-- Evaluate an expression. -/
def evaluate : Nat → Expr → Exec Value
  | 0, _ => throw .exhausted
  | steps + 1, expr => do
    match expr with
    | .literal value => return value.toValue
    | .grouping inner => evaluate steps inner
    | .unary operator operand =>
      let value ← evaluate steps operand
      Exec.ofExcept operator.line (Value.applyUnary operator.kind value)
    | .binary left operator right =>
      let a ← evaluate steps left
      let b ← Exec.holding a (evaluate steps right)
      let store ← Exec.store
      Exec.ofExcept operator.line (Value.applyBinary store operator.kind a b)
    | .logical left operator right =>
      let a ← evaluate steps left
      if operator.kind = .kwOr then
        if a.isTruthy then return a else evaluate steps right
      else
        if a.isTruthy then Exec.holding a (evaluate steps right) else return a
    | .ternary condition first second =>
      match ← evaluate steps condition with
      | .bool true => evaluate steps first
      | _ => evaluate steps second
    | .name id name => readVariable id name
    | .this id keyword => readVariable id keyword
    | .assign id name value =>
      let value ← evaluate steps value
      writeVariable id name value
      return value
    | .call callee paren arguments =>
      let callee ← evaluate steps callee
      let arguments ← Exec.holding callee (evaluateAll steps arguments)
      call steps callee paren.line arguments
    | .get object name =>
      let object ← evaluate steps object
      let property ← readProperty object name
      match (← Exec.store).getter? property with
      | some getter => Exec.holding object (runGetter steps getter)
      | none => return property
    | .nilGet object name =>
      match ← evaluate steps object with
      | .nil => return .nil
      | object => readProperty object name
    | .set object name value =>
      match ← evaluate steps object with
      | .instanceRef i =>
        let value ← Exec.holding (.instanceRef i) (evaluate steps value)
        Exec.changeStore (·.setField i name.lexeme value)
        return value
      | _ => Exec.fail .noFields name.line
    | .super id keyword method => readSuper id keyword method
    | .lambda declaration => makeFunction declaration

/-- Evaluate expressions from left to right. -/
def evaluateAll : Nat → List Expr → Exec (List Value)
  | 0, _ => throw .exhausted
  | steps + 1, exprs => do
    match exprs with
    | [] => return []
    | e :: es =>
      let value ← evaluate steps e
      let values ← Exec.holding value (evaluateAll steps es)
      return value :: values

/-- Call a value; `line` is that of the closing parenthesis. -/
def call : Nat → Value → Nat → List Value → Exec Value
  | 0, _, _, _ => throw .exhausted
  | steps + 1, callee, line, arguments => do
    let store ← Exec.store
    match callee with
    | .callable id =>
      match store.callables[id]? with
      | none => Exec.fail .notCallable line
      | some callable =>
        if arguments.length = callable.arity then run steps callable arguments
        else Exec.fail (.arityMismatch callable.arity arguments.length) line
    | .classRef c =>
      let arity := store.classArity c
      if arguments.length = arity then construct steps c arguments
      else Exec.fail (.arityMismatch arity arguments.length) line
    | _ => Exec.fail .notCallable line

/-- Run a callable that takes as many arguments as there are. -/
def run : Nat → Callable → List Value → Exec Value
  | 0, _, _ => throw .exhausted
  | steps + 1, callable, arguments =>
    match callable with
    | .function function => runFunction steps function arguments
    | .getter getter => runGetter steps getter
    | .builtin builtin => builtin.run arguments
    | .hostMethod method receiver => method.run receiver arguments

/-- Run the body of a function in a frame with its parameters. An initializer gives its receiver,
whatever its body gives. -/
def runFunction : Nat → Function → List Value → Exec Value
  | 0, _, _ => throw .exhausted
  | steps + 1, function, arguments => do
    let declaration := function.declaration
    let frame ← Exec.updateStore
      (·.openFrame .call function.closure (bindParameters declaration.params arguments))
    let completion ← Exec.within frame (executeAll steps declaration.body)
    let result ← resultOf declaration.name.line completion
    if function.isInitializer then
      Exec.ofExcept declaration.name.line ((← Exec.store).getAt function.closure 0 "this")
    else
      return result

/-- Run the body of a getter. -/
def runGetter : Nat → Getter → Exec Value
  | 0, _ => throw .exhausted
  | steps + 1, getter => do
    let declaration := getter.declaration
    let frame ← Exec.updateStore (·.openFrame .call getter.closure [])
    let completion ← Exec.within frame (executeAll steps declaration.body)
    resultOf declaration.name.line completion

/-- Construct an instance of a class and initialize it. -/
def construct : Nat → ClassId → List Value → Exec Value
  | 0, _, _ => throw .exhausted
  | steps + 1, c, arguments => do
    let store ← Exec.store
    match (store.classes[c]?).bind Class.host with
    | some host => host.construct c arguments
    | none =>
      let initializer? := store.findMethod? c Store.initializerName
      let i ← Exec.updateStore (·.addInstance ⟨c, [], none⟩)
      match initializer? with
      | none => return .instanceRef i
      | some initializer =>
        let bound ← Exec.updateStore (·.bindFunction initializer (.instanceRef i))
        let _ ← runFunction steps bound arguments
        return .instanceRef i

/-- Execute a statement. -/
def execute : Nat → Stmt → Exec Completion
  | 0, _ => throw .exhausted
  | steps + 1, stmt => do
    match stmt with
    | .expression value =>
      let _ ← evaluate steps value
      return .normal
    | .print keyword value =>
      let value ← evaluate steps value
      Exec.print ((← Exec.store).display value) keyword.line
      return .normal
    | .var name initializer =>
      match initializer with
      | some value =>
        let value ← evaluate steps value
        defineHere name.lexeme value
      | none =>
        let scope := (← get).scope
        Exec.changeStore (·.declare scope name.lexeme)
      return .normal
    | .block body =>
      let scope := (← get).scope
      let frame ← Exec.updateStore (·.openFrame .block scope [])
      Exec.within frame (executeAll steps body)
    | .function declaration =>
      let value ← makeFunction declaration
      defineHere declaration.name.lexeme value
      return .normal
    | .getter declaration =>
      let value ← makeGetter declaration
      defineHere declaration.name.lexeme value
      return .normal
    | .classDecl name superclass methods getters =>
      match superclass with
      | none => declareClass name none methods getters
      | some expr =>
        match ← evaluate steps expr with
        | .classRef c => declareClass name (some c) methods getters
        | _ => Exec.fail .superclassNotClass (superclassToken name expr).line
      return .normal
    | .ifStmt condition consequent alternative =>
      if (← evaluate steps condition).isTruthy then
        execute steps consequent
      else
        match alternative with
        | some stmt => execute steps stmt
        | none => return .normal
    | .whileStmt condition body => repeatWhile steps condition body
    | .breakStmt _ => return .broke
    | .returnStmt _ value =>
      match value with
      | some value => return .returned (← evaluate steps value)
      | none => return .returned .nil

/-- Execute a body as long as a condition holds. -/
def repeatWhile : Nat → Expr → Stmt → Exec Completion
  | 0, _, _ => throw .exhausted
  | steps + 1, condition, body => do
    if (← evaluate steps condition).isTruthy then
      match ← execute steps body with
      | .normal => repeatWhile steps condition body
      | .broke => return .normal
      | .returned value => return .returned value
    else
      return .normal

/-- Execute statements in order, up to the first one that does not complete normally. -/
def executeAll : Nat → List Stmt → Exec Completion
  | 0, _ => throw .exhausted
  | steps + 1, stmts => do
    match stmts with
    | [] => return .normal
    | stmt :: rest =>
      match ← execute steps stmt with
      | .normal => executeAll steps rest
      | completion => return completion

end

/-- Run the statements of a program. A `return` ends only its own statement; a `break` that no loop
is around is a fault. -/
def runProgram (steps : Nat) : Program → Exec Unit
  | [] => pure ()
  | stmt :: rest => do
    match ← execute steps stmt with
    | .broke => Exec.fail .strayBreak 0
    | _ => runProgram steps rest

end Eval

end Scripting
