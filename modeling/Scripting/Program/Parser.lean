import Scripting.Program

/-!
# Reading programs

Recursive descent over a list of tokens. A complaint either stops the declaration being read, and
then reading goes on at the next place that looks like the start of a statement, or is only noted,
and then the declaration is finished as well as it can be. A program comes out only if there was
no complaint at all.

The readers for the parts of a program call each other. `Readers.step` says what each of them does,
given readers to call, and `readers` repeats that up to a bound on the depth of the recursion.
`Program.parse` starts with a bound that grows with the number of tokens, so that it is never
reached.
-/

namespace Scripting

/-- What a declaration with a parameter list is. -/
inductive DeclKind where
  | function | method | lambda
deriving DecidableEq

/-- The word for a kind of declaration. -/
def DeclKind.word : DeclKind → String
  | .function => "function"
  | .method => "method"
  | .lambda => "lambda"

/-- What is wrong with a sequence of tokens. -/
inductive SyntaxFault where
  | className
  | superclassName
  | classOpen
  | classClose
  | declName (kind : DeclKind)
  | declOpen (kind : DeclKind)
  | parameterName
  | parametersClose
  | bodyOpen (kind : DeclKind)
  | variableName
  | ifOpen
  | ifClose
  | whileOpen
  | whileClose
  | forOpen
  | initializerEnd
  | conditionEnd
  | forClose
  | blockClose
  | ternaryColon
  | propertyName
  | nilPropertyName
  | argumentsClose
  | superDot
  | superMethod
  | lambdaOpen
  | groupClose
  | expression
  | invalidTarget
  | tooManyParameters
  | tooManyArguments
deriving DecidableEq

/-- The wording of a syntax fault. -/
def SyntaxFault.message : SyntaxFault → String
  | .className => "Expect class name."
  | .superclassName => "Expect superclass name."
  | .classOpen => "Expect '\x7b' before class body."
  | .classClose => "Expect '\x7d' after class body."
  | .declName kind => "Expect " ++ kind.word ++ " name."
  | .declOpen kind => "Expect '(' after " ++ kind.word ++ " name."
  | .parameterName => "Expect parameter name."
  | .parametersClose => "Expect ')' after parameters."
  | .bodyOpen kind => "Expect '\x7b' before " ++ kind.word ++ " body."
  | .variableName => "Expect variable name."
  | .ifOpen => "Expect '(' after 'if'."
  | .ifClose => "Expect ')' after if condition."
  | .whileOpen => "Expect '(' after 'while'."
  | .whileClose => "Expect ')' after while condition."
  | .forOpen => "Expect '(' after 'for'."
  | .initializerEnd => "Expect ';' after loop initializer."
  | .conditionEnd => "Expect ';' after loop condition."
  | .forClose => "Expect ')' after for clauses."
  | .blockClose => "Expect '\x7d' after block."
  | .ternaryColon => "Expect ':' in ternary expression."
  | .propertyName => "Expect property name after '.'."
  | .nilPropertyName => "Expect property name after '?.'."
  | .argumentsClose => "Expect ')' after arguments."
  | .superDot => "Expect '.' after 'super'."
  | .superMethod => "Expect superclass method name."
  | .lambdaOpen => "Expect '(' after 'fun'."
  | .groupClose => "Expect ')' after expression."
  | .expression => "Expect expression."
  | .invalidTarget => "Invalid assignment target."
  | .tooManyParameters => "Can't have more than 255 parameters."
  | .tooManyArguments => "Can't have more than 255 arguments."

/-- A fault with the token it was found at. -/
structure SyntaxError where
  fault : SyntaxFault
  token : Token

/-- The line that reports a syntax error. -/
def SyntaxError.report (e : SyntaxError) : String :=
  complaint e.token.line e.token.place e.fault.message

namespace Parser

/-- How far reading has come. -/
structure Cursor where
  /-- The tokens not read yet, with the end of the text as the last one. -/
  rest : List Token
  /-- The identity of the next node that needs one. -/
  nextId : NodeId
  /-- The complaints noted so far, in order. -/
  noted : Array SyntaxError

/-- Reading moves the cursor and may stop with a complaint; what was read and noted before stays
read and noted. -/
abbrev Reader := EStateM SyntaxError Cursor

/-- The token under the cursor. -/
def Cursor.peek (c : Cursor) : Token :=
  c.rest.headD (.endAt 0)

/-- The cursor after the token under it; the end of the text is never passed. -/
def Cursor.advance (c : Cursor) : Cursor :=
  match c.rest with
  | [] => c
  | t :: rest => if t.kind = .endOfText then c else { c with rest }

/-- The kind of the token under the cursor. -/
def peekKind : Reader TokenKind := do
  return (← get).peek.kind

/-- Take the token under the cursor. -/
def take : Reader Token := do
  let token := (← get).peek
  modify Cursor.advance
  return token

/-- Stop with a complaint about the token under the cursor. -/
def stop {α : Type} (fault : SyntaxFault) : Reader α := do
  throw ⟨fault, (← get).peek⟩

/-- Note a complaint and go on. -/
def note (fault : SyntaxFault) (token : Token) : Reader Unit :=
  modify fun c => { c with noted := c.noted.push ⟨fault, token⟩ }

/-- Note a complaint about the token under the cursor and go on. -/
def noteHere (fault : SyntaxFault) : Reader Unit := do
  note fault (← get).peek

/-- Take a token of one of the given kinds, if one is under the cursor. -/
def accept? (kinds : List TokenKind) : Reader (Option Token) := do
  if kinds.contains (← peekKind) then
    return some (← take)
  else
    return none

/-- Take a token of the given kind, if one is under the cursor, and tell whether there was one. -/
def accept (kind : TokenKind) : Reader Bool := do
  return (← accept? [kind]).isSome

/-- Take a token of the given kind, or stop. -/
def expect (kind : TokenKind) (fault : SyntaxFault) : Reader Token := do
  if (← peekKind) = kind then take else stop fault

/-- An identity that no other node has. -/
def freshId : Reader NodeId := do
  let id := (← get).nextId
  modify fun c => { c with nextId := id + 1 }
  return id

/-- The kind of the token after the one under the cursor. -/
def peekSecondKind : Reader (Option TokenKind) := do
  return (← get).rest.tail.head?.map Token.kind

/-- A semicolon may end a statement. -/
def endStatement : Reader Unit := do
  let _ ← accept .semicolon

/-- A statement that was read up to its end. -/
def ended (s : Stmt) : Reader Stmt := do
  endStatement
  return s

/-- The levels of binary operators, from the loosest to the tightest. -/
inductive Level where
  | elvis | disjunction | conjunction | equality | comparison | sum | product
deriving DecidableEq

namespace Level

/-- The operators of a level. -/
def operators : Level → List TokenKind
  | .elvis => [.elvis]
  | .disjunction => [.kwOr]
  | .conjunction => [.kwAnd]
  | .equality => [.bangEqual, .equalEqual]
  | .comparison => [.greaterEqual, .greater, .lessEqual, .less]
  | .sum => [.minus, .plus]
  | .product => [.slash, .star]

/-- The next tighter level. -/
def tighter : Level → Option Level
  | .elvis => some .disjunction
  | .disjunction => some .conjunction
  | .conjunction => some .equality
  | .equality => some .comparison
  | .comparison => some .sum
  | .sum => some .product
  | .product => none

/-- The node that joins two operands on a level. -/
def join : Level → Expr → Token → Expr → Expr
  | .disjunction, left, operator, right => .logical left operator right
  | .conjunction, left, operator, right => .logical left operator right
  | _, left, operator, right => .binary left operator right

end Level

/-- The most parameters or arguments that a list may have. -/
def maxArguments : Nat :=
  255

/-- The statement that a loop with three clauses stands for. -/
def forLoop (initializer : Option Stmt) (condition : Expr) (increment : Option Expr)
    (body : Stmt) : Stmt :=
  let body :=
    match increment with
    | none => body
    | some step => .block [body, .expression step]
  let loop := Stmt.whileStmt condition body
  match initializer with
  | none => loop
  | some first => .block [first, loop]

/-- The members of a class or the functions of a script: with parameters, or without. -/
inductive Member where
  | function (declaration : FunctionDecl)
  | getter (declaration : GetterDecl)

/-- The parts of a program that there are readers for, with what those are given to go on with. -/
inductive Part where
  /-- The parameters of a function, `count` of which were read before. -/
  | parameters (count : Nat)
  /-- An expression: an assignment or anything tighter. -/
  | expression
  /-- A choice between two expressions, or anything tighter. -/
  | ternary
  /-- Operands joined on a level, or anything tighter. -/
  | level (here : Level)
  /-- An operand of a level. -/
  | operand (here : Level)
  /-- The operators and operands of a level that follow a left operand. -/
  | levelRest (here : Level) (left : Expr)
  /-- An operator before its operand, or anything tighter. -/
  | unary
  /-- The calls and properties that follow an expression. -/
  | calls (head : Expr)
  /-- The arguments of a call, `count` of which were read before. -/
  | arguments (count : Nat)
  /-- An expression that no operator takes apart. -/
  | primary
  /-- The parameters and the body of a function, after the opening parenthesis. -/
  | functionRest (kind : DeclKind)
  /-- The statements up to the closing brace of a block. -/
  | block
  /-- A named function with its parameters, or a getter. -/
  | member (kind : DeclKind)
  /-- The members of a class up to its closing brace: the methods and the getters. -/
  | members
  /-- A class, after its keyword. -/
  | classDecl
  /-- A variable, after its keyword and without what ends the statement. -/
  | varDecl
  /-- A declaration: anything that may stand in a block. -/
  | declaration
  /-- A statement, which declares nothing. -/
  | statement
  /-- A loop with three clauses, after its keyword. -/
  | forStmt

/-- What is read for a part. -/
@[reducible]
def Part.Tree : Part → Type
  | .parameters _ => List Token
  | .expression => Expr
  | .ternary => Expr
  | .level _ => Expr
  | .operand _ => Expr
  | .levelRest _ _ => Expr
  | .unary => Expr
  | .calls _ => Expr
  | .arguments _ => List Expr
  | .primary => Expr
  | .functionRest _ => List Token × List Stmt
  | .block => List Stmt
  | .member _ => Member
  | .members => List FunctionDecl × List GetterDecl
  | .classDecl => Stmt
  | .varDecl => Stmt
  | .declaration => Stmt
  | .statement => Stmt
  | .forStmt => Stmt

/-- A reader for every part. -/
abbrev Readers := (part : Part) → Reader part.Tree

namespace Readers

/-- A parameter, and those that follow it. -/
def parametersFrom (r : Readers) (count : Nat) : Reader (List Token) := do
  let name ← expect .identifier .parameterName
  if ← accept .comma then
    return name :: (← r (.parameters (count + 1)))
  else
    return [name]

/-- The value of an assignment, after its target and the sign behind that. -/
def assignTo (r : Readers) (target : Expr) (equals : Token) : Reader Expr := do
  let value ← r .expression
  match target with
  | .name _ name => return .assign (← freshId) name value
  | .get object name => return .set object name value
  | _ =>
    note .invalidTarget equals
    return value

/-- An argument, and those that follow it. -/
def argumentsFrom (r : Readers) (count : Nat) : Reader (List Expr) := do
  let argument ← r .expression
  if ← accept .comma then
    return argument :: (← r (.arguments (count + 1)))
  else
    return [argument]

/-- The end of a call, and what follows it. -/
def callRest (r : Readers) (head : Expr) (arguments : List Expr) : Reader Expr := do
  let paren ← expect .rightParen .argumentsClose
  r (.calls (.call head paren arguments))

/-- The body of a function, after its parameters. -/
def functionBody (r : Readers) (kind : DeclKind) (params : List Token) :
    Reader (List Token × List Stmt) := do
  let _ ← expect .rightParen .parametersClose
  let _ ← expect .leftBrace (.bodyOpen kind)
  let body ← r .block
  return (params, body)

/-- The members of a class in braces. -/
def classBody (r : Readers) (name : Token) (superclass : Option Expr) : Reader Stmt := do
  let _ ← expect .leftBrace .classOpen
  let (methods, getters) ← r .members
  let _ ← expect .rightBrace .classClose
  return .classDecl name superclass methods getters

/-- The body of a loop with three clauses. -/
def forBody (r : Readers) (initializer : Option Stmt) (condition : Expr)
    (increment : Option Expr) : Reader Stmt := do
  let _ ← expect .rightParen .forClose
  return forLoop initializer condition increment (← r .statement)

/-- A loop with three clauses from the end of the second one on. -/
def forIncrement (r : Readers) (initializer : Option Stmt) (condition : Expr) : Reader Stmt := do
  let _ ← expect .semicolon .conditionEnd
  let increment ←
    if (← peekKind) = .rightParen then pure none else some <$> r .expression
  r.forBody initializer condition increment

/-- A loop with three clauses from the second one on. -/
def forCondition (r : Readers) (initializer : Option Stmt) : Reader Stmt := do
  let condition ←
    if (← peekKind) = .semicolon then pure (Expr.literal (.bool true)) else r .expression
  r.forIncrement initializer condition

/-- What the readers do, where the given ones go on with the parts of a part. -/
def step (r : Readers) : Readers
  | .parameters count => do
    if maxArguments ≤ count then
      noteHere .tooManyParameters
    r.parametersFrom count
  | .expression => do
    let target ← r .ternary
    match ← accept? [.equal] with
    | none => return target
    | some equals => r.assignTo target equals
  | .ternary => do
    let condition ← r (.level .elvis)
    if ← accept .question then
      let first ← r .expression
      let _ ← expect .colon .ternaryColon
      let second ← r .ternary
      return .ternary condition first second
    else
      return condition
  | .level here => do
    let left ← r (.operand here)
    r (.levelRest here left)
  | .operand here =>
    match here.tighter with
    | some next => r (.level next)
    | none => r .unary
  | .levelRest here left => do
    match ← accept? here.operators with
    | none => return left
    | some operator =>
      let right ← r (.operand here)
      r (.levelRest here (here.join left operator right))
  | .unary => do
    match ← accept? [.bang, .minus] with
    | some operator => return .unary operator (← r .unary)
    | none =>
      let head ← r .primary
      r (.calls head)
  | .calls head => do
    match ← accept? [.leftParen, .dot, .questionDot] with
    | none => return head
    | some token =>
      match token.kind with
      | .leftParen =>
        let arguments ←
          if (← peekKind) = .rightParen then pure [] else r (.arguments 0)
        r.callRest head arguments
      | .dot =>
        let name ← expect .identifier .propertyName
        r (.calls (.get head name))
      | _ =>
        let name ← expect .identifier .nilPropertyName
        r (.calls (.nilGet head name))
  | .arguments count => do
    if maxArguments ≤ count then
      noteHere .tooManyArguments
    r.argumentsFrom count
  | .primary => do
    match ← peekKind with
    | .kwFalse =>
      let _ ← take
      return .literal (.bool false)
    | .kwTrue =>
      let _ ← take
      return .literal (.bool true)
    | .kwNil =>
      let _ ← take
      return .literal .nil
    | .number | .textLiteral =>
      let token ← take
      return .literal (token.literal.getD .nil)
    | .kwThis =>
      let keyword ← take
      return .this (← freshId) keyword
    | .kwSuper =>
      let keyword ← take
      let _ ← expect .dot .superDot
      let method ← expect .identifier .superMethod
      return .super (← freshId) keyword method
    | .identifier =>
      let name ← take
      return .name (← freshId) name
    | .kwFun =>
      let keyword ← take
      let _ ← expect .leftParen .lambdaOpen
      let (params, body) ← r (.functionRest .lambda)
      return .lambda (.mk ⟨.kwFun, "lambda", none, keyword.line⟩ params body)
    | .leftParen =>
      let _ ← take
      let inner ← r .expression
      let _ ← expect .rightParen .groupClose
      return .grouping inner
    | _ => stop .expression
  | .functionRest kind => do
    let params ←
      if (← peekKind) = .rightParen then pure [] else r (.parameters 0)
    r.functionBody kind params
  | .block => do
    match ← peekKind with
    | .rightBrace =>
      let _ ← take
      return []
    | .endOfText => stop .blockClose
    | _ =>
      let first ← r .declaration
      return first :: (← r .block)
  | .member kind => do
    let name ← expect .identifier (.declName kind)
    if ← accept .leftBrace then
      return .getter (.mk name (← r .block))
    else
      let _ ← expect .leftParen (.declOpen kind)
      let (params, body) ← r (.functionRest kind)
      return .function (.mk name params body)
  | .members => do
    match ← peekKind with
    | .rightBrace | .endOfText => return ([], [])
    | _ =>
      let first ← r (.member .method)
      let (methods, getters) ← r .members
      match first with
      | .function declaration => return (declaration :: methods, getters)
      | .getter declaration => return (methods, declaration :: getters)
  | .classDecl => do
    let name ← expect .identifier .className
    let superclass ←
      if ← accept .less then
        let superName ← expect .identifier .superclassName
        pure (some (Expr.name (← freshId) superName))
      else pure none
    r.classBody name superclass
  | .varDecl => do
    let name ← expect .identifier .variableName
    if ← accept .equal then
      return .var name (some (← r .expression))
    else
      return .var name none
  | .declaration => do
    match ← peekKind with
    | .kwClass =>
      let _ ← take
      r .classDecl
    | .kwVar =>
      let _ ← take
      ended (← r .varDecl)
    | .kwFun =>
      if (← peekSecondKind) = some .identifier then
        let _ ← take
        match ← r (.member .function) with
        | .function declaration => return .function declaration
        | .getter declaration => return .getter declaration
      else r .statement
    | _ => r .statement
  | .statement => do
    match ← peekKind with
    | .kwIf =>
      let _ ← take
      let _ ← expect .leftParen .ifOpen
      let condition ← r .expression
      let _ ← expect .rightParen .ifClose
      let consequent ← r .statement
      if ← accept .kwElse then
        return .ifStmt condition consequent (some (← r .statement))
      else
        return .ifStmt condition consequent none
    | .kwWhile =>
      let _ ← take
      let _ ← expect .leftParen .whileOpen
      let condition ← r .expression
      let _ ← expect .rightParen .whileClose
      return .whileStmt condition (← r .statement)
    | .kwReturn =>
      let keyword ← take
      let value ←
        match ← peekKind with
        | .semicolon | .rightBrace | .endOfText => pure none
        | _ => some <$> r .expression
      ended (.returnStmt keyword value)
    | .kwFor =>
      let _ ← take
      r .forStmt
    | .kwPrint =>
      let keyword ← take
      ended (.print keyword (← r .expression))
    | .kwBreak =>
      let keyword ← take
      ended (.breakStmt keyword)
    | .leftBrace =>
      let _ ← take
      return .block (← r .block)
    | _ =>
      ended (.expression (← r .expression))
  | .forStmt => do
    let _ ← expect .leftParen .forOpen
    let initializer ←
      match ← peekKind with
      | .semicolon =>
        let _ ← take
        pure none
      | .kwVar =>
        let _ ← take
        let first ← r .varDecl
        let _ ← expect .semicolon .initializerEnd
        pure (some first)
      | _ =>
        let first ← r .expression
        let _ ← expect .semicolon .initializerEnd
        pure (some (Stmt.expression first))
    r.forCondition initializer

/-- The readers that stop at once. -/
def stopping : Readers
  | .parameters _ => stop .parameterName
  | _ => stop .expression

end Readers

/-- The readers that go so many steps deep and stop there. -/
def readers : Nat → Readers
  | 0, part => Readers.stopping part
  | bound + 1, part => Readers.step (readers bound) part

/-- A token that reading can start afresh at. -/
def startsStatement (t : Token) : Bool :=
  [.kwClass, .kwFun, .kwVar, .kwFor, .kwIf, .kwWhile, .kwPrint, .kwBreak, .kwReturn].contains t.kind

/-- The tokens from the next place where a statement may start, given the token before them. -/
def skipToStatement (previous : Token) : List Token → List Token
  | [] => []
  | t :: rest =>
    if t.kind = .endOfText || previous.kind = .semicolon || startsStatement t then t :: rest
    else skipToStatement t rest

/-- Pass the token under the cursor and everything up to the next place where a statement may
start. -/
def synchronize (c : Cursor) : Cursor :=
  let after := c.advance
  { after with rest := skipToStatement c.peek after.rest }

/-- Where reading starts afresh after a complaint, which is noted. -/
def Cursor.recover (c : Cursor) (e : SyntaxError) : Cursor :=
  synchronize { c with noted := c.noted.push e }

/-- Read declarations up to the end of the text, starting afresh after each one that fails. -/
def declarations (read : Reader Stmt) : Nat → Cursor → Array Stmt → Array Stmt × Cursor
  | 0, c, found => (found, c)
  | rounds + 1, c, found =>
    if c.peek.kind = .endOfText then (found, c)
    else
      match read c with
      | .ok stmt c => declarations read rounds c (found.push stmt)
      | .error e c => declarations read rounds (c.recover e) found

end Parser

/-- How deep reading a list of tokens may go: a token is reached through fewer steps than this
many. -/
def Parser.boundPerToken : Nat :=
  32

/-- The program that a list of tokens spells, or all complaints about it; and the first identity
that is still free. Identities are given out from `nextId` on. -/
def Program.parse (nextId : NodeId) (tokens : List Token) :
    Except (List SyntaxError) Program × NodeId :=
  let bound := Parser.boundPerToken * (tokens.length + 1)
  let (found, c) := Parser.declarations (Parser.readers bound .declaration) (tokens.length + 1)
    ⟨tokens, nextId, #[]⟩ #[]
  (if c.noted.isEmpty then .ok found.toList else .error c.noted.toList, c.nextId)

end Scripting
