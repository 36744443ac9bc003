import Mathlib.Tactic.Common
import Scripting.Program

/-!
# The grammar

Which tokens spell which trees. Expressions are stratified: an operator takes operands from its own
stratum or a tighter one on the left, and from a tighter one only on the right, so that operators
of one stratum group to the left. Assignments and choices group to the right. A statement is open
if it ends with an `if` that has no `else`; since the branch before an `else` is never open, every
`else` belongs to the nearest `if` that it can belong to.

The identities in a tree are of no concern to the grammar: any will do.
-/

namespace Scripting

namespace Grammar

/-- The strata of expressions, from the loosest to the tightest. -/
inductive Stratum where
  | assignment | ternary | elvis | disjunction | conjunction | equality | comparison | term
  | factor | unary | call | primary
deriving DecidableEq

namespace Stratum

/-- The next tighter stratum. -/
def next? : Stratum → Option Stratum
  | .assignment => some .ternary
  | .ternary => some .elvis
  | .elvis => some .disjunction
  | .disjunction => some .conjunction
  | .conjunction => some .equality
  | .equality => some .comparison
  | .comparison => some .term
  | .term => some .factor
  | .factor => some .unary
  | .unary => some .call
  | .call => some .primary
  | .primary => none

/-- The operators of a stratum that work on the values of both operands. -/
def binaryOperators : Stratum → List TokenKind
  | .elvis => [.elvis]
  | .equality => [.bangEqual, .equalEqual]
  | .comparison => [.greater, .greaterEqual, .less, .lessEqual]
  | .term => [.minus, .plus]
  | .factor => [.slash, .star]
  | _ => []

/-- The operators of a stratum that may leave out their right operand. -/
def logicalOperators : Stratum → List TokenKind
  | .disjunction => [.kwOr]
  | .conjunction => [.kwAnd]
  | _ => []

end Stratum

/-- Whether an `else` could still follow a statement. -/
inductive Ending where
  | closed | opened
deriving DecidableEq

/-- The syntactic classes. -/
inductive Phrase where
  | expression (stratum : Stratum)
  /-- An expression that may be left out. -/
  | optional
  /-- Expressions with commas between them, one at least. -/
  | listing
  /-- What stands between the parentheses of a call. -/
  | arguments
  /-- Parameters in parentheses and a body in braces. -/
  | callable
  /-- Declarations in braces. -/
  | block
  | function
  | getter
  /-- The members of a class. -/
  | members
  /-- A variable with its initializer, if it has one. -/
  | varClause
  /-- The first clause of a loop with three clauses. -/
  | initializer
  | statement (ending : Ending)
  | declaration
  | declarations

/-- What the tokens of a syntactic class spell. -/
@[reducible]
def Phrase.Tree : Phrase → Type
  | .expression _ => Expr
  | .optional => Option Expr
  | .listing => List Expr
  | .arguments => List Expr
  | .callable => List Token × List Stmt
  | .block => List Stmt
  | .function => FunctionDecl
  | .getter => GetterDecl
  | .members => List FunctionDecl × List GetterDecl
  | .varClause => Stmt
  | .initializer => Option Stmt
  | .statement _ => Stmt
  | .declaration => Stmt
  | .declarations => List Stmt

/-- The most parameters or arguments that there may be. -/
def maxListed : Nat :=
  255

/-- Names with commas between them, one at least. -/
inductive Names : List Token → List Token → Prop
  | last {name : Token} : name.kind = .identifier → Names [name] [name]
  | cons {name comma : Token} {ts names : List Token} :
    name.kind = .identifier → comma.kind = .comma → Names ts names →
      Names (name :: comma :: ts) (name :: names)

/-- The parameters of a function, which may have none. -/
inductive Parameters : List Token → List Token → Prop
  | none : Parameters [] []
  | some {ts names : List Token} :
    Names ts names → names.length ≤ maxListed → Parameters ts names

/-- The superclass of a class, if it has one. -/
inductive Superclass : List Token → Option Expr → Prop
  | none : Superclass [] none
  | some {less name : Token} {id : NodeId} :
    less.kind = .less → name.kind = .identifier → Superclass [less, name] (some (.name id name))

/-- A statement may end with a semicolon. -/
inductive Terminator : List Token → Prop
  | none : Terminator []
  | semicolon {t : Token} : t.kind = .semicolon → Terminator [t]

/-- One statement for several: a statement alone stays as it is. -/
def gather : List Stmt → Stmt
  | [s] => s
  | ss => .block ss

/-- The loop that three clauses and a body stand for. The first clause comes before the loop, the
last one after the body each time, and a condition that is left out always holds. -/
def loop (initializer : Option Stmt) (condition increment : Option Expr) (body : Stmt) : Stmt :=
  let round := gather (body :: (increment.map Stmt.expression).toList)
  gather (initializer.toList ++ [.whileStmt (condition.getD (.literal (.bool true))) round])

/-- The tokens of a syntactic class, with what they spell. `Ends` says which tokens end a simple
statement. -/
inductive Spells (Ends : List Token → Prop) : (phrase : Phrase) → List Token → phrase.Tree → Prop
  -- expressions
  | tighter {s s' : Stratum} {ts : List Token} {e : Expr} :
    s.next? = some s' → Spells Ends (.expression s') ts e → Spells Ends (.expression s) ts e
  | assign {name equals : Token} {ts : List Token} {id : NodeId} {value : Expr} :
    name.kind = .identifier → equals.kind = .equal →
      Spells Ends (.expression .assignment) ts value →
        Spells Ends (.expression .assignment) (name :: equals :: ts) (.assign id name value)
  | set {dot name equals : Token} {ts ts' : List Token} {object value : Expr} :
    Spells Ends (.expression .call) ts object → dot.kind = .dot → name.kind = .identifier →
      equals.kind = .equal → Spells Ends (.expression .assignment) ts' value →
        Spells Ends (.expression .assignment) (ts ++ dot :: name :: equals :: ts')
          (.set object name value)
  | ternary {question colon : Token} {ts ts' ts'' : List Token} {condition first second : Expr} :
    Spells Ends (.expression .elvis) ts condition → question.kind = .question →
      Spells Ends (.expression .assignment) ts' first → colon.kind = .colon →
        Spells Ends (.expression .ternary) ts'' second →
          Spells Ends (.expression .ternary) (ts ++ question :: (ts' ++ colon :: ts''))
            (.ternary condition first second)
  | binary {s s' : Stratum} {operator : Token} {ts ts' : List Token} {left right : Expr} :
    s.next? = some s' → Spells Ends (.expression s) ts left → operator.kind ∈ s.binaryOperators →
      Spells Ends (.expression s') ts' right →
        Spells Ends (.expression s) (ts ++ operator :: ts') (.binary left operator right)
  | logical {s s' : Stratum} {operator : Token} {ts ts' : List Token} {left right : Expr} :
    s.next? = some s' → Spells Ends (.expression s) ts left → operator.kind ∈ s.logicalOperators →
      Spells Ends (.expression s') ts' right →
        Spells Ends (.expression s) (ts ++ operator :: ts') (.logical left operator right)
  | unary {operator : Token} {ts : List Token} {operand : Expr} :
    operator.kind ∈ [.bang, .minus] → Spells Ends (.expression .unary) ts operand →
      Spells Ends (.expression .unary) (operator :: ts) (.unary operator operand)
  | call {opening paren : Token} {ts ts' : List Token} {callee : Expr} {es : List Expr} :
    Spells Ends (.expression .call) ts callee → opening.kind = .leftParen →
      Spells Ends .arguments ts' es → paren.kind = .rightParen →
        Spells Ends (.expression .call) (ts ++ opening :: (ts' ++ [paren])) (.call callee paren es)
  | get {dot name : Token} {ts : List Token} {object : Expr} :
    Spells Ends (.expression .call) ts object → dot.kind = .dot → name.kind = .identifier →
      Spells Ends (.expression .call) (ts ++ [dot, name]) (.get object name)
  | nilGet {dot name : Token} {ts : List Token} {object : Expr} :
    Spells Ends (.expression .call) ts object → dot.kind = .questionDot → name.kind = .identifier →
      Spells Ends (.expression .call) (ts ++ [dot, name]) (.nilGet object name)
  | falseLiteral {t : Token} :
    t.kind = .kwFalse → Spells Ends (.expression .primary) [t] (.literal (.bool false))
  | trueLiteral {t : Token} :
    t.kind = .kwTrue → Spells Ends (.expression .primary) [t] (.literal (.bool true))
  | nilLiteral {t : Token} :
    t.kind = .kwNil → Spells Ends (.expression .primary) [t] (.literal .nil)
  | literal {t : Token} :
    t.kind ∈ [.number, .textLiteral] →
      Spells Ends (.expression .primary) [t] (.literal (t.literal.getD .nil))
  | this {t : Token} {id : NodeId} :
    t.kind = .kwThis → Spells Ends (.expression .primary) [t] (.this id t)
  | super {keyword dot method : Token} {id : NodeId} :
    keyword.kind = .kwSuper → dot.kind = .dot → method.kind = .identifier →
      Spells Ends (.expression .primary) [keyword, dot, method] (.super id keyword method)
  | name {t : Token} {id : NodeId} :
    t.kind = .identifier → Spells Ends (.expression .primary) [t] (.name id t)
  | lambda {keyword : Token} {ts params : List Token} {body : List Stmt} :
    keyword.kind = .kwFun → Spells Ends .callable ts (params, body) →
      Spells Ends (.expression .primary) (keyword :: ts)
        (.lambda (.mk ⟨.kwFun, "lambda", none, keyword.line⟩ params body))
  | grouping {opening closing : Token} {ts : List Token} {inner : Expr} :
    opening.kind = .leftParen → Spells Ends (.expression .assignment) ts inner →
      closing.kind = .rightParen →
        Spells Ends (.expression .primary) (opening :: (ts ++ [closing])) (.grouping inner)
  -- parts of expressions and statements
  | absent : Spells Ends .optional [] none
  | present {ts : List Token} {e : Expr} :
    Spells Ends (.expression .assignment) ts e → Spells Ends .optional ts (some e)
  | last {ts : List Token} {e : Expr} :
    Spells Ends (.expression .assignment) ts e → Spells Ends .listing ts [e]
  | more {comma : Token} {ts ts' : List Token} {e : Expr} {es : List Expr} :
    Spells Ends (.expression .assignment) ts e → comma.kind = .comma → Spells Ends .listing ts' es →
      Spells Ends .listing (ts ++ comma :: ts') (e :: es)
  | noArguments : Spells Ends .arguments [] []
  | arguments {ts : List Token} {es : List Expr} :
    Spells Ends .listing ts es → es.length ≤ maxListed → Spells Ends .arguments ts es
  | callable {opening closing : Token} {ts ts' params : List Token} {body : List Stmt} :
    opening.kind = .leftParen → Parameters ts params → closing.kind = .rightParen →
      Spells Ends .block ts' body →
        Spells Ends .callable (opening :: (ts ++ closing :: ts')) (params, body)
  | block {opening closing : Token} {ts : List Token} {ss : List Stmt} :
    opening.kind = .leftBrace → Spells Ends .declarations ts ss → closing.kind = .rightBrace →
      Spells Ends .block (opening :: (ts ++ [closing])) ss
  | function {name : Token} {ts params : List Token} {body : List Stmt} :
    name.kind = .identifier → Spells Ends .callable ts (params, body) →
      Spells Ends .function (name :: ts) (.mk name params body)
  | getter {name : Token} {ts : List Token} {body : List Stmt} :
    name.kind = .identifier → Spells Ends .block ts body →
      Spells Ends .getter (name :: ts) (.mk name body)
  | noMembers : Spells Ends .members [] ([], [])
  | method {ts ts' : List Token} {f : FunctionDecl} {fs : List FunctionDecl}
      {gs : List GetterDecl} :
    Spells Ends .function ts f → Spells Ends .members ts' (fs, gs) →
      Spells Ends .members (ts ++ ts') (f :: fs, gs)
  | property {ts ts' : List Token} {g : GetterDecl} {fs : List FunctionDecl}
      {gs : List GetterDecl} :
    Spells Ends .getter ts g → Spells Ends .members ts' (fs, gs) →
      Spells Ends .members (ts ++ ts') (fs, g :: gs)
  | uninitialized {name : Token} :
    name.kind = .identifier → Spells Ends .varClause [name] (.var name none)
  | initialized {name equals : Token} {ts : List Token} {value : Expr} :
    name.kind = .identifier → equals.kind = .equal →
      Spells Ends (.expression .assignment) ts value →
        Spells Ends .varClause (name :: equals :: ts) (.var name (some value))
  | noInitializer : Spells Ends .initializer [] none
  | varInitializer {keyword : Token} {ts : List Token} {s : Stmt} :
    keyword.kind = .kwVar → Spells Ends .varClause ts s →
      Spells Ends .initializer (keyword :: ts) (some s)
  | expressionInitializer {ts : List Token} {e : Expr} :
    Spells Ends (.expression .assignment) ts e →
      Spells Ends .initializer ts (some (.expression e))
  -- statements
  | expression {ts ending : List Token} {value : Expr} :
    Spells Ends (.expression .assignment) ts value → Ends ending →
      Spells Ends (.statement .closed) (ts ++ ending) (.expression value)
  | print {keyword : Token} {ts ending : List Token} {value : Expr} :
    keyword.kind = .kwPrint → Spells Ends (.expression .assignment) ts value → Ends ending →
      Spells Ends (.statement .closed) (keyword :: (ts ++ ending)) (.print keyword value)
  | breakStmt {keyword : Token} {ending : List Token} :
    keyword.kind = .kwBreak → Ends ending →
      Spells Ends (.statement .closed) (keyword :: ending) (.breakStmt keyword)
  | returnStmt {keyword : Token} {ts ending : List Token} {value : Option Expr} :
    keyword.kind = .kwReturn → Spells Ends .optional ts value → Ends ending →
      Spells Ends (.statement .closed) (keyword :: (ts ++ ending)) (.returnStmt keyword value)
  | blockStmt {ts : List Token} {ss : List Stmt} :
    Spells Ends .block ts ss → Spells Ends (.statement .closed) ts (.block ss)
  | ifOnly {keyword opening closing : Token} {ts ts' : List Token} {condition : Expr}
      {consequent : Stmt} {ending : Ending} :
    keyword.kind = .kwIf → opening.kind = .leftParen →
      Spells Ends (.expression .assignment) ts condition → closing.kind = .rightParen →
        Spells Ends (.statement ending) ts' consequent →
          Spells Ends (.statement .opened) (keyword :: opening :: (ts ++ closing :: ts'))
            (.ifStmt condition consequent none)
  | ifElse {keyword opening closing keyword' : Token} {ts ts' ts'' : List Token}
      {condition : Expr} {consequent alternative : Stmt} {ending : Ending} :
    keyword.kind = .kwIf → opening.kind = .leftParen →
      Spells Ends (.expression .assignment) ts condition → closing.kind = .rightParen →
        Spells Ends (.statement .closed) ts' consequent → keyword'.kind = .kwElse →
          Spells Ends (.statement ending) ts'' alternative →
            Spells Ends (.statement ending)
              (keyword :: opening :: (ts ++ closing :: (ts' ++ keyword' :: ts'')))
              (.ifStmt condition consequent (some alternative))
  | whileStmt {keyword opening closing : Token} {ts ts' : List Token} {condition : Expr}
      {body : Stmt} {ending : Ending} :
    keyword.kind = .kwWhile → opening.kind = .leftParen →
      Spells Ends (.expression .assignment) ts condition → closing.kind = .rightParen →
        Spells Ends (.statement ending) ts' body →
          Spells Ends (.statement ending) (keyword :: opening :: (ts ++ closing :: ts'))
            (.whileStmt condition body)
  | forStmt {keyword opening first second closing : Token} {ts ts' ts'' body : List Token}
      {initializer : Option Stmt} {condition increment : Option Expr} {s : Stmt}
      {ending : Ending} :
    keyword.kind = .kwFor → opening.kind = .leftParen → Spells Ends .initializer ts initializer →
      first.kind = .semicolon → Spells Ends .optional ts' condition → second.kind = .semicolon →
        Spells Ends .optional ts'' increment → closing.kind = .rightParen →
          Spells Ends (.statement ending) body s →
            Spells Ends (.statement ending)
              (keyword :: opening ::
                (ts ++ first :: (ts' ++ second :: (ts'' ++ closing :: body))))
              (loop initializer condition increment s)
  -- declarations
  | classDecl {keyword name opening closing : Token} {ts ts' : List Token}
      {superclass : Option Expr} {methods : List FunctionDecl} {getters : List GetterDecl} :
    keyword.kind = .kwClass → name.kind = .identifier → Superclass ts superclass →
      opening.kind = .leftBrace → Spells Ends .members ts' (methods, getters) →
        closing.kind = .rightBrace →
          Spells Ends .declaration (keyword :: name :: (ts ++ opening :: (ts' ++ [closing])))
            (.classDecl name superclass methods getters)
  | functionDecl {keyword : Token} {ts : List Token} {f : FunctionDecl} :
    keyword.kind = .kwFun → Spells Ends .function ts f →
      Spells Ends .declaration (keyword :: ts) (.function f)
  | getterDecl {keyword : Token} {ts : List Token} {g : GetterDecl} :
    keyword.kind = .kwFun → Spells Ends .getter ts g →
      Spells Ends .declaration (keyword :: ts) (.getter g)
  | varDecl {keyword : Token} {ts ending : List Token} {s : Stmt} :
    keyword.kind = .kwVar → Spells Ends .varClause ts s → Ends ending →
      Spells Ends .declaration (keyword :: (ts ++ ending)) s
  | statement {ts : List Token} {s : Stmt} {ending : Ending} :
    Spells Ends (.statement ending) ts s → Spells Ends .declaration ts s
  | done : Spells Ends .declarations [] []
  | next {ts ts' : List Token} {s : Stmt} {ss : List Stmt} :
    Spells Ends .declaration ts s → Spells Ends .declarations ts' ss →
      Spells Ends .declarations (ts ++ ts') (s :: ss)

/-- The tokens of an expression that can be assigned to: a name alone, or a property with its
object in front of it. -/
def Target (Ends : List Token → Prop) : (phrase : Phrase) → List Token → phrase.Tree → Prop
  | .expression _, ts, .name _ name => ts = [name] ∧ name.kind = .identifier
  | .expression _, ts, .get object name =>
    ∃ ts' dot, ts = ts' ++ [dot, name] ∧ Spells Ends (.expression .call) ts' object ∧
      dot.kind = .dot ∧ name.kind = .identifier
  | _, _, _ => True

/-- What can be assigned to is spelled in one way only. -/
lemma Spells.target {Ends : List Token → Prop} {phrase : Phrase} {ts : List Token}
    {tree : phrase.Tree} (h : Spells Ends phrase ts tree) : Target Ends phrase ts tree := by
  induction h with
  | @tighter s s' ts e _ _ ih => cases e <;> exact ih
  | get hobject hdot hname => exact ⟨_, _, rfl, hobject, hdot, hname⟩
  | name hname => exact ⟨rfl, hname⟩
  | _ => trivial

/-- The grammar of scripts: semicolons may be left out. -/
abbrev Derives : (phrase : Phrase) → List Token → phrase.Tree → Prop :=
  Spells Terminator

end Grammar

end Scripting
