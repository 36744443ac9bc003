import Scripting.Proofs.Program.Forms

/-!
# The forms of programs

Each node of a tree has a form with the forms of its parts in it. What is printed for a tree is the
text of its form.
-/

namespace Scripting

/-! ### The forms of trees -/

/-- The parameters of a function as words in parentheses. -/
def parameterForm (params : List Token) : Form :=
  .round (params.map fun param => .word param.lexeme)

mutual

/-- The form that an expression is printed in. -/
def Expr.form : Expr → Form
  | .literal (.text s) => .quoted s
  | .literal value => .word value.display
  | .grouping inner => .round [.word "group", inner.form]
  | .unary operator operand => .round [.word operator.lexeme, operand.form]
  | .binary left operator right => .round [.word operator.lexeme, left.form, right.form]
  | .logical left operator right => .round [.word operator.lexeme, left.form, right.form]
  | .ternary condition first second =>
    .round [.word "?", condition.form, first.form, second.form]
  | .name _ name => .word name.lexeme
  | .assign _ name value => .round [.word "=", .word name.lexeme, value.form]
  | .call callee _ arguments => .round (.word "call" :: callee.form :: exprForms arguments)
  | .get object name => .round [.word ".", object.form, .word name.lexeme]
  | .nilGet object name => .round [.word "?.", object.form, .word name.lexeme]
  | .set object name value => .round [.word ".=", object.form, .word name.lexeme, value.form]
  | .this _ _ => .word "this"
  | .super _ _ method => .round [.word "super", .word method.lexeme]
  | .lambda (.mk _ params body) =>
    .round [.word "lambda", parameterForm params, .curly (stmtForms body)]

/-- The forms that expressions are printed in. -/
def exprForms : List Expr → List Form
  | [] => []
  | e :: es => e.form :: exprForms es

/-- The form that a function is printed in. -/
def FunctionDecl.form : FunctionDecl → Form
  | .mk name params body =>
    .round [.word "fun", .word name.lexeme, parameterForm params, .curly (stmtForms body)]

/-- The forms that methods are printed in. -/
def functionForms : List FunctionDecl → List Form
  | [] => []
  | f :: fs => f.form :: functionForms fs

/-- The form that a getter is printed in. -/
def GetterDecl.form : GetterDecl → Form
  | .mk name body => .round [.word "getter", .word name.lexeme, .curly (stmtForms body)]

/-- The forms that getters are printed in. -/
def getterForms : List GetterDecl → List Form
  | [] => []
  | g :: gs => g.form :: getterForms gs

/-- The form that a statement is printed in. -/
def Stmt.form : Stmt → Form
  | .expression value => .round [.word ";", value.form]
  | .print _ value => .round [.word "print", value.form]
  | .var name none => .round [.word "var", .word name.lexeme]
  | .var name (some value) => .round [.word "var", .word name.lexeme, value.form]
  | .block body => .curly (stmtForms body)
  | .function declaration => declaration.form
  | .getter declaration => declaration.form
  | .classDecl name none methods getters =>
    .round (.word "class" :: .word name.lexeme :: (functionForms methods ++ getterForms getters))
  | .classDecl name (some superclass) methods getters =>
    .round (.word "class" :: .word name.lexeme :: .word "<" :: superclass.form ::
      (functionForms methods ++ getterForms getters))
  | .ifStmt condition consequent none => .round [.word "if", condition.form, consequent.form]
  | .ifStmt condition consequent (some alternative) =>
    .round [.word "if", condition.form, consequent.form, alternative.form]
  | .whileStmt condition body => .round [.word "while", condition.form, body.form]
  | .breakStmt _ => .round [.word "break"]
  | .returnStmt _ none => .round [.word "return"]
  | .returnStmt _ (some value) => .round [.word "return", value.form]

/-- The forms that statements are printed in. -/
def stmtForms : List Stmt → List Form
  | [] => []
  | s :: ss => s.form :: stmtForms ss

end

lemma Form.texts_append (fs gs : List Form) : texts (fs ++ gs) = texts fs ++ texts gs := by
  induction fs with
  | nil => rfl
  | cons f fs ih => simp [texts, ih]

lemma text_parameterForm (params : List Token) :
    (parameterForm params).text = parameterList params := by
  have htexts : Form.texts (params.map fun param => .word param.lexeme) =
      params.map Token.lexeme := by
    induction params with
    | nil => rfl
    | cons param params ih => simp [Form.texts, Form.text, ih]
  rw [parameterForm, Form.text, htexts, parameterList]

mutual

/-- The text of the form is what is printed. -/
lemma Expr.text_form : (e : Expr) → e.form.text = e.render
  | .literal .nil => by simp [Expr.form, Expr.render, Form.text]
  | .literal (.bool b) => by simp [Expr.form, Expr.render, Form.text]
  | .literal (.number x) => by simp [Expr.form, Expr.render, Form.text]
  | .literal (.text s) => by simp [Expr.form, Expr.render, Form.text]
  | .grouping inner => by simp [Expr.form, Expr.render, Form.text, Form.texts, inner.text_form]
  | .unary _ operand => by
    simp [Expr.form, Expr.render, Form.text, Form.texts, operand.text_form]
  | .binary left _ right => by
    simp [Expr.form, Expr.render, Form.text, Form.texts, left.text_form, right.text_form]
  | .logical left _ right => by
    simp [Expr.form, Expr.render, Form.text, Form.texts, left.text_form, right.text_form]
  | .ternary condition first second => by
    simp [Expr.form, Expr.render, Form.text, Form.texts, condition.text_form, first.text_form,
      second.text_form]
  | .name _ _ => by simp [Expr.form, Expr.render, Form.text]
  | .assign _ _ value => by
    simp [Expr.form, Expr.render, Form.text, Form.texts, value.text_form]
  | .call callee _ arguments => by
    simp [Expr.form, Expr.render, Form.text, Form.texts, callee.text_form,
      texts_exprForms arguments]
  | .get object _ => by simp [Expr.form, Expr.render, Form.text, Form.texts, object.text_form]
  | .nilGet object _ => by simp [Expr.form, Expr.render, Form.text, Form.texts, object.text_form]
  | .set object _ value => by
    simp [Expr.form, Expr.render, Form.text, Form.texts, object.text_form, value.text_form]
  | .this _ _ => by simp [Expr.form, Expr.render, Form.text]
  | .super _ _ _ => by simp [Expr.form, Expr.render, Form.text, Form.texts]
  | .lambda (.mk _ params body) => by
    simp [Expr.form, Expr.render, Form.text, Form.texts, text_parameterForm, texts_stmtForms body]

lemma texts_exprForms : (es : List Expr) → Form.texts (exprForms es) = renderExprs es
  | [] => by simp [exprForms, renderExprs, Form.texts]
  | e :: es => by simp [exprForms, renderExprs, Form.texts, e.text_form, texts_exprForms es]

lemma FunctionDecl.text_form : (f : FunctionDecl) → f.form.text = f.render
  | .mk _ params body => by
    simp [FunctionDecl.form, FunctionDecl.render, Form.text, Form.texts, text_parameterForm,
      texts_stmtForms body]

lemma texts_functionForms :
    (fs : List FunctionDecl) → Form.texts (functionForms fs) = renderFunctions fs
  | [] => by simp [functionForms, renderFunctions, Form.texts]
  | f :: fs => by
    simp [functionForms, renderFunctions, Form.texts, f.text_form, texts_functionForms fs]

lemma GetterDecl.text_form : (g : GetterDecl) → g.form.text = g.render
  | .mk _ body => by
    simp [GetterDecl.form, GetterDecl.render, Form.text, Form.texts, texts_stmtForms body]

lemma texts_getterForms :
    (gs : List GetterDecl) → Form.texts (getterForms gs) = renderGetters gs
  | [] => by simp [getterForms, renderGetters, Form.texts]
  | g :: gs => by
    simp [getterForms, renderGetters, Form.texts, g.text_form, texts_getterForms gs]

lemma Stmt.text_form : (s : Stmt) → s.form.text = s.render
  | .expression value => by
    simp [Stmt.form, Stmt.render, Form.text, Form.texts, value.text_form]
  | .print _ value => by simp [Stmt.form, Stmt.render, Form.text, Form.texts, value.text_form]
  | .var _ none => by simp [Stmt.form, Stmt.render, Form.text, Form.texts]
  | .var _ (some value) => by
    simp [Stmt.form, Stmt.render, Form.text, Form.texts, value.text_form]
  | .block body => by simp [Stmt.form, Stmt.render, Form.text, texts_stmtForms body]
  | .function declaration => by simp [Stmt.form, Stmt.render, declaration.text_form]
  | .getter declaration => by simp [Stmt.form, Stmt.render, declaration.text_form]
  | .classDecl _ none methods getters => by
    simp [Stmt.form, Stmt.render, Form.text, Form.texts, Form.texts_append,
      texts_functionForms methods, texts_getterForms getters]
  | .classDecl _ (some superclass) methods getters => by
    simp [Stmt.form, Stmt.render, Form.text, Form.texts, Form.texts_append, superclass.text_form,
      texts_functionForms methods, texts_getterForms getters]
  | .ifStmt condition consequent none => by
    simp [Stmt.form, Stmt.render, Form.text, Form.texts, condition.text_form,
      consequent.text_form]
  | .ifStmt condition consequent (some alternative) => by
    simp [Stmt.form, Stmt.render, Form.text, Form.texts, condition.text_form,
      consequent.text_form, alternative.text_form]
  | .whileStmt condition body => by
    simp [Stmt.form, Stmt.render, Form.text, Form.texts, condition.text_form, body.text_form]
  | .breakStmt _ => by
    simp [Stmt.form, Stmt.render, Form.text, Form.texts, parenthesized, spaced]
  | .returnStmt _ none => by
    simp [Stmt.form, Stmt.render, Form.text, Form.texts, parenthesized, spaced]
  | .returnStmt _ (some value) => by
    simp [Stmt.form, Stmt.render, Form.text, Form.texts, value.text_form]

lemma texts_stmtForms : (ss : List Stmt) → Form.texts (stmtForms ss) = renderStmts ss
  | [] => by simp [stmtForms, renderStmts, Form.texts]
  | s :: ss => by simp [stmtForms, renderStmts, Form.texts, s.text_form, texts_stmtForms ss]

end

end Scripting
