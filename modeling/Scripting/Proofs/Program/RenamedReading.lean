import Scripting.Program.Parser
import Scripting.Proofs.Program.Renaming

/-!
# Reading renamed tokens

Reading looks neither at lines nor at identities. From tokens with other lines, and with other
identities to give out, the same program is read, renamed; and the same complaints come up, at the
renamed tokens. `Renames` states this about one reader and `Regular` about the readers of all
syntactic classes.
-/

namespace Scripting

/-- A complaint about a renamed token. -/
def SyntaxError.rename (ρ : Renaming) (e : SyntaxError) : SyntaxError :=
  { e with token := e.token.rename ρ }

namespace Parser

/-- A cursor in a renamed text, before which there were some complaints. -/
def Cursor.rename (ρ : Renaming) (before : Array SyntaxError) (c : Cursor) : Cursor :=
  ⟨c.rest.map (Token.rename ρ), ρ.node c.nextId, before ++ c.noted.map (SyntaxError.rename ρ)⟩

/-- From a cursor on, the identities are renamed one after the other, and the text has an end. -/
structure Cursor.Steady (ρ : Renaming) (c : Cursor) : Prop where
  node_succ : ∀ id, c.nextId ≤ id → ρ.node (id + 1) = ρ.node id + 1
  ends : ∃ t ∈ c.rest, t.kind = .endOfText

/-- Rename a member of a class. -/
def Member.rename (ρ : Renaming) : Member → Member
  | .function declaration => .function (declaration.rename ρ)
  | .getter declaration => .getter (declaration.rename ρ)

variable {α β : Type} {ρ : Renaming} {before : Array SyntaxError}

/-- From a renamed text, `x'` reads what `x` reads, renamed by `f`. -/
def Renames (ρ : Renaming) (before : Array SyntaxError) (f : α → α) (x x' : Reader α) : Prop :=
  ∀ c : Cursor, c.Steady ρ →
    match x c with
    | .ok a c' => c'.Steady ρ ∧ x' (c.rename ρ before) = .ok (f a) (c'.rename ρ before)
    | .error e c' =>
      c'.Steady ρ ∧ x' (c.rename ρ before) = .error (e.rename ρ) (c'.rename ρ before)

lemma renames_pure (f : α → α) (a : α) : Renames ρ before f (pure a) (pure (f a)) :=
  fun _ hc => ⟨hc, rfl⟩

lemma Renames.bind {f : α → α} {g : β → β} {x x' : Reader α} {next next' : α → Reader β}
    (hx : Renames ρ before f x x') (hn : ∀ a, Renames ρ before g (next a) (next' (f a))) :
    Renames ρ before g (x >>= next) (x' >>= next') := by
  intro c hc
  have hx := hx c hc
  simp only [Bind.bind, EStateM.bind]
  cases h : x c with
  | error e c' =>
    rw [h] at hx
    rw [hx.2]
    exact ⟨hx.1, rfl⟩
  | ok a c' =>
    rw [h] at hx
    rw [hx.2]
    exact hn a c' hx.1

/-! ### Single tokens -/

lemma Cursor.peek_rename {c : Cursor} (hc : c.Steady ρ) :
    (c.rename ρ before).peek = c.peek.rename ρ := by
  obtain ⟨t, ht, -⟩ := hc.ends
  unfold Cursor.peek Cursor.rename
  cases hr : c.rest with
  | nil => simp [hr] at ht
  | cons t rest => rfl

lemma Cursor.advance_rename (c : Cursor) :
    (c.rename ρ before).advance = c.advance.rename ρ before := by
  obtain ⟨rest, nextId, noted⟩ := c
  cases rest with
  | nil => rfl
  | cons t rest =>
    simp only [Cursor.advance, Cursor.rename, List.map_cons, Token.rename_kind]
    split
    · rfl
    · rfl

lemma Cursor.Steady.advance {c : Cursor} (hc : c.Steady ρ) : c.advance.Steady ρ := by
  obtain ⟨rest, nextId, noted⟩ := c
  obtain ⟨t, ht, hk⟩ := hc.ends
  cases rest with
  | nil => exact hc
  | cons head rest =>
    unfold Cursor.advance
    dsimp only
    split
    · exact hc
    · next hhead =>
      refine ⟨hc.node_succ, t, ?_, hk⟩
      rcases List.mem_cons.mp ht with rfl | ht
      · exact absurd hk hhead
      · exact ht

lemma renames_stop (f : α → α) (fault : SyntaxFault) :
    Renames ρ before f (stop fault) (stop fault) := by
  intro c hc
  refine ⟨hc, ?_⟩
  show EStateM.Result.error (SyntaxError.mk fault (c.rename ρ before).peek) _ = _
  rw [Cursor.peek_rename hc]
  rfl

lemma renames_peekKind : Renames ρ before id peekKind peekKind := by
  intro c hc
  refine ⟨hc, ?_⟩
  show EStateM.Result.ok (c.rename ρ before).peek.kind _ = _
  rw [Cursor.peek_rename hc]
  rfl

lemma renames_take : Renames ρ before (Token.rename ρ) take take := by
  intro c hc
  refine ⟨hc.advance, ?_⟩
  show EStateM.Result.ok (c.rename ρ before).peek (c.rename ρ before).advance = _
  rw [Cursor.peek_rename hc, Cursor.advance_rename]

lemma renames_note (fault : SyntaxFault) (token : Token) :
    Renames ρ before id (note fault token) (note fault (token.rename ρ)) := by
  intro c hc
  refine ⟨⟨hc.node_succ, hc.ends⟩, ?_⟩
  have hnoted : (c.rename ρ before).noted.push ⟨fault, token.rename ρ⟩ =
      (Cursor.rename ρ before { c with noted := c.noted.push ⟨fault, token⟩ }).noted := by
    simp [Cursor.rename, SyntaxError.rename]
  show EStateM.Result.ok () { c.rename ρ before with
    noted := (c.rename ρ before).noted.push ⟨fault, token.rename ρ⟩ } = _
  rw [hnoted]
  rfl

lemma renames_noteHere (fault : SyntaxFault) :
    Renames ρ before id (noteHere fault) (noteHere fault) := by
  intro c hc
  have hn : Renames ρ before id (note fault c.peek) (note fault (c.peek.rename ρ)) :=
    renames_note _ _
  refine ⟨⟨hc.node_succ, hc.ends⟩, ?_⟩
  show note fault (c.rename ρ before).peek (c.rename ρ before) = _
  rw [Cursor.peek_rename hc]
  exact (hn c hc).2

lemma renames_freshId : Renames ρ before ρ.node freshId freshId := by
  intro c hc
  have hn := hc.node_succ c.nextId (Nat.le_refl _)
  refine ⟨⟨fun id hid => hc.node_succ id (Nat.le_of_succ_le hid), hc.ends⟩, ?_⟩
  show EStateM.Result.ok (ρ.node c.nextId) (⟨_, ρ.node c.nextId + 1, _⟩ : Cursor) = _
  rw [← hn]
  rfl

lemma renames_peekSecondKind : Renames ρ before id peekSecondKind peekSecondKind := by
  intro c hc
  refine ⟨hc, ?_⟩
  have hk : (c.rest.map (Token.rename ρ)).tail.head?.map Token.kind =
      c.rest.tail.head?.map Token.kind := by
    rw [← List.map_tail, List.head?_map, Option.map_map]
    rfl
  show EStateM.Result.ok ((c.rest.map (Token.rename ρ)).tail.head?.map Token.kind) _ = _
  rw [hk]
  rfl

lemma renames_accept? (kinds : List TokenKind) :
    Renames ρ before (Option.map (Token.rename ρ)) (accept? kinds) (accept? kinds) := by
  refine renames_peekKind.bind fun kind => ?_
  rw [id]
  split
  · exact renames_take.bind fun t => renames_pure _ (some t)
  · exact renames_pure _ none

lemma renames_accept (kind : TokenKind) : Renames ρ before id (accept kind) (accept kind) := by
  refine (renames_accept? [kind]).bind fun found => ?_
  cases found with
  | none => exact renames_pure id _
  | some t => exact renames_pure id _

lemma renames_expect (kind : TokenKind) (fault : SyntaxFault) :
    Renames ρ before (Token.rename ρ) (expect kind fault) (expect kind fault) := by
  refine renames_peekKind.bind fun found => ?_
  rw [id]
  split
  · exact renames_take
  · exact renames_stop _ _

lemma renames_endStatement : Renames ρ before id endStatement endStatement :=
  (renames_accept .semicolon).bind fun _ => renames_pure id ()

lemma renames_ended (s : Stmt) :
    Renames ρ before (Stmt.rename ρ) (ended s) (ended (s.rename ρ)) :=
  renames_endStatement.bind fun _ => renames_pure _ s

/-! ### Syntactic classes -/

/-- Everything that some readers read is read from a renamed text, renamed. -/
structure Regular (ρ : Renaming) (before : Array SyntaxError) (r : Readers) : Prop where
  parameters : ∀ count, Renames ρ before (List.map (Token.rename ρ)) (r (.parameters count))
    (r (.parameters count))
  expression : Renames ρ before (Expr.rename ρ) (r .expression) (r .expression)
  ternary : Renames ρ before (Expr.rename ρ) (r .ternary) (r .ternary)
  level : ∀ here, Renames ρ before (Expr.rename ρ) (r (.level here)) (r (.level here))
  operand : ∀ here, Renames ρ before (Expr.rename ρ) (r (.operand here)) (r (.operand here))
  levelRest : ∀ here left, Renames ρ before (Expr.rename ρ) (r (.levelRest here left))
    (r (.levelRest here (left.rename ρ)))
  unary : Renames ρ before (Expr.rename ρ) (r .unary) (r .unary)
  calls : ∀ head, Renames ρ before (Expr.rename ρ) (r (.calls head)) (r (.calls (head.rename ρ)))
  arguments : ∀ count,
    Renames ρ before (renameExprs ρ) (r (.arguments count)) (r (.arguments count))
  primary : Renames ρ before (Expr.rename ρ) (r .primary) (r .primary)
  functionRest : ∀ kind,
    Renames ρ before (Prod.map (List.map (Token.rename ρ)) (renameStmts ρ))
      (r (.functionRest kind)) (r (.functionRest kind))
  block : Renames ρ before (renameStmts ρ) (r .block) (r .block)
  member : ∀ kind, Renames ρ before (Member.rename ρ) (r (.member kind)) (r (.member kind))
  members : Renames ρ before (Prod.map (renameFunctions ρ) (renameGetters ρ)) (r .members)
    (r .members)
  classDecl : Renames ρ before (Stmt.rename ρ) (r .classDecl) (r .classDecl)
  varDecl : Renames ρ before (Stmt.rename ρ) (r .varDecl) (r .varDecl)
  declaration : Renames ρ before (Stmt.rename ρ) (r .declaration) (r .declaration)
  statement : Renames ρ before (Stmt.rename ρ) (r .statement) (r .statement)
  forStmt : Renames ρ before (Stmt.rename ρ) (r .forStmt) (r .forStmt)

lemma Level.join_rename (here : Level) (left : Expr) (operator : Token) (right : Expr) :
    (here.join left operator right).rename ρ =
      here.join (left.rename ρ) (operator.rename ρ) (right.rename ρ) := by
  cases here <;> simp only [Level.join, Expr.rename]

lemma forLoop_rename (initializer : Option Stmt) (condition : Expr) (increment : Option Expr)
    (body : Stmt) :
    (forLoop initializer condition increment body).rename ρ =
      forLoop (initializer.map (Stmt.rename ρ)) (condition.rename ρ)
        (increment.map (Expr.rename ρ)) (body.rename ρ) := by
  cases initializer <;> cases increment <;> simp only [forLoop, Stmt.rename, renameStmts,
    Option.map_none, Option.map_some]

section Step

variable {r : Readers} (h : Regular ρ before r)

include h

lemma parametersFrom_renames (count : Nat) :
    Renames ρ before (List.map (Token.rename ρ)) (r.parametersFrom count)
      (r.parametersFrom count) := by
  refine (renames_expect _ _).bind fun name => (renames_accept _).bind fun more => ?_
  cases more with
  | true => exact (h.parameters _).bind fun params => renames_pure _ (name :: params)
  | false => exact renames_pure _ [name]

lemma parameters_renames (count : Nat) :
    Renames ρ before (List.map (Token.rename ρ)) (r.step (.parameters count))
      (r.step (.parameters count)) := by
  rw [Readers.step]
  split
  · exact (renames_noteHere _).bind fun _ => parametersFrom_renames h count
  · exact parametersFrom_renames h count

lemma expression_renames :
    Renames ρ before (Expr.rename ρ) (r.step .expression) (r.step .expression) := by
  refine h.ternary.bind fun target => (renames_accept? _).bind fun equals => ?_
  cases equals with
  | none => exact renames_pure _ target
  | some equals =>
    refine h.expression.bind fun value => ?_
    cases target with
    | name _ name =>
      exact renames_freshId.bind fun id => renames_pure _ (Expr.assign id name value)
    | get object name => exact renames_pure _ (Expr.set object name value)
    | _ => exact (renames_note _ equals).bind fun _ => renames_pure _ value

lemma ternary_renames :
    Renames ρ before (Expr.rename ρ) (r.step .ternary) (r.step .ternary) := by
  refine (h.level _).bind fun condition => (renames_accept _).bind fun asked => ?_
  cases asked with
  | true =>
    refine h.expression.bind fun first => (renames_expect _ _).bind fun _ => ?_
    exact h.ternary.bind fun second => renames_pure _ (Expr.ternary condition first second)
  | false => exact renames_pure _ condition

lemma operand_renames (here : Level) :
    Renames ρ before (Expr.rename ρ) (r.step (.operand here)) (r.step (.operand here)) := by
  rw [Readers.step]
  cases here.tighter with
  | none => exact h.unary
  | some next => exact h.level next

lemma levelRest_renames (here : Level) (left : Expr) :
    Renames ρ before (Expr.rename ρ) (r.step (.levelRest here left))
      (r.step (.levelRest here (left.rename ρ))) := by
  refine (renames_accept? _).bind fun operator => ?_
  cases operator with
  | none => exact renames_pure _ left
  | some operator =>
    refine (h.operand here).bind fun right => ?_
    have hrest := h.levelRest here (here.join left operator right)
    rw [Level.join_rename] at hrest
    exact hrest

lemma unary_renames : Renames ρ before (Expr.rename ρ) (r.step .unary) (r.step .unary) := by
  refine (renames_accept? _).bind fun operator => ?_
  cases operator with
  | none => exact h.primary.bind fun head => h.calls head
  | some operator => exact h.unary.bind fun operand => renames_pure _ (Expr.unary operator operand)

lemma callRest_renames (head : Expr) (es : List Expr) :
    Renames ρ before (Expr.rename ρ) (r.callRest head es)
      (r.callRest (head.rename ρ) (renameExprs ρ es)) :=
  (renames_expect _ _).bind fun paren => h.calls (.call head paren es)

lemma calls_renames (head : Expr) :
    Renames ρ before (Expr.rename ρ) (r.step (.calls head)) (r.step (.calls (head.rename ρ))) := by
  refine (renames_accept? _).bind fun token => ?_
  cases token with
  | none => exact renames_pure _ head
  | some token =>
    simp only [Option.map_some, Token.rename_kind]
    split
    · refine renames_peekKind.bind fun kind => ?_
      rw [id]
      split
      · exact callRest_renames h head []
      · exact (h.arguments 0).bind (callRest_renames h head)
    · exact (renames_expect _ _).bind fun name => h.calls (.get head name)
    · exact (renames_expect _ _).bind fun name => h.calls (.nilGet head name)

lemma argumentsFrom_renames (count : Nat) :
    Renames ρ before (renameExprs ρ) (r.argumentsFrom count) (r.argumentsFrom count) := by
  refine h.expression.bind fun argument => (renames_accept _).bind fun more => ?_
  cases more with
  | true => exact (h.arguments _).bind fun es => renames_pure _ (argument :: es)
  | false => exact renames_pure _ [argument]

lemma arguments_renames (count : Nat) :
    Renames ρ before (renameExprs ρ) (r.step (.arguments count)) (r.step (.arguments count)) := by
  rw [Readers.step]
  split
  · exact (renames_noteHere _).bind fun _ => argumentsFrom_renames h count
  · exact argumentsFrom_renames h count

lemma primary_renames :
    Renames ρ before (Expr.rename ρ) (r.step .primary) (r.step .primary) := by
  refine renames_peekKind.bind fun kind => ?_
  rw [id]
  split
  · exact renames_take.bind fun _ => renames_pure _ (Expr.literal (.bool false))
  · exact renames_take.bind fun _ => renames_pure _ (Expr.literal (.bool true))
  · exact renames_take.bind fun _ => renames_pure _ (Expr.literal .nil)
  · exact renames_take.bind fun token => renames_pure _ (Expr.literal (token.literal.getD .nil))
  · exact renames_take.bind fun token => renames_pure _ (Expr.literal (token.literal.getD .nil))
  · exact renames_take.bind fun keyword =>
      renames_freshId.bind fun id => renames_pure _ (Expr.this id keyword)
  · refine renames_take.bind fun keyword => (renames_expect _ _).bind fun _ => ?_
    exact (renames_expect _ _).bind fun method =>
      renames_freshId.bind fun id => renames_pure _ (Expr.super id keyword method)
  · exact renames_take.bind fun name =>
      renames_freshId.bind fun id => renames_pure _ (Expr.name id name)
  · refine renames_take.bind fun keyword => (renames_expect _ _).bind fun _ => ?_
    exact (h.functionRest _).bind fun f =>
      renames_pure _ (Expr.lambda (.mk ⟨.kwFun, "lambda", none, keyword.line⟩ f.1 f.2))
  · refine renames_take.bind fun _ => h.expression.bind fun inner => ?_
    exact (renames_expect _ _).bind fun _ => renames_pure _ (Expr.grouping inner)
  · exact renames_stop _ _

lemma functionBody_renames (kind : DeclKind) (params : List Token) :
    Renames ρ before (Prod.map (List.map (Token.rename ρ)) (renameStmts ρ))
      (r.functionBody kind params) (r.functionBody kind (params.map (Token.rename ρ))) := by
  refine (renames_expect _ _).bind fun _ => (renames_expect _ _).bind fun _ => ?_
  exact h.block.bind fun body => renames_pure _ (params, body)

lemma functionRest_renames (kind : DeclKind) :
    Renames ρ before (Prod.map (List.map (Token.rename ρ)) (renameStmts ρ))
      (r.step (.functionRest kind)) (r.step (.functionRest kind)) := by
  refine renames_peekKind.bind fun found => ?_
  rw [id]
  split
  · exact functionBody_renames h kind []
  · exact (h.parameters 0).bind (functionBody_renames h kind)

lemma block_renames : Renames ρ before (renameStmts ρ) (r.step .block) (r.step .block) := by
  refine renames_peekKind.bind fun kind => ?_
  rw [id]
  split
  · exact renames_take.bind fun _ => renames_pure _ []
  · exact renames_stop _ _
  · exact h.declaration.bind fun first => h.block.bind fun rest => renames_pure _ (first :: rest)

lemma member_renames (kind : DeclKind) :
    Renames ρ before (Member.rename ρ) (r.step (.member kind)) (r.step (.member kind)) := by
  refine (renames_expect _ _).bind fun name => (renames_accept _).bind fun braced => ?_
  cases braced with
  | true => exact h.block.bind fun body => renames_pure _ (Member.getter (.mk name body))
  | false =>
    refine (renames_expect _ _).bind fun _ => ?_
    exact (h.functionRest kind).bind fun f => renames_pure _ (Member.function (.mk name f.1 f.2))

lemma members_renames :
    Renames ρ before (Prod.map (renameFunctions ρ) (renameGetters ρ)) (r.step .members)
      (r.step .members) := by
  refine renames_peekKind.bind fun kind => ?_
  rw [id]
  split
  · exact renames_pure _ ([], [])
  · exact renames_pure _ ([], [])
  · refine (h.member .method).bind fun first => h.members.bind fun rest => ?_
    cases first with
    | function f => exact renames_pure _ (f :: rest.1, rest.2)
    | getter g => exact renames_pure _ (rest.1, g :: rest.2)

lemma classBody_renames (name : Token) (superclass : Option Expr) :
    Renames ρ before (Stmt.rename ρ) (r.classBody name superclass)
      (r.classBody (name.rename ρ) (superclass.map (Expr.rename ρ))) := by
  refine (renames_expect _ _).bind fun _ => h.members.bind fun members => ?_
  refine (renames_expect _ _).bind fun _ => ?_
  cases superclass with
  | none => exact renames_pure _ (Stmt.classDecl name none members.1 members.2)
  | some superclass =>
    exact renames_pure _ (Stmt.classDecl name (some superclass) members.1 members.2)

lemma classDecl_renames :
    Renames ρ before (Stmt.rename ρ) (r.step .classDecl) (r.step .classDecl) := by
  refine (renames_expect _ _).bind fun name => (renames_accept _).bind fun derived => ?_
  cases derived with
  | true =>
    refine (renames_expect _ _).bind fun superName => renames_freshId.bind fun id => ?_
    exact classBody_renames h name (some (.name id superName))
  | false => exact classBody_renames h name none

lemma varDecl_renames :
    Renames ρ before (Stmt.rename ρ) (r.step .varDecl) (r.step .varDecl) := by
  refine (renames_expect _ _).bind fun name => (renames_accept _).bind fun initialized => ?_
  cases initialized with
  | true => exact h.expression.bind fun value => renames_pure _ (Stmt.var name (some value))
  | false => exact renames_pure _ (Stmt.var name none)

lemma declaration_renames :
    Renames ρ before (Stmt.rename ρ) (r.step .declaration) (r.step .declaration) := by
  refine renames_peekKind.bind fun kind => ?_
  rw [id]
  split
  · exact renames_take.bind fun _ => h.classDecl
  · exact renames_take.bind fun _ => h.varDecl.bind renames_ended
  · refine renames_peekSecondKind.bind fun second => ?_
    rw [id]
    split
    · refine renames_take.bind fun _ => (h.member .function).bind fun member => ?_
      cases member with
      | function declaration => exact renames_pure _ (Stmt.function declaration)
      | getter declaration => exact renames_pure _ (Stmt.getter declaration)
    · exact h.statement
  · exact h.statement

lemma statement_renames :
    Renames ρ before (Stmt.rename ρ) (r.step .statement) (r.step .statement) := by
  refine renames_peekKind.bind fun kind => ?_
  rw [id]
  split
  · -- `if`
    refine renames_take.bind fun _ => (renames_expect _ _).bind fun _ => ?_
    refine h.expression.bind fun condition => (renames_expect _ _).bind fun _ => ?_
    refine h.statement.bind fun consequent => (renames_accept _).bind fun more => ?_
    cases more with
    | true =>
      exact h.statement.bind fun alternative =>
        renames_pure _ (Stmt.ifStmt condition consequent (some alternative))
    | false => exact renames_pure _ (Stmt.ifStmt condition consequent none)
  · -- `while`
    refine renames_take.bind fun _ => (renames_expect _ _).bind fun _ => ?_
    refine h.expression.bind fun condition => (renames_expect _ _).bind fun _ => ?_
    exact h.statement.bind fun body => renames_pure _ (Stmt.whileStmt condition body)
  · -- `return`
    refine renames_take.bind fun keyword => renames_peekKind.bind fun next => ?_
    rw [id]
    split
    · exact renames_ended (.returnStmt keyword none)
    · exact renames_ended (.returnStmt keyword none)
    · exact renames_ended (.returnStmt keyword none)
    · refine Renames.bind (f := Option.map (Expr.rename ρ)) ?_ fun value => ?_
      · exact h.expression.bind fun value => renames_pure _ (some value)
      · cases value with
        | none => exact renames_ended (.returnStmt keyword none)
        | some value => exact renames_ended (.returnStmt keyword (some value))
  · exact renames_take.bind fun _ => h.forStmt
  · exact renames_take.bind fun keyword =>
      h.expression.bind fun value => renames_ended (.print keyword value)
  · exact renames_take.bind fun keyword => renames_ended (.breakStmt keyword)
  · exact renames_take.bind fun _ => h.block.bind fun body => renames_pure _ (Stmt.block body)
  · exact h.expression.bind fun value => renames_ended (.expression value)

lemma forBody_renames (initializer : Option Stmt) (condition : Expr) (increment : Option Expr) :
    Renames ρ before (Stmt.rename ρ) (r.forBody initializer condition increment)
      (r.forBody (initializer.map (Stmt.rename ρ)) (condition.rename ρ)
        (increment.map (Expr.rename ρ))) := by
  refine (renames_expect _ _).bind fun _ => h.statement.bind fun body => ?_
  rw [← forLoop_rename]
  exact renames_pure _ _

lemma forIncrement_renames (initializer : Option Stmt) (condition : Expr) :
    Renames ρ before (Stmt.rename ρ) (r.forIncrement initializer condition)
      (r.forIncrement (initializer.map (Stmt.rename ρ)) (condition.rename ρ)) := by
  refine (renames_expect _ _).bind fun _ => renames_peekKind.bind fun kind => ?_
  rw [id]
  split
  · exact forBody_renames h initializer condition none
  · refine Renames.bind (f := Option.map (Expr.rename ρ)) ?_
      (forBody_renames h initializer condition)
    exact h.expression.bind fun step => renames_pure _ (some step)

lemma forCondition_renames (initializer : Option Stmt) :
    Renames ρ before (Stmt.rename ρ) (r.forCondition initializer)
      (r.forCondition (initializer.map (Stmt.rename ρ))) := by
  refine renames_peekKind.bind fun kind => ?_
  rw [id]
  split
  · exact forIncrement_renames h initializer (.literal (.bool true))
  · exact h.expression.bind (forIncrement_renames h initializer)

lemma forStmt_renames :
    Renames ρ before (Stmt.rename ρ) (r.step .forStmt) (r.step .forStmt) := by
  refine (renames_expect _ _).bind fun _ => renames_peekKind.bind fun kind => ?_
  rw [id]
  split
  · exact renames_take.bind fun _ => forCondition_renames h none
  · refine renames_take.bind fun _ => h.varDecl.bind fun first => ?_
    exact (renames_expect _ _).bind fun _ => forCondition_renames h (some first)
  · refine h.expression.bind fun first => ?_
    exact (renames_expect _ _).bind fun _ => forCondition_renames h (some (.expression first))

/-- One step keeps it that what is read from a renamed text is renamed. -/
lemma Regular.step : Regular ρ before r.step :=
  ⟨parameters_renames h, expression_renames h, ternary_renames h,
    fun here => (h.operand here).bind fun left => h.levelRest here left, operand_renames h,
    levelRest_renames h, unary_renames h, calls_renames h, arguments_renames h,
    primary_renames h, functionRest_renames h, block_renames h, member_renames h,
    members_renames h, classDecl_renames h, varDecl_renames h, declaration_renames h,
    statement_renames h, forStmt_renames h⟩

end Step

/-- Whatever is read within any bound is read from a renamed text, renamed. -/
theorem regular (ρ : Renaming) (before : Array SyntaxError) (bound : Nat) :
    Regular ρ before (readers bound) := by
  induction bound with
  | zero => constructor <;> intros <;> exact renames_stop _ _
  | succ bound h => exact h.step

/-! ### Whole texts -/

lemma skipToStatement_rename (previous : Token) (rest : List Token) :
    skipToStatement (previous.rename ρ) (rest.map (Token.rename ρ)) =
      (skipToStatement previous rest).map (Token.rename ρ) := by
  induction rest generalizing previous with
  | nil => rfl
  | cons t rest ih =>
    rw [List.map_cons, skipToStatement, skipToStatement, apply_ite (List.map (Token.rename ρ))]
    exact if_congr Iff.rfl rfl (ih t)

/-- The end of the text is never skipped. -/
lemma exists_end_of_skipToStatement (previous : Token) {rest : List Token}
    (h : ∃ t ∈ rest, t.kind = .endOfText) :
    ∃ t ∈ skipToStatement previous rest, t.kind = .endOfText := by
  induction rest generalizing previous with
  | nil => exact h
  | cons head rest ih =>
    unfold skipToStatement
    split
    · exact h
    · next hstop =>
      obtain ⟨t, ht, hk⟩ := h
      rcases List.mem_cons.mp ht with rfl | ht
      · simp [hk] at hstop
      · exact ih head ⟨t, ht, hk⟩

lemma synchronize_rename (before : Array SyntaxError) {c : Cursor} (hc : c.Steady ρ) :
    synchronize (c.rename ρ before) = (synchronize c).rename ρ before ∧
      (synchronize c).Steady ρ := by
  refine ⟨?_, hc.advance.node_succ, exists_end_of_skipToStatement _ hc.advance.ends⟩
  unfold synchronize
  rw [Cursor.peek_rename hc, Cursor.advance_rename]
  simp only [Cursor.rename, skipToStatement_rename]

lemma Cursor.recover_rename (before : Array SyntaxError) {c : Cursor} (hc : c.Steady ρ)
    (e : SyntaxError) :
    (c.rename ρ before).recover (e.rename ρ) = (c.recover e).rename ρ before ∧
      (c.recover e).Steady ρ := by
  have hnoted : Cursor.Steady ρ { c with noted := c.noted.push e } := ⟨hc.node_succ, hc.ends⟩
  obtain ⟨heq, hsteady⟩ := synchronize_rename before hnoted
  refine ⟨?_, hsteady⟩
  rw [Cursor.recover, Cursor.recover, ← heq]
  simp only [Cursor.rename, Array.map_push, Array.append_push]

lemma declarations_rename {read : Reader Stmt} (hread : Renames ρ before (Stmt.rename ρ) read read)
    (rounds : Nat) {c : Cursor} (hc : c.Steady ρ) (found : Array Stmt) :
    declarations read rounds (c.rename ρ before) (found.map (Stmt.rename ρ)) =
      ((declarations read rounds c found).1.map (Stmt.rename ρ),
        (declarations read rounds c found).2.rename ρ before) := by
  induction rounds generalizing c found with
  | zero => rfl
  | succ rounds ih =>
    simp only [declarations, Cursor.peek_rename hc, Token.rename_kind]
    split
    · rfl
    · have hd := hread c hc
      cases hr : read c with
      | ok s c' =>
        rw [hr] at hd
        rw [hd.2]
        dsimp only
        rw [← Array.map_push]
        exact ih hd.1 (found.push s)
      | error e c' =>
        rw [hr] at hd
        obtain ⟨hs, he⟩ := hd
        obtain ⟨heq, hsteady⟩ := Cursor.recover_rename before hs e
        rw [he]
        dsimp only
        rw [heq]
        exact ih hsteady found

end Parser

/-- The program that renamed tokens spell, or the complaints about them. -/
def Program.renameRead (ρ : Renaming) :
    Except (List SyntaxError) Program × NodeId → Except (List SyntaxError) Program × NodeId
  | (.ok p, next) => (.ok (renameStmts ρ p), ρ.node next)
  | (.error errors, next) => (.error (errors.map (SyntaxError.rename ρ)), ρ.node next)

/-- From renamed tokens, with identities that are given out from a renamed one on, the renamed
program is read. -/
theorem Program.parse_rename (ρ : Renaming) {nextId : NodeId} {tokens : List Token}
    (hnode : ∀ id, nextId ≤ id → ρ.node (id + 1) = ρ.node id + 1)
    (hend : ∃ t ∈ tokens, t.kind = .endOfText) :
    Program.parse (ρ.node nextId) (tokens.map (Token.rename ρ)) =
      Program.renameRead ρ (Program.parse nextId tokens) := by
  have hc : Parser.Cursor.Steady ρ ⟨tokens, nextId, #[]⟩ := ⟨hnode, hend⟩
  have hread := (Parser.regular ρ #[] (Parser.boundPerToken * (tokens.length + 1))).declaration
  have hd := Parser.declarations_rename hread (tokens.length + 1) hc #[]
  simp only [Parser.Cursor.rename, Array.map_empty, Array.empty_append] at hd
  simp only [Program.parse, List.length_map, hd]
  generalize Parser.declarations _ _ _ _ = result
  obtain ⟨found, c⟩ := result
  by_cases hn : c.noted = #[]
  · simp [hn, Program.renameRead, renameStmts_eq_map]
  · simp [hn, Program.renameRead]

end Scripting
