import Scripting.Proofs.Program.Seams

/-!
# Reading two texts as one

If a text is read as a program and its last token is a semicolon, then more text may follow: what is
read from the first text stays the same, and the rest is read as if it stood alone. `Carried` states
this about the readers of all syntactic classes, and one step keeps it. The bound of the longer text
is larger, which makes no difference.
-/

namespace Scripting

namespace Parser

variable {α β : Type} {plain : Prop} {final : Token} {more : List Token} {c c' : Cursor}

/-! ### Syntactic classes -/

/-- A reader that stays inside the first text. -/
abbrev CarriesInside (plain : Prop) (final : Token) (more : List Token) (taken : Nat)
    (x x' : Reader α) : Prop :=
  Carries (Inside plain final more) (Inside plain final more) taken x x'

/-- A reader that may come to the end of the first text. -/
abbrev CarriesUpto (plain : Prop) (final : Token) (more : List Token) (taken : Nat)
    (x x' : Reader α) : Prop :=
  Carries (Inside plain final more) (Upto plain final more) taken x x'

/-- Everything that some readers read from the first text is read by others from the longer one. -/
structure Carried (plain : Prop) (final : Token) (more : List Token) (r r' : Readers) : Prop where
  parameters : ∀ count,
    CarriesInside plain final more 1 (r (.parameters count)) (r' (.parameters count))
  expression : CarriesInside plain final more 1 (r .expression) (r' .expression)
  ternary : CarriesInside plain final more 1 (r .ternary) (r' .ternary)
  level : ∀ here, CarriesInside plain final more 1 (r (.level here)) (r' (.level here))
  operand : ∀ here, CarriesInside plain final more 1 (r (.operand here)) (r' (.operand here))
  levelRest : ∀ here left,
    CarriesInside plain final more 0 (r (.levelRest here left)) (r' (.levelRest here left))
  unary : CarriesInside plain final more 1 (r .unary) (r' .unary)
  calls : ∀ head, CarriesInside plain final more 0 (r (.calls head)) (r' (.calls head))
  arguments : ∀ count,
    CarriesInside plain final more 1 (r (.arguments count)) (r' (.arguments count))
  primary : CarriesInside plain final more 1 (r .primary) (r' .primary)
  functionRest : ∀ kind,
    CarriesInside plain final more 1 (r (.functionRest kind)) (r' (.functionRest kind))
  block : Carries (Upto plain final more) (Inside plain final more) 1 (r .block) (r' .block)
  member : ∀ kind, CarriesInside plain final more 1 (r (.member kind)) (r' (.member kind))
  members : CarriesInside plain final more 0 (r .members) (r' .members)
  classDecl : CarriesInside plain final more 1 (r .classDecl) (r' .classDecl)
  varDecl : CarriesInside plain final more 1 (r .varDecl) (r' .varDecl)
  declaration : CarriesUpto plain final more 1 (r .declaration) (r' .declaration)
  statement : CarriesUpto plain final more 1 (r .statement) (r' .statement)
  forStmt : CarriesUpto plain final more 1 (r .forStmt) (r' .forStmt)

section Step

variable {r r' : Readers} (h : Carried plain final more r r')

include h

lemma parametersFrom_carried (count : Nat) :
    CarriesInside plain final more 1 (r.parametersFrom count) (r'.parametersFrom count) := by
  refine (carries_expect (by decide) (by decide) _).bind fun name =>
    (carries_accept (by decide) (by decide)).bind fun another => ?_
  cases another with
  | true => exact ((h.parameters _).bind fun params => carries_pure _).any
  | false => exact carries_pure _

lemma parameters_carried (count : Nat) :
    CarriesInside plain final more 1 (r.step (.parameters count))
      (r'.step (.parameters count)) := by
  rw [Readers.step, Readers.step]
  split
  · exact (carries_noteHere _).before fun _ => parametersFrom_carried h count
  · exact parametersFrom_carried h count

lemma expression_carried :
    CarriesInside plain final more 1 (r.step .expression) (r'.step .expression) := by
  refine h.ternary.bind fun target =>
    (carries_accept? (by decide) (by decide)).bind fun equals => ?_
  cases equals with
  | none => exact carries_pure _
  | some equals =>
    refine h.expression.any.bind fun value => ?_
    cases target with
    | name _ name => exact carries_freshId.bind fun id => carries_pure _
    | get object name => exact carries_pure _
    | _ => exact (carries_note _ _).bind fun _ => carries_pure _

lemma ternary_carried :
    CarriesInside plain final more 1 (r.step .ternary) (r'.step .ternary) := by
  refine (h.level _).bind fun condition =>
    (carries_accept (by decide) (by decide)).bind fun asked => ?_
  cases asked with
  | true =>
    refine h.expression.any.bind fun first => ?_
    refine (carries_expect (by decide) (by decide) _).any.bind fun _ => ?_
    exact h.ternary.any.bind fun second => carries_pure _
  | false => exact carries_pure _

lemma operand_carried (here : Level) :
    CarriesInside plain final more 1 (r.step (.operand here)) (r'.step (.operand here)) := by
  rw [Readers.step, Readers.step]
  cases here.tighter with
  | none => exact h.unary
  | some next => exact h.level next

lemma levelRest_carried (here : Level) (left : Expr) :
    CarriesInside plain final more 0 (r.step (.levelRest here left))
      (r'.step (.levelRest here left)) := by
  have hoperators : .semicolon ∉ here.operators ∧ .endOfText ∉ here.operators := by
    cases here <;> decide
  refine (carries_accept? hoperators.1 hoperators.2).bind fun operator => ?_
  cases operator with
  | none => exact carries_pure _
  | some operator => exact (h.operand here).any.bind fun right => h.levelRest here _

lemma unary_carried :
    CarriesInside plain final more 1 (r.step .unary) (r'.step .unary) := by
  refine (carries_accept? (by decide) (by decide)).before fun operator => ?_
  cases operator with
  | none => exact h.primary.bind fun head => h.calls head
  | some operator => exact h.unary.bind fun operand => carries_pure _

lemma callRest_carried (head : Expr) (es : List Expr) :
    CarriesInside plain final more 0 (r.callRest head es) (r'.callRest head es) :=
  (carries_expect (by decide) (by decide) _).any.bind fun paren => h.calls _

lemma calls_carried (head : Expr) :
    CarriesInside plain final more 0 (r.step (.calls head)) (r'.step (.calls head)) := by
  refine (carries_accept? (by decide) (by decide)).bind fun token => ?_
  cases token with
  | none => exact carries_pure _
  | some token =>
    dsimp only
    split
    · refine carries_peekKind fun kind => Carries.at ?_
      split
      · exact callRest_carried h head []
      · exact ((h.arguments 0).bind (callRest_carried h head)).any
    · exact (carries_expect (by decide) (by decide) _).any.bind fun name => h.calls _
    · exact (carries_expect (by decide) (by decide) _).any.bind fun name => h.calls _

lemma argumentsFrom_carried (count : Nat) :
    CarriesInside plain final more 1 (r.argumentsFrom count) (r'.argumentsFrom count) := by
  refine h.expression.bind fun argument =>
    (carries_accept (by decide) (by decide)).bind fun another => ?_
  cases another with
  | true => exact ((h.arguments _).bind fun es => carries_pure _).any
  | false => exact carries_pure _

lemma arguments_carried (count : Nat) :
    CarriesInside plain final more 1 (r.step (.arguments count)) (r'.step (.arguments count)) := by
  rw [Readers.step, Readers.step]
  split
  · exact (carries_noteHere _).before fun _ => argumentsFrom_carried h count
  · exact argumentsFrom_carried h count

lemma primary_carried :
    CarriesInside plain final more 1 (r.step .primary) (r'.step .primary) := by
  refine carries_peekKind fun kind => ?_
  split
  · exact (carries_take (by decide) (by decide)).bind fun _ => carries_pure _
  · exact (carries_take (by decide) (by decide)).bind fun _ => carries_pure _
  · exact (carries_take (by decide) (by decide)).bind fun _ => carries_pure _
  · exact (carries_take (by decide) (by decide)).bind fun _ => carries_pure _
  · exact (carries_take (by decide) (by decide)).bind fun _ => carries_pure _
  · exact (carries_take (by decide) (by decide)).bind fun keyword =>
      carries_freshId.bind fun id => carries_pure _
  · -- `super`
    refine (carries_take (by decide) (by decide)).bind fun keyword => ?_
    refine (carries_expect (by decide) (by decide) _).any.bind fun _ => ?_
    refine (carries_expect (by decide) (by decide) _).any.bind fun method => ?_
    exact carries_freshId.bind fun id => carries_pure _
  · exact (carries_take (by decide) (by decide)).bind fun name =>
      carries_freshId.bind fun id => carries_pure _
  · -- a lambda
    refine (carries_take (by decide) (by decide)).bind fun keyword => ?_
    refine (carries_expect (by decide) (by decide) _).any.bind fun _ => ?_
    exact ((h.functionRest _).bind fun f => carries_pure _).any
  · -- a group
    refine (carries_take (by decide) (by decide)).bind fun _ => ?_
    refine h.expression.any.bind fun inner => ?_
    exact ((carries_expect (by decide) (by decide) _).bind fun _ => carries_pure _).any
  · exact carries_stop _

lemma functionBody_carried (kind : DeclKind) (params : List Token) :
    CarriesInside plain final more 1 (r.functionBody kind params)
      (r'.functionBody kind params) := by
  refine (carries_expect (by decide) (by decide) _).bind fun _ => ?_
  refine (carries_expect (by decide) (by decide) _).upto_of_inside.any.bind fun _ => ?_
  exact (h.block.bind fun body => carries_pure _).any

lemma functionRest_carried (kind : DeclKind) :
    CarriesInside plain final more 1 (r.step (.functionRest kind))
      (r'.step (.functionRest kind)) := by
  refine carries_peekKind fun found => Carries.at ?_
  split
  · exact functionBody_carried h kind []
  · exact (h.parameters 0).before (functionBody_carried h kind)

/-- A block does not end before its closing brace. -/
lemma block_carried (hr : Refusing r) (hfinal : final.kind = .endOfText) :
    Carries (Upto plain final more) (Inside plain final more) 1 (r.step .block)
      (r'.step .block) := by
  have hrefuses : Refuses (r.step .block) := by
    refine refuses_peekKind fun kind hk => ?_
    rcases hk with rfl | rfl
    · exact refuses_stop _
    · exact hr.declaration.bind _
  refine Carries.upto hfinal hrefuses ?_
  refine carries_peekKind fun kind => ?_
  split
  · exact (carries_take (by decide) (by decide)).bind fun _ => carries_pure _
  · exact carries_stop _
  · refine h.declaration.at.bind fun first => ?_
    exact (h.block.bind fun rest => carries_pure _).any

lemma member_carried (kind : DeclKind) :
    CarriesInside plain final more 1 (r.step (.member kind)) (r'.step (.member kind)) := by
  refine (carries_expect (by decide) (by decide) _).bind fun name => ?_
  refine (carries_accept (by decide) (by decide)).bind fun braced => ?_
  cases braced with
  | true =>
    exact fun c c' hc => (h.block.bind fun body => carries_pure _).any c c' (.inside hc)
  | false =>
    refine (carries_expect (by decide) (by decide) _).any.bind fun _ => ?_
    exact ((h.functionRest kind).bind fun f => carries_pure _).any

lemma members_carried :
    CarriesInside plain final more 0 (r.step .members) (r'.step .members) := by
  refine carries_peekKind fun kind => Carries.at ?_
  split
  · exact carries_pure _
  · exact carries_pure _
  · refine (h.member .method).any.bind fun first => h.members.bind fun rest => ?_
    cases first with
    | function f => exact carries_pure _
    | getter g => exact carries_pure _

lemma classBody_carried (name : Token) (superclass : Option Expr) :
    CarriesInside plain final more 0 (r.classBody name superclass)
      (r'.classBody name superclass) := by
  refine (carries_expect (by decide) (by decide) _).any.bind fun _ => ?_
  refine h.members.bind fun members => ?_
  exact ((carries_expect (by decide) (by decide) _).bind fun _ => carries_pure _).any

lemma classDecl_carried :
    CarriesInside plain final more 1 (r.step .classDecl) (r'.step .classDecl) := by
  refine (carries_expect (by decide) (by decide) _).bind fun name => ?_
  refine (carries_accept (by decide) (by decide)).bind fun derived => ?_
  cases derived with
  | true =>
    refine (carries_expect (by decide) (by decide) _).any.bind fun superName => ?_
    exact carries_freshId.bind fun id => classBody_carried h name _
  | false => exact classBody_carried h name none

lemma varDecl_carried :
    CarriesInside plain final more 1 (r.step .varDecl) (r'.step .varDecl) := by
  refine (carries_expect (by decide) (by decide) _).bind fun name => ?_
  refine (carries_accept (by decide) (by decide)).bind fun initialized => ?_
  cases initialized with
  | true => exact (h.expression.bind fun value => carries_pure _).any
  | false => exact carries_pure _

lemma declaration_carried :
    CarriesUpto plain final more 1 (r.step .declaration) (r'.step .declaration) := by
  refine carries_peekKind fun kind => ?_
  split
  · exact (carries_take (by decide) (by decide)).bind fun _ => h.classDecl.any.upto_of_inside
  · refine (carries_take (by decide) (by decide)).bind fun _ => ?_
    exact h.varDecl.any.bind fun result => carries_ended result
  · refine (carries_peekSecondKind (by decide)).before fun second => ?_
    split
    · refine (carries_take (by decide) (by decide)).bind fun _ => ?_
      refine (h.member .function).any.bind fun member => ?_
      cases member with
      | function declaration => exact (carries_pure _).upto_of_inside
      | getter declaration => exact (carries_pure _).upto_of_inside
    · exact h.statement.at
  · exact h.statement.at

lemma statement_carried (hfinal : final.kind = .endOfText)
    (hmore : (more.headD (.endAt 0)).kind ≠ .kwElse) :
    CarriesUpto plain final more 1 (r.step .statement) (r'.step .statement) := by
  refine carries_peekKind fun kind => ?_
  split
  · -- `if`
    refine (carries_take (by decide) (by decide)).bind fun _ => ?_
    refine (carries_expect (by decide) (by decide) _).any.bind fun _ => ?_
    refine h.expression.any.bind fun condition => ?_
    refine (carries_expect (by decide) (by decide) _).any.bind fun _ => ?_
    refine h.statement.any.bind fun consequent => carries_else hfinal hmore ?_ ?_
    · exact (h.statement.bind fun alternative => carries_pure _).any
    · exact carries_pure _
  · -- `while`
    refine (carries_take (by decide) (by decide)).bind fun _ => ?_
    refine (carries_expect (by decide) (by decide) _).any.bind fun _ => ?_
    refine h.expression.any.bind fun condition => ?_
    refine (carries_expect (by decide) (by decide) _).any.bind fun _ => ?_
    exact (h.statement.bind fun body => carries_pure _).any
  · -- `return`
    refine (carries_take (by decide) (by decide)).bind fun keyword => ?_
    refine carries_peekKind fun next => Carries.at ?_
    split
    · exact carries_ended _
    · exact carries_ended _
    · exact carries_ended _
    · exact (h.expression.bind fun value => carries_pure (some value)).any.bind fun value =>
        carries_ended _
  · exact (carries_take (by decide) (by decide)).bind fun _ => h.forStmt.any
  · refine (carries_take (by decide) (by decide)).bind fun keyword => ?_
    exact h.expression.any.bind fun value => carries_ended _
  · exact (carries_take (by decide) (by decide)).bind fun keyword => carries_ended _
  · refine (carries_take (by decide) (by decide)).upto_of_inside.bind fun _ => ?_
    exact (h.block.bind fun body => carries_pure _).any.upto_of_inside
  · exact h.expression.at.bind fun value => carries_ended _

lemma forBody_carried (initializer : Option Stmt) (condition : Expr) (increment : Option Expr) :
    CarriesUpto plain final more 0 (r.forBody initializer condition increment)
      (r'.forBody initializer condition increment) := by
  refine (carries_expect (by decide) (by decide) _).any.bind fun _ => ?_
  exact (h.statement.bind fun body => carries_pure _).any

/-- Behind the second clause of a loop, the text does not end before the closing parenthesis. -/
lemma forIncrement_carried (hr : Refusing r) (hfinal : final.kind = .endOfText)
    (initializer : Option Stmt) (condition : Expr) :
    CarriesUpto plain final more 0 (r.forIncrement initializer condition)
      (r'.forIncrement initializer condition) := by
  refine (carries_expectSemicolon _).any.bind fun _ => Carries.upto hfinal ?_ ?_
  · refine refuses_peekKind fun kind hk => ?_
    rw [if_neg (by rcases hk with rfl | rfl <;> decide)]
    exact (hr.expression.bind _).bind _
  · refine carries_peekKind fun kind => Carries.at ?_
    split
    · exact forBody_carried h initializer condition none
    · exact (h.expression.bind fun step => carries_pure (some step)).any.bind
        (forBody_carried h initializer condition)

/-- Nor does it behind the first one. -/
lemma forCondition_carried (hr : Refusing r) (hfinal : final.kind = .endOfText)
    (initializer : Option Stmt) :
    Carries (Upto plain final more) (Upto plain final more) 0 (r.forCondition initializer)
      (r'.forCondition initializer) := by
  refine Carries.upto hfinal ?_ ?_
  · refine refuses_peekKind fun kind hk => ?_
    rw [if_neg (by rcases hk with rfl | rfl <;> decide)]
    exact hr.expression.bind _
  · refine carries_peekKind fun kind => Carries.at ?_
    split
    · exact forIncrement_carried h hr hfinal initializer _
    · exact h.expression.any.bind (forIncrement_carried h hr hfinal initializer)

lemma forStmt_carried (hr : Refusing r) (hfinal : final.kind = .endOfText) :
    CarriesUpto plain final more 1 (r.step .forStmt) (r'.step .forStmt) := by
  refine (carries_expect (by decide) (by decide) _).bind fun _ => carries_peekKind fun kind => ?_
  split
  · exact (carries_takeSemicolon.bind fun _ => forCondition_carried h hr hfinal none).any
  · refine (carries_take (by decide) (by decide)).any.bind fun _ => ?_
    refine h.varDecl.any.bind fun first => ?_
    exact (carries_expectSemicolon _).any.bind fun _ =>
      forCondition_carried h hr hfinal (some first)
  · refine h.expression.any.at.bind fun first => ?_
    exact (carries_expectSemicolon _).any.bind fun _ =>
      forCondition_carried h hr hfinal (some (.expression first))

/-- One step keeps it that what is read from the first text is read from the longer one. -/
lemma Carried.step (hr : Refusing r) (hfinal : final.kind = .endOfText)
    (hmore : (more.headD (.endAt 0)).kind ≠ .kwElse) : Carried plain final more r.step r'.step :=
  ⟨parameters_carried h, expression_carried h, ternary_carried h,
    fun here => (h.operand here).bind fun left => h.levelRest here left, operand_carried h,
    levelRest_carried h, unary_carried h, calls_carried h, arguments_carried h,
    primary_carried h, functionRest_carried h, block_carried h hr hfinal, member_carried h,
    members_carried h, classDecl_carried h, varDecl_carried h, declaration_carried h,
    statement_carried h hfinal hmore, forStmt_carried h hr hfinal⟩

end Step

/-- Whatever is read within a bound from the first text is read from the longer one. -/
theorem carried (hfinal : final.kind = .endOfText)
    (hmore : (more.headD (.endAt 0)).kind ≠ .kwElse) {bound bound' : Nat} (hb : bound ≤ bound') :
    Carried plain final more (readers bound) (readers bound') := by
  induction bound generalizing bound' with
  | zero => constructor <;> intros <;> exact carries_stop _
  | succ bound ih =>
    obtain ⟨bound', rfl⟩ : ∃ smaller, bound' = smaller + 1 := ⟨bound' - 1, by omega⟩
    exact (ih (Nat.le_of_succ_le_succ hb)).step (refusing bound) hfinal hmore

/-! ### Whole texts -/

/-- A complaint that was noted stays noted. -/
lemma declarations_noted_ne_empty (bound rounds : Nat) (hc : ∃ t ∈ c.rest, t.kind = .endOfText)
    (hn : c.noted ≠ #[]) (found : Array Stmt) :
    (declarations (readers bound .declaration) rounds c found).2.noted ≠ #[] := by
  -- the complaints so far may be put aside, since reading does not look at them
  have hsteady : Cursor.Steady (.ofNodes id) { c with noted := #[] } := ⟨fun _ _ => rfl, hc⟩
  have hcursor : Cursor.rename (.ofNodes id) c.noted { c with noted := #[] } = c := by
    simp [Cursor.rename, Token.map_rename_eq_self]
  have hfound : found.map (Stmt.rename (.ofNodes id)) = found := by
    refine (Array.map_congr_left fun s _ => ?_).trans (Array.map_id _)
    exact s.rename_eq_self fun _ _ => rfl
  have hread := (regular (.ofNodes id) c.noted bound).declaration
  have hd := declarations_rename hread rounds hsteady found
  rw [hcursor, hfound] at hd
  rw [hd]
  simp [Cursor.rename, hn]

lemma Cursor.noted_advance (c : Cursor) : c.advance.noted = c.noted := by
  obtain ⟨rest, nextId, noted⟩ := c
  cases rest with
  | nil => rfl
  | cons t rest =>
    unfold Cursor.advance
    dsimp only
    split
    · rfl
    · rfl

/-- The end of the text is never passed. -/
lemma exists_end_of_declaration (bound : Nat) (hc : ∃ t ∈ c.rest, t.kind = .endOfText) :
    match readers bound .declaration c with
    | .ok _ d => ∃ t ∈ d.rest, t.kind = .endOfText
    | .error _ d => ∃ t ∈ d.rest, t.kind = .endOfText := by
  have h := (regular (.ofNodes id) #[] bound).declaration c ⟨fun _ _ => rfl, hc⟩
  cases hd : readers bound .declaration c with
  | ok s d =>
    rw [hd] at h
    exact h.1.ends
  | error e d =>
    rw [hd] at h
    exact h.1.ends

/-- A declaration that cannot be read is complained about. -/
lemma declarations_noted_of_error {bound : Nat} (rounds : Nat)
    (hc : ∃ t ∈ c.rest, t.kind = .endOfText) (hk : c.peek.kind ≠ .endOfText)
    (hd : ∀ s d, readers bound .declaration c ≠ .ok s d) (found : Array Stmt) :
    (declarations (readers bound .declaration) (rounds + 1) c found).2.noted ≠ #[] := by
  have hend := exists_end_of_declaration bound hc
  simp only [declarations, if_neg hk]
  cases he : readers bound .declaration c with
  | ok s d => exact absurd he (hd s d)
  | error e d =>
    rw [he] at hend
    have hsteady : Cursor.Steady (.ofNodes id) d := ⟨fun _ _ => rfl, hend⟩
    refine declarations_noted_ne_empty _ _ (Cursor.recover_rename #[] hsteady e).2.ends ?_ found
    simp [Cursor.recover, synchronize, Cursor.noted_advance]

/-- Reading a declaration takes a token. -/
lemma length_lt_of_declaration {bound : Nat} {s : Stmt} {d : Cursor}
    (h : readers bound .declaration c = .ok s d) : d.rest.length < c.rest.length := by
  have hcarried : Carried True (.endAt 0) [.endAt 0] (readers bound) (readers bound) :=
    carried rfl (by decide) (Nat.le_refl bound)
  exact (hcarried.declaration c c (.same trivial c) s d h).1

/-- Declarations that are read from the first text are read from the longer one, and then reading
goes on behind the seam. -/
lemma declarations_carried (hfinal : final.kind = .endOfText)
    (hmore : (more.headD (.endAt 0)).kind ≠ .kwElse) {bound bound' : Nat} (hb : bound ≤ bound')
    {rounds rounds' : Nat} (hc : Upto plain final more c c')
    (hend : ∃ t ∈ c.rest, t.kind = .endOfText) {found result : Array Stmt} {d : Cursor}
    (hd : declarations (readers bound .declaration) rounds c found = (result, d))
    (hn : d.noted = #[]) (hr : c.rest.length < rounds) (hr' : c'.rest.length < rounds')
    (before : Array Stmt) :
    ∃ read d' left, result = found ++ read ∧ Upto plain final more d d' ∧
      d.peek.kind = .endOfText ∧ d'.rest.length < left ∧
      declarations (readers bound' .declaration) rounds' c' before =
        declarations (readers bound' .declaration) left d' (before ++ read) := by
  induction rounds generalizing c c' rounds' found before with
  | zero => exact absurd hr (Nat.not_lt_zero _)
  | succ rounds ih =>
    obtain ⟨rounds', rfl⟩ : ∃ fewer, rounds' = fewer + 1 := ⟨rounds' - 1, by omega⟩
    by_cases hk : c.peek.kind = .endOfText
    · simp only [declarations, if_pos hk, Prod.mk.injEq] at hd
      obtain ⟨rfl, rfl⟩ := hd
      exact ⟨#[], c', rounds' + 1, by simp, hc, hk, hr', by simp⟩
    · have hc : Inside plain final more c c' := by
        cases hc with
        | inside hc => exact hc
        | seam nextId noted => exact absurd hfinal hk
      have hk' : ¬ c'.peek.kind = .endOfText := by rwa [hc.peek_eq]
      have hmid := exists_end_of_declaration bound hend
      cases hdecl : readers bound .declaration c with
      | error e m =>
        have hrefused : ∀ s m, readers bound .declaration c ≠ .ok s m := by simp [hdecl]
        have hne := declarations_noted_of_error rounds hend hk hrefused found
        rw [hd] at hne
        exact absurd hn hne
      | ok s m =>
        rw [hdecl] at hmid
        simp only [declarations, if_neg hk, hdecl] at hd
        obtain ⟨hle, m', hdecl', hm⟩ := (carried hfinal hmore hb).declaration c c' hc s m hdecl
        have hlt := length_lt_of_declaration hdecl'
        have hr : m.rest.length < rounds := by omega
        have hr' : m'.rest.length < rounds' := by omega
        obtain ⟨read, d', left, hread, hd', hpeek, hleft, hrest⟩ :=
          ih hm hmid hd hr hr' (before.push s)
        refine ⟨#[s] ++ read, d', left, ?_, hd', hpeek, hleft, ?_⟩
        · rw [hread]
          simp
        · simp only [declarations, if_neg hk', hdecl', hrest]
          simp

end Parser

lemma Program.parse_eq_ok {nextId next : NodeId} {tokens : List Token} {p : Program}
    (h : Program.parse nextId tokens = (.ok p, next)) :
    let read := Parser.readers (Parser.boundPerToken * (tokens.length + 1)) .declaration
    ∃ found d, Parser.declarations read (tokens.length + 1) ⟨tokens, nextId, #[]⟩ #[] = (found, d) ∧
      d.noted = #[] ∧ found.toList = p ∧ d.nextId = next := by
  intro read
  simp only [Program.parse] at h
  generalize Parser.declarations _ _ _ _ = result at h ⊢
  obtain ⟨found, d⟩ := result
  obtain ⟨hread, rfl⟩ := Prod.mk.inj h
  split at hread
  · next hn => exact ⟨found, d, rfl, by simpa using hn, by simpa using hread, rfl⟩
  · cases hread

/-- No program begins with `else`. -/
lemma Program.head_ne_else_of_parse {nextId next : NodeId} {tokens : List Token} {p : Program}
    (hend : ∃ t ∈ tokens, t.kind = .endOfText)
    (h : Program.parse nextId tokens = (.ok p, next)) :
    (tokens.headD (.endAt 0)).kind ≠ .kwElse := by
  intro hk
  obtain ⟨found, d, hd, hn, -, -⟩ := Program.parse_eq_ok h
  let start : Parser.Cursor := ⟨tokens, nextId, #[]⟩
  have hpeek : start.peek.kind = .kwElse := hk
  have hne := Parser.declarations_noted_of_error tokens.length (c := start) hend
    (by simp [hpeek])
    ((Parser.refusing (Parser.boundPerToken * (tokens.length + 1))).declaration start
      (.inr hpeek)) #[]
  rw [hd] at hne
  exact hne hn

/-- The program that two texts spell together, of which the first one is closed by a semicolon: the
statements of the first, and then those of the second. -/
theorem Program.parse_append {front more : List Token} {final : Token} {nextId mid next : NodeId}
    {p p' : Program} (hfront : Parser.Closed front) (hfinal : final.kind = .endOfText)
    (hend : ∃ t ∈ more, t.kind = .endOfText)
    (h : Program.parse nextId (front ++ [final]) = (.ok p, mid))
    (h' : Program.parse mid more = (.ok p', next)) :
    Program.parse nextId (front ++ more) = (.ok (p ++ p'), next) := by
  have hmore := Program.head_ne_else_of_parse hend h'
  obtain ⟨found, d, hd, hn, rfl, rfl⟩ := Program.parse_eq_ok h
  obtain ⟨found', d', hd', hn', rfl, rfl⟩ := Program.parse_eq_ok h'
  have hlength : 1 ≤ more.length := by
    obtain ⟨t, ht, -⟩ := hend
    exact List.length_pos_of_mem ht
  have hb : Parser.boundPerToken * ((front ++ [final]).length + 1) ≤
      Parser.boundPerToken * ((front ++ more).length + 1) := by
    refine Nat.mul_le_mul_left _ ?_
    simp only [List.length_append, List.length_cons, List.length_nil]
    omega
  have hb' : Parser.boundPerToken * (more.length + 1) ≤
      Parser.boundPerToken * ((front ++ more).length + 1) := by
    refine Nat.mul_le_mul_left _ ?_
    simp only [List.length_append]
    omega
  -- the first text is read up to the seam
  have hends : ∃ t ∈ front ++ [final], t.kind = .endOfText :=
    ⟨final, List.mem_append_right _ List.mem_cons_self, hfinal⟩
  have hstart : Parser.Upto False final more ⟨front ++ [final], nextId, #[]⟩
      ⟨front ++ more, nextId, #[]⟩ := .inside (.before hfront nextId #[])
  obtain ⟨read, e, left, hread, hseam, hpeek, hleft, hjoined⟩ :=
    Parser.declarations_carried hfinal hmore hb hstart hends hd hn (Nat.lt_succ_self _)
      (Nat.lt_succ_self _) #[]
  obtain rfl : e = ⟨more, d.nextId, #[]⟩ := by
    rw [← hn]
    cases hseam with
    | seam nextId noted => rfl
    | inside hc =>
      cases hc with
      | same hp c => exact hp.elim
      | before hf nextId noted =>
        obtain ⟨t, rest, rfl⟩ := hf.exists_cons
        exact absurd hpeek hf.of_cons.1
  -- and the second one to its end
  have hbehind : Parser.Upto True (.endAt 0) [.endAt 0] ⟨more, d.nextId, #[]⟩
      ⟨more, d.nextId, #[]⟩ := .inside (.same trivial _)
  obtain ⟨read', e', left', hread', hsame, hpeek', hleft', hjoined'⟩ :=
    Parser.declarations_carried rfl (by decide) hb' hbehind hend hd' hn' (Nat.lt_succ_self _)
      hleft (#[] ++ read)
  obtain rfl := hsame.eq
  obtain ⟨left', rfl⟩ : ∃ fewer, left' = fewer + 1 := ⟨left' - 1, by omega⟩
  have hdone : Parser.declarations
      (Parser.readers (Parser.boundPerToken * ((front ++ more).length + 1)) .declaration)
      ((front ++ more).length + 1) ⟨front ++ more, nextId, #[]⟩ #[] = (read ++ read', e') := by
    rw [hjoined, hjoined', Parser.declarations, if_pos hpeek', Array.empty_append]
  simp only [Program.parse, hdone, hn', hread, hread']
  simp

end Scripting
