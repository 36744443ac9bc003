import Scripting.Proofs.Program.Derivation

/-!
# Reading expressions

If every simple statement ends with a semicolon, the grammar leaves no choice: reading the tokens of
a tree gives that tree again, up to the identities of its nodes. A reader needs to know that the
token behind a phrase does not make the phrase longer. Operators that group to the left are read in
a loop, so that of such a phrase it is said how far the loop has come when its tokens are passed.
-/

namespace Scripting

open Grammar

namespace Grammar

/-- A simple statement ends with a semicolon. -/
def Semicolon (ts : List Token) : Prop :=
  ∃ t : Token, ts = [t] ∧ t.kind = .semicolon

/-! ### The first token of a phrase -/

/-- The tokens that an expression without an operator in front of it starts with. -/
def primaryStarts : List TokenKind :=
  [.kwFalse, .kwTrue, .kwNil, .number, .textLiteral, .kwThis, .kwSuper, .identifier, .kwFun,
    .leftParen]

/-- The tokens that an expression starts with. -/
def expressionStarts : List TokenKind :=
  .bang :: .minus :: primaryStarts

/-- The tokens that a statement starts with. -/
def statementStarts : List TokenKind :=
  [.kwPrint, .kwBreak, .kwReturn, .leftBrace, .kwIf, .kwWhile, .kwFor] ++ expressionStarts

/-- The tokens that a declaration starts with. -/
def declarationStarts : List TokenKind :=
  [.kwClass, .kwVar] ++ statementStarts

/-- The first token is of one of some kinds, and behind `fun` stands a parenthesis. -/
def Begins (kinds : List TokenKind) (ts : List Token) : Prop :=
  ∃ t rest, ts = t :: rest ∧ t.kind ∈ kinds ∧
    (t.kind = .kwFun → ∃ u rest', rest = u :: rest' ∧ u.kind = .leftParen)

lemma Begins.append {kinds : List TokenKind} {ts : List Token} (h : Begins kinds ts)
    (more : List Token) : Begins kinds (ts ++ more) := by
  obtain ⟨t, rest, rfl, hk, hfun⟩ := h
  refine ⟨t, rest ++ more, rfl, hk, fun hk => ?_⟩
  obtain ⟨u, rest', rfl, hu⟩ := hfun hk
  exact ⟨u, rest' ++ more, rfl, hu⟩

lemma Begins.mono {kinds kinds' : List TokenKind} {ts : List Token} (h : Begins kinds ts)
    (hk : kinds ⊆ kinds') : Begins kinds' ts := by
  obtain ⟨t, rest, rfl, ht, hfun⟩ := h
  exact ⟨t, rest, rfl, hk ht, hfun⟩

/-- A first token that is not `fun`. -/
lemma begins_cons {kinds : List TokenKind} {t : Token} {kind : TokenKind} (ht : t.kind = kind)
    (rest : List Token) (hk : kind ∈ kinds) (hfun : kind ≠ .kwFun) : Begins kinds (t :: rest) :=
  ⟨t, rest, rfl, ht ▸ hk, fun h => absurd (ht.symm.trans h) hfun⟩

/-- What a stratum starts with. -/
def Stratum.starts : Stratum → List TokenKind
  | .call | .primary => primaryStarts
  | _ => expressionStarts

/-- What the phrases of a class start with. -/
def Opening : Phrase → List Token → Prop
  | .expression s, ts => Begins s.starts ts
  | .callable, ts => ∃ t rest, ts = t :: rest ∧ t.kind = .leftParen
  | .block, ts => ∃ t rest, ts = t :: rest ∧ t.kind = .leftBrace
  | .function, ts | .getter, ts => ∃ t rest, ts = t :: rest ∧ t.kind = .identifier
  | .statement _, ts => Begins statementStarts ts
  | .declaration, ts => ∃ t rest, ts = t :: rest ∧ t.kind ∈ declarationStarts
  | _, _ => True

lemma starts_subset_of_next? {s s' : Stratum} (h : s.next? = some s') : s'.starts ⊆ s.starts := by
  cases s <;> cases h <;> decide

lemma Spells.opening {Ends : List Token → Prop} {phrase : Phrase} {ts : List Token}
    {tree : phrase.Tree} (h : Spells Ends phrase ts tree) : Opening phrase ts := by
  induction h with
  | tighter hs _ ih => exact ih.mono (starts_subset_of_next? hs)
  | assign hname _ _ => exact begins_cons hname _ (by decide) (by decide)
  | set hobject _ _ _ _ ih => exact (ih.append _).mono (by decide)
  | ternary _ _ _ _ _ ih => exact (ih.append _).mono (by decide)
  | binary _ _ _ _ ih => exact ih.append _
  | logical _ _ _ _ ih => exact ih.append _
  | unary hoperator _ =>
    simp only [List.mem_cons, List.not_mem_nil, or_false] at hoperator
    rcases hoperator with hoperator | hoperator
    · exact begins_cons hoperator _ (by decide) (by decide)
    · exact begins_cons hoperator _ (by decide) (by decide)
  | call _ _ _ _ ih => exact ih.append _
  | get _ _ _ ih => exact ih.append _
  | nilGet _ _ _ ih => exact ih.append _
  | falseLiteral ht => exact begins_cons ht _ (by decide) (by decide)
  | trueLiteral ht => exact begins_cons ht _ (by decide) (by decide)
  | nilLiteral ht => exact begins_cons ht _ (by decide) (by decide)
  | literal ht =>
    simp only [List.mem_cons, List.not_mem_nil, or_false] at ht
    rcases ht with ht | ht
    · exact begins_cons ht _ (by decide) (by decide)
    · exact begins_cons ht _ (by decide) (by decide)
  | this ht => exact begins_cons ht _ (by decide) (by decide)
  | super ht _ _ => exact begins_cons ht _ (by decide) (by decide)
  | name ht => exact begins_cons ht _ (by decide) (by decide)
  | lambda hkeyword _ ih =>
    obtain ⟨t, rest, rfl, ht⟩ := ih
    refine ⟨_, _, rfl, ?_, fun _ => ⟨t, rest, rfl, ht⟩⟩
    rw [hkeyword]
    decide
  | grouping hopening _ _ => exact begins_cons hopening _ (by decide) (by decide)
  | callable hopening _ _ _ => exact ⟨_, _, rfl, hopening⟩
  | block hopening _ _ => exact ⟨_, _, rfl, hopening⟩
  | function hname _ => exact ⟨_, _, rfl, hname⟩
  | getter hname _ => exact ⟨_, _, rfl, hname⟩
  | expression _ _ ih => exact (ih.append _).mono (by decide)
  | print hkeyword _ _ => exact begins_cons hkeyword _ (by decide) (by decide)
  | breakStmt hkeyword _ => exact begins_cons hkeyword _ (by decide) (by decide)
  | returnStmt hkeyword _ _ => exact begins_cons hkeyword _ (by decide) (by decide)
  | blockStmt _ ih =>
    obtain ⟨t, rest, rfl, ht⟩ := ih
    exact begins_cons ht _ (by decide) (by decide)
  | ifOnly hkeyword _ _ _ _ => exact begins_cons hkeyword _ (by decide) (by decide)
  | ifElse hkeyword _ _ _ _ _ _ => exact begins_cons hkeyword _ (by decide) (by decide)
  | whileStmt hkeyword _ _ _ _ => exact begins_cons hkeyword _ (by decide) (by decide)
  | forStmt hkeyword _ _ _ _ _ _ _ _ => exact begins_cons hkeyword _ (by decide) (by decide)
  | classDecl hkeyword _ _ _ _ _ => exact ⟨_, _, rfl, by rw [hkeyword]; decide⟩
  | functionDecl hkeyword _ => exact ⟨_, _, rfl, by rw [hkeyword]; decide⟩
  | getterDecl hkeyword _ => exact ⟨_, _, rfl, by rw [hkeyword]; decide⟩
  | varDecl hkeyword _ _ => exact ⟨_, _, rfl, by rw [hkeyword]; decide⟩
  | statement _ ih =>
    obtain ⟨t, rest, rfl, ht, -⟩ := ih
    exact ⟨t, rest, rfl, List.mem_append_right _ ht⟩
  | _ => trivial

/-! ### The token behind an expression -/

/-- The tokens that go on an expression, with the stratum of the longer one. -/
def extensions : List (TokenKind × Stratum) :=
  [(.equal, .assignment), (.question, .ternary), (.elvis, .elvis), (.kwOr, .disjunction),
    (.kwAnd, .conjunction), (.bangEqual, .equality), (.equalEqual, .equality),
    (.greater, .comparison), (.greaterEqual, .comparison), (.less, .comparison),
    (.lessEqual, .comparison), (.minus, .term), (.plus, .term), (.slash, .factor),
    (.star, .factor), (.leftParen, .call), (.dot, .call), (.questionDot, .call)]

/-- The tokens that make a longer expression of one of the stratum or a tighter one. -/
def Stratum.extenders (s : Stratum) : List TokenKind :=
  (extensions.filter fun p => s.ctorIdx ≤ p.2.ctorIdx).map Prod.fst

@[simp]
lemma extenders_primary : Stratum.primary.extenders = [] := rfl

lemma extenders_subset_of_next? {s s' : Stratum} (h : s.next? = some s') :
    s'.extenders ⊆ s.extenders := by
  cases s <;> cases h <;> decide

end Grammar

namespace Parser

variable {α β : Type}

/-- The kind of the first of some tokens, or the end of the text. -/
def headKind (ts : List Token) : TokenKind :=
  (ts.headD (.endAt 0)).kind

@[simp]
lemma headKind_cons (t : Token) (ts : List Token) : headKind (t :: ts) = t.kind := rfl

/-- A reader that passes the tokens `ts` in front of `more`, notes nothing, and has come to the
point where it goes on like another one. -/
def Continues (x : Reader α) (ts more : List Token) (K : Reader α → Prop) : Prop :=
  ∀ nextId noted, ∃ y nextId',
    x ⟨ts ++ more, nextId, noted⟩ = y ⟨more, nextId', noted⟩ ∧ K y

/-- A reader that passes the tokens `ts` in front of `more`, notes nothing and is done. -/
abbrev Accepts (x : Reader α) (ts more : List Token) (Q : α → Prop) : Prop :=
  Continues x ts more fun y => ∃ a, y = pure a ∧ Q a

section

variable {x : Reader α} {f : α → Reader β} {ts ts' more : List Token} {Q : α → Prop}
  {K : Reader β → Prop} {L M : Reader α → Prop}

lemma continues_here (h : L x) : Continues x [] more L :=
  fun nextId _ => ⟨x, nextId, rfl, h⟩

lemma accepts_pure {a : α} (h : Q a) : Accepts (pure a) [] more Q :=
  continues_here ⟨a, rfl, h⟩

lemma Continues.bind (hx : Accepts x ts (ts' ++ more) Q)
    (hf : ∀ a, Q a → Continues (f a) ts' more K) : Continues (x >>= f) (ts ++ ts') more K := by
  intro nextId noted
  obtain ⟨_, nextId₁, hx, a, rfl, hq⟩ := hx nextId noted
  obtain ⟨y, nextId₂, hy, hk⟩ := hf a hq nextId₁ noted
  refine ⟨y, nextId₂, ?_, hk⟩
  rw [List.append_assoc, bind_of_ok (hx.trans rfl)]
  exact hy

/-- The tokens of a phrase at the end. -/
lemma Continues.bind_last (hx : Accepts x ts more Q)
    (hf : ∀ a, Q a → Continues (f a) [] more K) : Continues (x >>= f) ts more K := by
  have hx : Accepts x ts ([] ++ more) Q := hx
  have h := hx.bind hf
  rwa [List.append_nil] at h

lemma Continues.trans (hx : Continues x ts (ts' ++ more) L)
    (h : ∀ y, L y → Continues y ts' more M) : Continues x (ts ++ ts') more M := by
  intro nextId noted
  obtain ⟨y, nextId₁, hx, hl⟩ := hx nextId noted
  obtain ⟨z, nextId₂, hy, hm⟩ := h y hl nextId₁ noted
  refine ⟨z, nextId₂, ?_, hm⟩
  rw [List.append_assoc, hx, hy]

lemma Continues.imp (hx : Continues x ts more L) (h : ∀ y, L y → M y) :
    Continues x ts more M := by
  intro nextId noted
  obtain ⟨y, nextId', hx, hl⟩ := hx nextId noted
  exact ⟨y, nextId', hx, h y hl⟩

end

/-! ### Single tokens -/

section

variable {K : Reader α → Prop} {ts more : List Token} {t : Token} {kind : TokenKind}
  {kinds : List TokenKind}

lemma continues_peekKind {f : TokenKind → Reader α}
    (h : Continues (f (headKind (ts ++ more))) ts more K) :
    Continues (peekKind >>= f) ts more K := h

lemma continues_peekSecondKind {f : Option TokenKind → Reader α} {u : Token}
    (hu : u.kind = kind) (h : Continues (f (some kind)) (t :: u :: ts) more K) :
    Continues (peekSecondKind >>= f) (t :: u :: ts) more K := by
  subst hu
  exact h

lemma continues_take {f : Token → Reader α} (ht : t.kind ≠ .endOfText)
    (h : Continues (f t) ts more K) : Continues (take >>= f) (t :: ts) more K := by
  intro nextId noted
  obtain ⟨y, nextId', hy, hk⟩ := h nextId noted
  refine ⟨y, nextId', ?_, hk⟩
  rw [← hy]
  show f t (Cursor.advance ⟨t :: (ts ++ more), nextId, noted⟩) = _
  simp only [Cursor.advance, if_neg ht]

lemma continues_expect {f : Token → Reader α} (ht : t.kind = kind) (hk : kind ≠ .endOfText)
    (fault : SyntaxFault) (h : Continues (f t) ts more K) :
    Continues (expect kind fault >>= f) (t :: ts) more K := by
  have hexpect : Accepts (expect kind fault) [t] (ts ++ more) (· = t) := by
    refine continues_peekKind ?_
    rw [List.singleton_append, headKind_cons, if_pos ht]
    have hpure : Continues (pure t) [] (ts ++ more) fun y => ∃ a, y = pure a ∧ a = t :=
      accepts_pure rfl
    have htake := continues_take (f := pure) (ht ▸ hk) hpure
    rwa [bind_pure] at htake
  exact hexpect.bind fun _ he => he ▸ h

lemma continues_accept? {f : Option Token → Reader α} (ht : t.kind ∈ kinds)
    (hk : t.kind ≠ .endOfText) (h : Continues (f (some t)) ts more K) :
    Continues (accept? kinds >>= f) (t :: ts) more K := by
  have haccept : Accepts (accept? kinds) [t] (ts ++ more) (· = some t) := by
    refine continues_peekKind ?_
    rw [if_pos (by simpa using ht)]
    exact continues_take hk (accepts_pure rfl)
  exact haccept.bind fun _ he => he ▸ h

lemma continues_accept?_none {f : Option Token → Reader α} (hk : headKind (ts ++ more) ∉ kinds)
    (h : Continues (f none) ts more K) : Continues (accept? kinds >>= f) ts more K := by
  intro nextId noted
  rw [bind_of_ok (accept?_of_notMem hk)]
  exact h nextId noted

lemma continues_accept {f : Bool → Reader α} (ht : t.kind = kind) (hk : kind ≠ .endOfText)
    (h : Continues (f true) ts more K) : Continues (accept kind >>= f) (t :: ts) more K := by
  have haccept : Accepts (accept kind) [t] (ts ++ more) (· = true) :=
    continues_accept? (by simpa using ht) (ht ▸ hk) (accepts_pure rfl)
  exact haccept.bind fun _ he => he ▸ h

lemma continues_accept_false {f : Bool → Reader α} (hk : headKind (ts ++ more) ≠ kind)
    (h : Continues (f false) ts more K) : Continues (accept kind >>= f) ts more K := by
  have haccept : Accepts (accept kind) [] (ts ++ more) (· = false) :=
    continues_accept?_none (by simpa using hk) (accepts_pure rfl)
  exact haccept.bind fun _ he => he ▸ h

lemma continues_freshId {f : NodeId → Reader α} (h : ∀ id, Continues (f id) ts more K) :
    Continues (freshId >>= f) ts more K :=
  fun nextId noted => h nextId (nextId + 1) noted

lemma continues_endStatement {f : Unit → Reader α} (hts : Semicolon ts)
    (h : Continues (f ()) [] more K) : Continues (endStatement >>= f) ts more K := by
  obtain ⟨t, rfl, ht⟩ := hts
  have hend : Accepts endStatement [t] more fun _ => True :=
    continues_accept ht (by decide) (accepts_pure trivial)
  exact hend.bind_last fun _ _ => h

end

/-! ### Expressions -/

/-- A renaming that makes all identities the same. -/
def bare : Renaming :=
  .ofNodes fun _ => 0

@[simp]
lemma rename_bare (t : Token) : t.rename bare = t := rfl

@[simp]
lemma bare_node (id : NodeId) : bare.node id = 0 := rfl

@[simp]
lemma map_rename_bare (ts : List Token) : ts.map (Token.rename bare) = ts :=
  Token.map_rename_eq_self ts

/-- The reader of a stratum. -/
def reader : Stratum → Nat → Reader Expr
  | .assignment, bound => readers bound .expression
  | .ternary, bound => readers bound .ternary
  | .elvis, bound => readers bound (.level .elvis)
  | .disjunction, bound => readers bound (.level .disjunction)
  | .conjunction, bound => readers bound (.level .conjunction)
  | .equality, bound => readers bound (.level .equality)
  | .comparison, bound => readers bound (.level .comparison)
  | .term, bound => readers bound (.level .sum)
  | .factor, bound => readers bound (.level .product)
  | .unary, bound => readers bound .unary
  | .call, bound => readers bound .unary
  | .primary, bound => readers bound .primary

/-- How many readers lie between that of a stratum and the tightest one. -/
def depth : Stratum → Nat
  | .assignment => 17
  | .ternary => 16
  | .elvis => 15
  | .disjunction => 13
  | .conjunction => 11
  | .equality => 9
  | .comparison => 7
  | .term => 5
  | .factor => 3
  | .unary => 1
  | .call => 1
  | .primary => 0

/-- The loop of a level, behind an expression of its own. -/
abbrev levelLoop (here : Level) (bound : Nat) (left : Expr) : Reader Expr :=
  readers bound (.levelRest here left)

/-- The loop of calls and properties, behind what they belong to. -/
abbrev callLoop (bound : Nat) (head : Expr) : Reader Expr :=
  readers bound (.calls head)

/-- What a stratum that groups to the left does behind an expression of its own. -/
def loop? : Stratum → Option (Nat → Expr → Reader Expr)
  | .elvis => some (levelLoop .elvis)
  | .disjunction => some (levelLoop .disjunction)
  | .conjunction => some (levelLoop .conjunction)
  | .equality => some (levelLoop .equality)
  | .comparison => some (levelLoop .comparison)
  | .term => some (levelLoop .sum)
  | .factor => some (levelLoop .product)
  | .call => some callLoop
  | _ => none

/-- The tokens of an expression are read by the reader of its stratum. -/
def Takes (s : Stratum) (ts : List Token) (e : Expr) : Prop :=
  ∀ bound more, boundPerToken * ts.length + depth s ≤ bound → headKind more ∉ s.extenders →
    Accepts (reader s bound) ts more fun e' => e'.rename bare = e.rename bare

/-- Behind the tokens of an expression, the reader of its stratum is in its loop. -/
def Loops (s : Stratum) (loop : Nat → Expr → Reader Expr) (ts : List Token) (e : Expr) : Prop :=
  ∀ bound more, boundPerToken * ts.length + depth s ≤ bound →
    (∀ s', s.next? = some s' → headKind more ∉ s'.extenders) →
      Continues (reader s bound) ts more fun y => ∃ left e', y = loop left e' ∧
        bound ≤ left + ts.length ∧ e'.rename bare = e.rename bare

/-- What the induction says of expressions. -/
def ReadableExpr (s : Stratum) (ts : List Token) (e : Expr) : Prop :=
  match loop? s with
  | some loop => Loops s loop ts e
  | none => Takes s ts e

/-- The loop of a stratum ends at a token that does not go on its expressions. -/
lemma loop_ends {s : Stratum} {loop : Nat → Expr → Reader Expr} (hs : loop? s = some loop)
    {left : Nat} (hleft : 0 < left) (e : Expr) {more : List Token}
    (hmore : headKind more ∉ s.extenders) : Accepts (loop left e) [] more (· = e) := by
  obtain ⟨left, rfl⟩ : ∃ fewer, left = fewer + 1 := ⟨left - 1, by omega⟩
  have level : ∀ here : Level, (∀ kind ∈ here.operators, kind ∈ s.extenders) →
      Accepts (readers (left + 1) (.levelRest here e)) [] more (· = e) := by
    intro here hsub
    exact continues_accept?_none (fun hk => hmore (hsub _ hk)) (accepts_pure rfl)
  cases s with
  | call =>
    cases hs
    have hsub : ∀ kind ∈ [.leftParen, .dot, .questionDot], kind ∈ Stratum.call.extenders := by
      decide
    exact continues_accept?_none (fun hk => hmore (hsub _ hk)) (accepts_pure rfl)
  | _ =>
    cases hs
    try exact level _ (by decide)

lemma ReadableExpr.takes {s : Stratum} {ts : List Token} {e : Expr} (hts : ts ≠ [])
    (h : ReadableExpr s ts e) : Takes s ts e := by
  unfold ReadableExpr at h
  cases hs : loop? s with
  | none =>
    rw [hs] at h
    exact h
  | some loop =>
    rw [hs] at h
    intro bound more hbound hmore
    have hlength := List.length_pos_of_ne_nil hts
    have htight : ∀ s', s.next? = some s' → headKind more ∉ s'.extenders :=
      fun s' hs' hk => hmore (extenders_subset_of_next? hs' hk)
    rw [← List.append_nil ts]
    refine Continues.trans (h bound more hbound htight) ?_
    rintro _ ⟨left, e', rfl, hleft, he⟩
    rw [boundPerToken] at hbound
    refine (loop_ends hs (by omega) e' hmore).imp ?_
    rintro _ ⟨a, rfl, rfl⟩
    exact ⟨a, rfl, he⟩

section

variable {s s' : Stratum} {ts : List Token} {e : Expr}

/-- An operand of a level is read by the reader of the next stratum. -/
lemma operand_eq {here : Level} (hs : here.stratum.next? = some s') (bound : Nat) :
    readers (bound + 1) (.operand here) = reader s' bound ∧ depth s' + 2 = depth here.stratum := by
  cases here <;> cases hs <;> exact ⟨rfl, rfl⟩

lemma level_eq (here : Level) (bound : Nat) :
    reader here.stratum bound = readers bound (.level here) := by
  cases here <;> rfl

lemma loop?_stratum (here : Level) :
    loop? here.stratum = some (levelLoop here) := by
  cases here <;> rfl

/-- The tokens of an operand are those of a level. -/
lemma Takes.level (here : Level) (h : Takes s' ts e) (hs : here.stratum.next? = some s')
    (hts : ts ≠ []) : Loops here.stratum (levelLoop here) ts e := by
  intro bound more hbound hmore
  have hlength := List.length_pos_of_ne_nil hts
  obtain ⟨bound, rfl⟩ : ∃ fewer, bound = fewer + 2 := by
    rw [boundPerToken] at hbound
    exact ⟨bound - 2, by omega⟩
  obtain ⟨hoperand, hdepth⟩ := operand_eq hs bound
  rw [level_eq]
  rw [readers, Readers.step, hoperand]
  refine (h bound more (by omega) (hmore s' hs)).bind_last ?_
  intro e' he
  exact continues_here ⟨bound + 1, e', rfl, by omega, he⟩

/-- The tokens of an expression without an operator in front of it, before any calls. -/
lemma Takes.call (h : Takes .primary ts e) (hts : Begins primaryStarts ts) :
    Loops .call callLoop ts e := by
  intro bound more hbound _
  obtain ⟨t, rest, rfl, ht, -⟩ := hts
  obtain ⟨bound, rfl⟩ : ∃ fewer, bound = fewer + 1 := ⟨bound - 1, by
    rw [depth] at hbound
    omega⟩
  have hnot : headKind (t :: rest ++ more) ∉ [.bang, .minus] := by
    have table : ∀ kind ∈ primaryStarts, kind ∉ [.bang, .minus] := by
      decide
    exact table _ ht
  refine continues_accept?_none hnot ?_
  refine (h bound more (by simpa [depth] using hbound) (by simp)).bind_last ?_
  intro e' he
  exact continues_here ⟨bound, e', rfl, by simp, he⟩

lemma Takes.ternary (h : Takes .elvis ts e) : Takes .ternary ts e := by
  intro bound more hbound hmore
  obtain ⟨bound, rfl⟩ : ∃ fewer, bound = fewer + 1 := ⟨bound - 1, by
    rw [depth] at hbound
    omega⟩
  refine (h bound more (by simpa [depth] using hbound) fun hk => hmore ?_).bind_last ?_
  · exact extenders_subset_of_next? rfl hk
  · intro e' he
    refine continues_accept_false (fun hk => hmore ?_) (accepts_pure he)
    rw [List.nil_append] at hk
    rw [hk]
    decide

lemma Takes.assignment (h : Takes .ternary ts e) : Takes .assignment ts e := by
  intro bound more hbound hmore
  obtain ⟨bound, rfl⟩ : ∃ fewer, bound = fewer + 1 := ⟨bound - 1, by
    rw [depth] at hbound
    omega⟩
  refine (h bound more (by simpa [depth] using hbound) fun hk => hmore ?_).bind_last ?_
  · exact extenders_subset_of_next? rfl hk
  · intro e' he
    refine continues_accept?_none (fun hk => hmore ?_) (accepts_pure he)
    have hsub : ∀ kind ∈ [.equal], kind ∈ Stratum.assignment.extenders := by
      decide
    exact hsub _ hk

/-- An expression is one of every looser stratum. -/
lemma ReadableExpr.tighter (hs : s.next? = some s') (h : ReadableExpr s' ts e)
    (hts : Begins s'.starts ts) : ReadableExpr s ts e := by
  have hne : ts ≠ [] := by
    obtain ⟨t, rest, rfl, -⟩ := hts
    exact List.cons_ne_nil t rest
  have htakes := h.takes hne
  cases s with
  | assignment =>
    cases hs
    exact htakes.assignment
  | ternary =>
    cases hs
    exact htakes.ternary
  | elvis => exact Takes.level .elvis htakes hs hne
  | disjunction => exact Takes.level .disjunction htakes hs hne
  | conjunction => exact Takes.level .conjunction htakes hs hne
  | equality => exact Takes.level .equality htakes hs hne
  | comparison => exact Takes.level .comparison htakes hs hne
  | term => exact Takes.level .sum htakes hs hne
  | factor => exact Takes.level .product htakes hs hne
  | unary =>
    cases hs
    exact htakes
  | call =>
    cases hs
    exact htakes.call hts
  | primary => cases hs

lemma ReadableExpr.ternary_of_call (h : ReadableExpr .call ts e) (hts : Begins primaryStarts ts) :
    ReadableExpr .ternary ts e := by
  have hts' : Begins expressionStarts ts := hts.mono (by decide)
  have hunary : ReadableExpr .unary ts e := h.tighter rfl hts
  have hfactor : ReadableExpr .factor ts e := hunary.tighter rfl hts'
  have hterm : ReadableExpr .term ts e := hfactor.tighter rfl hts'
  have hcomparison : ReadableExpr .comparison ts e := hterm.tighter rfl hts'
  have hequality : ReadableExpr .equality ts e := hcomparison.tighter rfl hts'
  have hconjunction : ReadableExpr .conjunction ts e := hequality.tighter rfl hts'
  have hdisjunction : ReadableExpr .disjunction ts e := hconjunction.tighter rfl hts'
  have helvis : ReadableExpr .elvis ts e := hdisjunction.tighter rfl hts'
  exact helvis.tighter rfl hts'

end

section

variable {ts ts' ts'' : List Token} {e left right condition first second value object : Expr}

/-- An operator joins an expression of its level and an operand. -/
lemma readable_join {here : Level} {s : Stratum} {operator : Token}
    (hs : here.stratum.next? = some s) (hleft : ReadableExpr here.stratum ts left)
    (hoperator : operator.kind ∈ here.operators) (hright : Takes s ts' right) :
    ReadableExpr here.stratum (ts ++ operator :: ts') (here.join left operator right) := by
  rw [ReadableExpr, loop?_stratum] at hleft ⊢
  intro bound more hbound hmore
  have hops : operator.kind ∉ s.extenders ∧ operator.kind ≠ .endOfText := by
    have table : ∀ kind ∈ here.operators, kind ∉ s.extenders ∧ kind ≠ .endOfText := by
      cases here <;> cases hs <;> decide
    exact table _ hoperator
  have hlength : (ts ++ operator :: ts').length = ts.length + ts'.length + 1 := by
    simp only [List.length_append, List.length_cons]
    omega
  rw [hlength, boundPerToken] at hbound
  refine (hleft bound (operator :: ts' ++ more) (by rw [boundPerToken]; omega) ?_).trans ?_
  · intro s' hs'
    cases hs.symm.trans hs'
    exact hops.1
  · rintro _ ⟨fuel, l, rfl, hfuel, hl⟩
    obtain ⟨fuel, rfl⟩ : ∃ fewer, fuel = fewer + 2 := ⟨fuel - 2, by omega⟩
    obtain ⟨hoperand, hdepth⟩ := operand_eq hs fuel
    refine continues_accept? hoperator hops.2 ?_
    dsimp only
    rw [hoperand]
    refine (hright fuel more (by rw [boundPerToken]; omega) (hmore s hs)).bind_last ?_
    intro r hr
    refine continues_here ⟨fuel + 1, _, rfl, by omega, ?_⟩
    cases here <;> simp [Level.join, Expr.rename, hl, hr]

/-- The reader of assignments, after the target and the sign behind it. -/
lemma takes_of_target {equals : Token} {target e : Expr} (htarget : Takes .ternary ts target)
    (hequals : equals.kind = .equal)
    (hassign : ∀ (bound : Nat) (more : List Token) (target' : Expr),
      target'.rename bare = target.rename bare →
      boundPerToken * ts'.length + depth .assignment ≤ bound →
      headKind more ∉ Stratum.assignment.extenders →
      Accepts ((readers bound).assignTo target' equals) ts' more fun e' =>
        e'.rename bare = e.rename bare) :
    Takes .assignment (ts ++ equals :: ts') e := by
  intro bound more hbound hmore
  rw [boundPerToken, depth, List.length_append, List.length_cons] at hbound
  obtain ⟨bound, rfl⟩ : ∃ fewer, bound = fewer + 1 := ⟨bound - 1, by omega⟩
  refine (htarget bound (equals :: ts' ++ more) ?_ ?_).bind ?_
  · rw [boundPerToken, depth]
    omega
  · rw [List.cons_append, headKind_cons, hequals]
    decide
  · intro target' h
    refine continues_accept? (by rw [hequals]; decide) (by rw [hequals]; decide) ?_
    exact hassign bound more target' h (by rw [boundPerToken, depth]; omega) hmore

/-- An assignment to a variable. -/
lemma takes_assign {name equals : Token} {id : NodeId} (htarget : Takes .ternary ts (.name id name))
    (hequals : equals.kind = .equal) (hvalue : Takes .assignment ts' value) :
    Takes .assignment (ts ++ equals :: ts') (.assign id name value) := by
  refine takes_of_target htarget hequals fun bound more target' h hbound hmore => ?_
  cases target' with
  | name id' name' =>
    simp only [Expr.rename, rename_bare, bare_node, Expr.name.injEq, true_and] at h
    subst h
    refine (hvalue bound more hbound hmore).bind_last fun value' hv => ?_
    exact continues_freshId fun id => accepts_pure (by simp [Expr.rename, hv])
  | _ => simp [Expr.rename] at h

/-- An assignment to a property. -/
lemma takes_set {name equals : Token} (htarget : Takes .ternary ts (.get object name))
    (hequals : equals.kind = .equal) (hvalue : Takes .assignment ts' value) :
    Takes .assignment (ts ++ equals :: ts') (.set object name value) := by
  refine takes_of_target htarget hequals fun bound more target' h hbound hmore => ?_
  cases target' with
  | get object' name' =>
    simp only [Expr.rename, rename_bare, Expr.get.injEq] at h
    obtain ⟨ho, rfl⟩ := h
    refine (hvalue bound more hbound hmore).bind_last fun value' hv => ?_
    exact accepts_pure (by simp [Expr.rename, ho, hv])
  | _ => simp [Expr.rename] at h

lemma takes_ternary {question colon : Token} (hcondition : Takes .elvis ts condition)
    (hquestion : question.kind = .question) (hfirst : Takes .assignment ts' first)
    (hcolon : colon.kind = .colon) (hsecond : Takes .ternary ts'' second) :
    Takes .ternary (ts ++ question :: (ts' ++ colon :: ts''))
      (.ternary condition first second) := by
  intro bound more hbound hmore
  simp only [boundPerToken, depth, List.length_append, List.length_cons] at hbound
  obtain ⟨bound, rfl⟩ : ∃ fewer, bound = fewer + 1 := ⟨bound - 1, by omega⟩
  refine (hcondition bound _ ?_ ?_).bind fun condition' hcondition' => ?_
  · rw [boundPerToken, depth]
    omega
  · rw [List.cons_append, headKind_cons, hquestion]
    decide
  refine continues_accept hquestion (by decide) ?_
  refine (hfirst bound _ ?_ ?_).bind fun first' hfirst' => ?_
  · rw [boundPerToken, depth]
    omega
  · rw [List.cons_append, headKind_cons, hcolon]
    decide
  refine continues_expect hcolon (by decide) _ ?_
  refine (hsecond bound more ?_ hmore).bind_last fun second' hsecond' => ?_
  · rw [boundPerToken, depth]
    omega
  exact accepts_pure (by simp [Expr.rename, hcondition', hfirst', hsecond'])

lemma takes_unary {operator : Token} (hoperator : operator.kind ∈ [.bang, .minus])
    (h : Takes .unary ts e) : Takes .unary (operator :: ts) (.unary operator e) := by
  intro bound more hbound hmore
  simp only [boundPerToken, depth, List.length_cons] at hbound
  obtain ⟨bound, rfl⟩ : ∃ fewer, bound = fewer + 1 := ⟨bound - 1, by omega⟩
  have hne : operator.kind ≠ .endOfText := by
    have table : ∀ kind ∈ [.bang, .minus], kind ≠ TokenKind.endOfText := by
      decide
    exact table _ hoperator
  refine continues_accept? hoperator hne ?_
  refine (h bound more ?_ hmore).bind_last fun e' he => ?_
  · rw [boundPerToken, depth]
    omega
  exact accepts_pure (by simp [Expr.rename, he])

/-! ### Calls and properties -/

/-- What stands between the parentheses of a call is read as its arguments. -/
def ReadableArguments (ts : List Token) (es : List Expr) : Prop :=
  (ts = [] ∧ es = []) ∨ (Begins expressionStarts ts ∧ ∀ bound more,
    boundPerToken * ts.length + 18 ≤ bound → headKind more = .rightParen →
      Accepts (readers bound (.arguments 0)) ts more fun es' =>
        renameExprs bare es' = renameExprs bare es)

/-- The chain of calls and properties goes on behind an expression. -/
lemma loops_chain {e e' : Expr} {link : List Token} {opening : Token} {rest : List Token}
    (hlink : link = opening :: rest) (h : Loops .call callLoop ts e)
    (hnext : ∀ left more head, head.rename bare = e.rename bare →
      boundPerToken * link.length ≤ left →
      Continues (callLoop (left + 1) head) link more fun y =>
        ∃ head', y = callLoop left head' ∧ head'.rename bare = e'.rename bare) :
    Loops .call callLoop (ts ++ link) e' := by
  intro bound more hbound _
  simp only [boundPerToken, depth, List.length_append] at hbound
  have hlength : 0 < link.length := by simp [hlink]
  refine (h bound (link ++ more) ?_ (by rintro _ ⟨⟩; simp)).trans ?_
  · rw [boundPerToken, depth]
    omega
  rintro _ ⟨left, head, rfl, hleft, hhead⟩
  obtain ⟨left, rfl⟩ : ∃ fewer, left = fewer + 1 := ⟨left - 1, by omega⟩
  refine (hnext left more head hhead (by rw [boundPerToken]; omega)).imp ?_
  rintro _ ⟨head', rfl, hhead'⟩
  refine ⟨left, head', rfl, ?_, hhead'⟩
  rw [List.length_append]
  omega

lemma loops_call {callee : Expr} {opening paren : Token} {es : List Expr}
    (hcallee : Loops .call callLoop ts callee) (hopening : opening.kind = .leftParen)
    (hes : ReadableArguments ts' es) (hparen : paren.kind = .rightParen) :
    Loops .call callLoop (ts ++ opening :: (ts' ++ [paren])) (.call callee paren es) := by
  refine loops_chain rfl hcallee fun left more head hhead hleft => ?_
  simp only [boundPerToken, List.length_cons, List.length_append, List.length_nil] at hleft
  refine continues_accept? (by rw [hopening]; decide) (by rw [hopening]; decide) ?_
  dsimp only
  rw [hopening]
  refine continues_peekKind ?_
  rcases hes with ⟨rfl, rfl⟩ | ⟨hbegins, hread⟩
  · rw [if_pos (by simpa using hparen)]
    refine continues_expect hparen (by decide) _ ?_
    exact continues_here ⟨_, rfl, by simp [Expr.rename, hhead]⟩
  · obtain ⟨t, rest, rfl, ht, -⟩ := hbegins
    have hne : t.kind ≠ .rightParen := by
      have table : ∀ kind ∈ expressionStarts, kind ≠ .rightParen := by
        decide
      exact table _ ht
    rw [if_neg (by simpa using hne)]
    refine (hread left _ ?_ (by simpa using hparen)).bind fun es' hes' => ?_
    · rw [boundPerToken]
      omega
    refine continues_expect hparen (by decide) _ ?_
    exact continues_here ⟨_, rfl, by simp [Expr.rename, hhead, hes']⟩

lemma loops_get {dot name : Token} (hobject : Loops .call callLoop ts object)
    (hdot : dot.kind = .dot) (hname : name.kind = .identifier) :
    Loops .call callLoop (ts ++ [dot, name]) (.get object name) := by
  refine loops_chain rfl hobject fun left more head hhead _ => ?_
  refine continues_accept? (by rw [hdot]; decide) (by rw [hdot]; decide) ?_
  dsimp only
  rw [hdot]
  refine continues_expect hname (by decide) _ ?_
  exact continues_here ⟨_, rfl, by simp [Expr.rename, hhead]⟩

lemma loops_nilGet {dot name : Token} (hobject : Loops .call callLoop ts object)
    (hdot : dot.kind = .questionDot) (hname : name.kind = .identifier) :
    Loops .call callLoop (ts ++ [dot, name]) (.nilGet object name) := by
  refine loops_chain rfl hobject fun left more head hhead _ => ?_
  refine continues_accept? (by rw [hdot]; decide) (by rw [hdot]; decide) ?_
  dsimp only
  rw [hdot]
  refine continues_expect hname (by decide) _ ?_
  exact continues_here ⟨_, rfl, by simp [Expr.rename, hhead]⟩

end

end Parser

end Scripting
