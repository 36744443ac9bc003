import Scripting.Proofs.Program.Grammar
import Scripting.Proofs.Program.JoinedReading
import Scripting.Proofs.Token.Joining

/-!
# What is read follows the grammar

A program comes out of reading only if no complaint was noted on the way, so a reader needs to be
right only about what it leaves without a complaint. `Yields` states this about one reader from one
cursor: the tokens it has passed, all of them and in order, spell what it gives. `Derived` collects
it for the readers of all syntactic classes, and one step keeps it.
-/

namespace Scripting

open Grammar

namespace Parser

variable {α β : Type} {P P' : Prop} {c : Cursor}

/-- A reader that leaves no complaint has found none, and what it gives is related to the tokens it
has passed and the cursor it leaves. `P` is what is known before, as long as nothing was complained
about. -/
def Yields (P : Prop) (c : Cursor) (x : Reader α) (Q : List Token → Cursor → α → Prop) : Prop :=
  (c.noted = #[] → P) → ∀ a d, x c = .ok a d → d.noted = #[] →
    c.noted = #[] ∧ ∃ ts, c.rest = ts ++ d.rest ∧ (∀ t ∈ ts, t.kind ≠ .endOfText) ∧ Q ts d a

section

variable {x : Reader α} {f : α → Reader β} {Q R : List Token → Cursor → α → Prop}
  {S : List Token → Cursor → β → Prop}

lemma yields_pure {a : α} (h : P → Q [] c a) : Yields P c (pure a) Q := by
  rintro hp _ _ ⟨⟩ hn
  exact ⟨hn, [], rfl, by simp, h (hp hn)⟩

lemma yields_stop (fault : SyntaxFault) : Yields P c (stop fault) Q := by
  rintro _ _ _ ⟨⟩

lemma Yields.bind (hx : Yields True c x Q)
    (hf : ∀ ts d a, Yields (P ∧ Q ts d a) d (f a) fun ts' d' b => S (ts ++ ts') d' b) :
    Yields P c (x >>= f) S := by
  intro hp b d' h hn
  obtain ⟨a, d, hread, hrest⟩ := bind_eq_ok h
  by_cases hd : d.noted = #[]
  · obtain ⟨hc, ts, hts, hkinds, hq⟩ := hx (fun _ => trivial) a d hread hd
    obtain ⟨-, ts', hts', hkinds', hs⟩ := hf ts d a (fun _ => ⟨hp hc, hq⟩) b d' hrest hn
    refine ⟨hc, ts ++ ts', ?_, ?_, hs⟩
    · rw [hts, hts', List.append_assoc]
    · rw [List.forall_mem_append]
      exact ⟨hkinds, hkinds'⟩
  · exact absurd (hf [] d a (fun h => absurd h hd) b d' hrest hn).1 hd

lemma Yields.imp (hx : Yields P' c x Q) (hp : P → P')
    (h : P → ∀ ts d a, Q ts d a → R ts d a) : Yields P c x R := by
  intro hp' a d hread hn
  obtain ⟨hc, ts, hts, hkinds, hq⟩ := hx (hp ∘ hp') a d hread hn
  exact ⟨hc, ts, hts, hkinds, h (hp' hc) ts d a hq⟩

end

/-! ### Single tokens -/

lemma yields_peekKind {f : TokenKind → Reader α} {Q : List Token → Cursor → α → Prop}
    (h : ∀ kind, c.peek.kind = kind → Yields P c (f kind) Q) : Yields P c (peekKind >>= f) Q :=
  h c.peek.kind rfl

lemma yields_peekSecondKind {f : Option TokenKind → Reader α}
    {Q : List Token → Cursor → α → Prop} (h : ∀ second, Yields P c (f second) Q) :
    Yields P c (peekSecondKind >>= f) Q :=
  h (c.rest.tail.head?.map Token.kind)

lemma Cursor.rest_eq_of_peek (h : c.peek.kind ≠ .endOfText) :
    c.rest = c.peek :: c.advance.rest := by
  obtain ⟨rest, nextId, noted⟩ := c
  cases rest with
  | nil => exact absurd rfl h
  | cons t rest =>
    have ht : t.kind ≠ .endOfText := h
    simp [Cursor.advance, if_neg ht, Cursor.peek]

lemma yields_take (h : c.peek.kind ≠ .endOfText) :
    Yields True c take fun ts _ t => ts = [t] ∧ t.kind = c.peek.kind ∧ c.peek = t := by
  rintro - _ _ ⟨⟩ hn
  refine ⟨c.noted_advance.symm.trans hn, [c.peek], Cursor.rest_eq_of_peek h, ?_, rfl, rfl, rfl⟩
  simpa using h

lemma yields_takeKind {kind : TokenKind} (hk : c.peek.kind = kind) (h : kind ≠ .endOfText) :
    Yields True c take fun ts _ t => ts = [t] ∧ t.kind = kind := by
  subst hk
  exact (yields_take h).imp id fun _ _ _ _ ht => ⟨ht.1, ht.2.1⟩

lemma yields_accept? {kinds : List TokenKind} (h : .endOfText ∉ kinds) :
    Yields True c (accept? kinds) fun ts d found =>
      match found with
      | none => ts = [] ∧ d.peek.kind ∉ kinds
      | some t => ts = [t] ∧ t.kind ∈ kinds ∧ c.peek = t := by
  refine yields_peekKind fun kind hk => ?_
  subst hk
  split
  · next hmem =>
    have hmem : c.peek.kind ∈ kinds := by simpa using hmem
    refine (yields_take fun he => h (he ▸ hmem)).bind fun ts d t => yields_pure ?_
    rintro ⟨-, rfl, hk, hpeek⟩
    exact ⟨rfl, hk ▸ hmem, hpeek⟩
  · next hmem => exact yields_pure fun _ => ⟨rfl, by simpa using hmem⟩

lemma yields_accept {kind : TokenKind} (h : kind ≠ .endOfText) :
    Yields True c (accept kind) fun ts d found =>
      match found with
      | false => ts = [] ∧ d.peek.kind ≠ kind
      | true => ∃ t, ts = [t] ∧ t.kind = kind ∧ c.peek = t := by
  refine (yields_accept? (by simpa using h.symm)).bind fun ts d found => yields_pure ?_
  cases found with
  | none =>
    rintro ⟨-, rfl, hk⟩
    exact ⟨rfl, by simpa using hk⟩
  | some t =>
    rintro ⟨-, rfl, hk, hpeek⟩
    exact ⟨t, rfl, by simpa using hk, hpeek⟩

lemma yields_expect {kind : TokenKind} (h : kind ≠ .endOfText) (fault : SyntaxFault) :
    Yields True c (expect kind fault) fun ts _ t => ts = [t] ∧ t.kind = kind := by
  refine yields_peekKind fun found hk => ?_
  split
  · next he =>
    subst he
    exact yields_takeKind hk h
  · exact yields_stop fault

lemma yields_freshId : Yields True c freshId fun ts d _ => ts = [] ∧ d.peek = c.peek := by
  rintro - _ _ ⟨⟩ hn
  exact ⟨hn, [], rfl, by simp, rfl, rfl⟩

/-- Nothing comes out of reading once a complaint is noted. -/
lemma yields_note (fault : SyntaxFault) (t : Token) :
    Yields True c (note fault t) fun _ _ _ => False := by
  rintro - _ _ ⟨⟩ hn
  simp at hn

lemma yields_noteHere (fault : SyntaxFault) :
    Yields True c (noteHere fault) fun _ _ _ => False :=
  yields_note fault c.peek

lemma yields_endStatement : Yields True c endStatement fun ts _ _ => Terminator ts := by
  refine (yields_accept (by decide)).bind fun ts d found => yields_pure ?_
  cases found with
  | false =>
    rintro ⟨-, rfl, -⟩
    exact .none
  | true =>
    rintro ⟨-, t, rfl, hk, -⟩
    exact .semicolon hk

/-! ### Syntactic classes -/

/-- The stratum of a level of binary operators. -/
def Level.stratum : Level → Stratum
  | .elvis => .elvis
  | .disjunction => .disjunction
  | .conjunction => .conjunction
  | .equality => .equality
  | .comparison => .comparison
  | .sum => .term
  | .product => .factor

/-- The tokens of an operand of a level. -/
def Operand (here : Level) (ts : List Token) (e : Expr) : Prop :=
  ∃ s, here.stratum.next? = some s ∧ Derives (.expression s) ts e

/-- A statement that was read to its end: no `else` is left that could belong to it. -/
def Ended (ts : List Token) (d : Cursor) (s : Stmt) : Prop :=
  ∃ ending, Derives (.statement ending) ts s ∧ (ending = .opened → d.peek.kind ≠ .kwElse)

/-- The tokens of a loop from its opening parenthesis to the semicolon behind its initializer. -/
def LoopHead (ts : List Token) (initializer : Option Stmt) : Prop :=
  ∃ opening ts' semicolon, ts = opening :: (ts' ++ [semicolon]) ∧ opening.kind = .leftParen ∧
    Derives .initializer ts' initializer ∧ semicolon.kind = .semicolon

/-- The tokens of a loop from its opening parenthesis to the semicolon behind its condition. -/
def LoopTest (ts : List Token) (initializer : Option Stmt) (condition : Option Expr) : Prop :=
  ∃ head ts' semicolon, ts = head ++ (ts' ++ [semicolon]) ∧ LoopHead head initializer ∧
    Derives .optional ts' condition ∧ semicolon.kind = .semicolon

/-- Everything that some readers read follows the grammar. -/
structure Derived (r : Readers) : Prop where
  parameters : ∀ c count, Yields True c (r (.parameters count)) fun ts _ names =>
    Names ts names ∧ count + names.length ≤ maxListed
  expression : ∀ c, Yields True c (r .expression) fun ts _ e =>
    Derives (.expression .assignment) ts e
  ternary : ∀ c, Yields True c (r .ternary) fun ts _ e => Derives (.expression .ternary) ts e
  level : ∀ c here, Yields True c (r (.level here)) fun ts _ e =>
    Derives (.expression here.stratum) ts e
  operand : ∀ c here, Yields True c (r (.operand here)) fun ts _ e => Operand here ts e
  levelRest : ∀ c here ts left,
    Yields (Derives (.expression here.stratum) ts left) c (r (.levelRest here left))
      fun ts' _ e => Derives (.expression here.stratum) (ts ++ ts') e
  unary : ∀ c, Yields True c (r .unary) fun ts _ e => Derives (.expression .unary) ts e
  calls : ∀ c ts head,
    Yields (Derives (.expression .call) ts head) c (r (.calls head))
      fun ts' _ e => Derives (.expression .call) (ts ++ ts') e
  arguments : ∀ c count, Yields True c (r (.arguments count)) fun ts _ es =>
    Derives .listing ts es ∧ count + es.length ≤ maxListed
  primary : ∀ c, Yields True c (r .primary) fun ts _ e => Derives (.expression .primary) ts e
  functionRest : ∀ c kind, Yields True c (r (.functionRest kind)) fun ts _ f =>
    ∀ opening, opening.kind = .leftParen → Derives .callable (opening :: ts) f
  block : ∀ c, Yields True c (r .block) fun ts _ ss =>
    ∀ opening, opening.kind = .leftBrace → Derives .block (opening :: ts) ss
  member : ∀ c kind, Yields True c (r (.member kind)) fun ts _ member =>
    match member with
    | .function f => Derives .function ts f
    | .getter g => Derives .getter ts g
  members : ∀ c, Yields True c (r .members) fun ts _ members => Derives .members ts members
  classDecl : ∀ c, Yields True c (r .classDecl) fun ts _ s =>
    ∀ keyword, keyword.kind = .kwClass → Derives .declaration (keyword :: ts) s
  varDecl : ∀ c, Yields True c (r .varDecl) fun ts _ s => Derives .varClause ts s
  declaration : ∀ c, Yields True c (r .declaration) fun ts _ s => Derives .declaration ts s
  statement : ∀ c, Yields True c (r .statement) Ended
  forStmt : ∀ c, Yields True c (r .forStmt) fun ts d s =>
    ∀ keyword, keyword.kind = .kwFor → Ended (keyword :: ts) d s

/-- The clauses of a loop give the tree that the grammar gives them. -/
lemma forLoop_eq_loop (initializer : Option Stmt) (condition increment : Option Expr)
    (body : Stmt) :
    forLoop initializer (condition.getD (.literal (.bool true))) increment body =
      loop initializer condition increment body := by
  cases initializer <;> cases increment <;> rfl

section Step

variable {r : Readers} (h : Derived r)

include h

lemma parametersFrom_derived (c : Cursor) (count : Nat) :
    Yields (count < maxListed) c (r.parametersFrom count) fun ts _ names =>
      Names ts names ∧ count + names.length ≤ maxListed := by
  refine (yields_expect (by decide) _).bind fun ts₁ c₁ name => ?_
  refine (yields_accept (by decide)).bind fun ts₂ c₂ more => ?_
  cases more with
  | true =>
    refine (h.parameters c₂ _).bind fun ts₃ c₃ names => yields_pure ?_
    rintro ⟨⟨⟨-, rfl, hname⟩, comma, rfl, hcomma, -⟩, hnames, hlength⟩
    refine ⟨by simpa using Names.cons hname hcomma hnames, ?_⟩
    rw [List.length_cons]
    omega
  | false =>
    refine yields_pure ?_
    rintro ⟨⟨hcount, rfl, hname⟩, rfl, -⟩
    exact ⟨by simpa using Names.last hname, hcount⟩

lemma parameters_derived (c : Cursor) (count : Nat) :
    Yields True c (r.step (.parameters count)) fun ts _ names =>
      Names ts names ∧ count + names.length ≤ maxListed := by
  rw [Readers.step]
  split
  · refine (yields_noteHere _).bind fun ts₁ c₁ _ => ?_
    exact (parametersFrom_derived h c₁ count).imp (fun h => h.2.elim) fun h => h.2.elim
  · next hcount =>
    exact (parametersFrom_derived h c count).imp (fun _ => Nat.lt_of_not_le hcount)
      fun _ _ _ _ h => h

lemma expression_derived (c : Cursor) :
    Yields True c (r.step .expression) fun ts _ e =>
      Derives (.expression .assignment) ts e := by
  refine (h.ternary c).bind fun ts₁ c₁ target => ?_
  refine (yields_accept? (by decide)).bind fun ts₂ c₂ equals => ?_
  cases equals with
  | none =>
    refine yields_pure ?_
    rintro ⟨⟨-, htarget⟩, rfl, -⟩
    simpa using Spells.tighter rfl htarget
  | some equals =>
    refine (h.expression c₂).bind fun ts₃ c₃ value => ?_
    cases target with
    | name id name =>
      refine yields_freshId.bind fun ts₄ c₄ id' => yields_pure ?_
      rintro ⟨⟨⟨⟨-, htarget⟩, rfl, hequals, -⟩, hvalue⟩, rfl, -⟩
      obtain ⟨rfl, hname⟩ := htarget.target
      simpa using Spells.assign hname (by simpa using hequals) hvalue
    | get object name =>
      refine yields_pure ?_
      rintro ⟨⟨⟨-, htarget⟩, rfl, hequals, -⟩, hvalue⟩
      obtain ⟨ts, dot, rfl, hobject, hdot, hname⟩ := htarget.target
      simpa using Spells.set hobject hdot hname (by simpa using hequals) hvalue
    | _ => exact (yields_note _ _).bind fun ts₄ c₄ _ => yields_pure fun hp => hp.2.elim

lemma ternary_derived (c : Cursor) :
    Yields True c (r.step .ternary) fun ts _ e => Derives (.expression .ternary) ts e := by
  refine (h.level c .elvis).bind fun ts₁ c₁ condition => ?_
  refine (yields_accept (by decide)).bind fun ts₂ c₂ asked => ?_
  cases asked with
  | true =>
    refine (h.expression c₂).bind fun ts₃ c₃ first => ?_
    refine (yields_expect (by decide) _).bind fun ts₄ c₄ colon => ?_
    refine (h.ternary c₄).bind fun ts₅ c₅ second => yields_pure ?_
    rintro ⟨⟨⟨⟨⟨-, hcondition⟩, question, rfl, hquestion, -⟩, hfirst⟩, rfl, hcolon⟩, hsecond⟩
    simpa using Spells.ternary hcondition hquestion hfirst hcolon hsecond
  | false =>
    refine yields_pure ?_
    rintro ⟨⟨-, hcondition⟩, rfl, -⟩
    simpa using Spells.tighter rfl hcondition

lemma level_derived (c : Cursor) (here : Level) :
    Yields True c (r.step (.level here)) fun ts _ e =>
      Derives (.expression here.stratum) ts e := by
  refine (h.operand c here).bind fun ts₁ c₁ left => ?_
  refine (h.levelRest c₁ here ts₁ left).imp ?_ fun _ _ _ _ he => he
  rintro ⟨-, s, hs, hleft⟩
  exact .tighter hs hleft

lemma operand_derived (c : Cursor) (here : Level) :
    Yields True c (r.step (.operand here)) fun ts _ e => Operand here ts e := by
  rw [Readers.step]
  cases here with
  | product => exact (h.unary c).imp id fun _ _ _ _ he => ⟨_, rfl, he⟩
  | _ => exact (h.level c _).imp id fun _ _ _ _ he => ⟨_, rfl, he⟩

lemma levelRest_derived (c : Cursor) (here : Level) (ts : List Token) (left : Expr) :
    Yields (Derives (.expression here.stratum) ts left) c (r.step (.levelRest here left))
      fun ts' _ e => Derives (.expression here.stratum) (ts ++ ts') e := by
  -- an operator of the level joins its operands to a tree of the level
  have join : ∀ {operator : Token} {ts' : List Token} {right : Expr},
      Derives (.expression here.stratum) ts left → operator.kind ∈ here.operators →
        Operand here ts' right →
          Derives (.expression here.stratum) (ts ++ operator :: ts')
            (here.join left operator right) := by
    rintro operator ts' right hleft hmem ⟨s, hs, hright⟩
    cases here with
    | disjunction => exact .logical hs hleft hmem hright
    | conjunction => exact .logical hs hleft hmem hright
    | comparison =>
      -- the grammar lists the same operators in another order
      have hsame : ∀ kind ∈ Level.comparison.operators,
          kind ∈ Level.comparison.stratum.binaryOperators := by decide
      exact .binary hs hleft (hsame _ hmem) hright
    | _ => exact .binary hs hleft hmem hright
  have hoperators : .endOfText ∉ here.operators := by
    cases here <;> decide
  refine (yields_accept? hoperators).bind fun ts₁ c₁ operator => ?_
  cases operator with
  | none =>
    refine yields_pure ?_
    rintro ⟨hleft, rfl, -⟩
    simpa using hleft
  | some operator =>
    refine (h.operand c₁ here).bind fun ts₂ c₂ right => ?_
    refine (h.levelRest c₂ here (ts ++ operator :: ts₂) _).imp ?_ ?_
    · rintro ⟨⟨hleft, rfl, hmem, -⟩, hright⟩
      exact join hleft hmem hright
    · rintro ⟨⟨-, rfl, -⟩, -⟩ ts' d e he
      simpa using he

lemma unary_derived (c : Cursor) :
    Yields True c (r.step .unary) fun ts _ e => Derives (.expression .unary) ts e := by
  refine (yields_accept? (by decide)).bind fun ts₁ c₁ operator => ?_
  cases operator with
  | some operator =>
    refine (h.unary c₁).bind fun ts₂ c₂ operand => yields_pure ?_
    rintro ⟨⟨-, rfl, hoperator, -⟩, hoperand⟩
    simpa using Spells.unary hoperator hoperand
  | none =>
    refine (h.primary c₁).bind fun ts₂ c₂ head => ?_
    refine (h.calls c₂ ts₂ head).imp ?_ ?_
    · rintro ⟨-, hhead⟩
      exact .tighter rfl hhead
    · rintro ⟨⟨-, rfl, -⟩, -⟩ ts' d e he
      exact .tighter rfl he

/-- The rest of a call, and of the chain that it belongs to. -/
lemma callRest_derived (c : Cursor) (ts ts' : List Token) (head : Expr) (es : List Expr)
    {opening : Token} (hopening : opening.kind = .leftParen) :
    Yields (Derives (.expression .call) ts head ∧ Derives .arguments ts' es) c (r.callRest head es)
      fun ts'' _ e => Derives (.expression .call) (ts ++ opening :: (ts' ++ ts'')) e := by
  refine (yields_expect (by decide) _).bind fun ts₁ c₁ paren => ?_
  refine (h.calls c₁ (ts ++ opening :: (ts' ++ [paren])) _).imp ?_ ?_
  · rintro ⟨⟨hhead, hes⟩, -, hparen⟩
    exact .call hhead hopening hes hparen
  · rintro ⟨-, rfl, -⟩ ts'' d e he
    simpa using he

lemma calls_derived (c : Cursor) (ts : List Token) (head : Expr) :
    Yields (Derives (.expression .call) ts head) c (r.step (.calls head))
      fun ts' _ e => Derives (.expression .call) (ts ++ ts') e := by
  refine (yields_accept? (by decide)).bind fun ts₁ c₁ token => ?_
  cases token with
  | none =>
    refine yields_pure ?_
    rintro ⟨hhead, rfl, -⟩
    simpa using hhead
  | some token =>
    dsimp only
    split
    · next hkind =>
      refine yields_peekKind fun kind _ => ?_
      split
      · refine (callRest_derived h c₁ ts [] head [] hkind).imp ?_ ?_
        · rintro ⟨hhead, -⟩
          exact ⟨hhead, .noArguments⟩
        · rintro ⟨-, rfl, -⟩ ts' d e he
          simpa using he
      · refine (h.arguments c₁ 0).bind fun ts₂ c₂ es => ?_
        refine (callRest_derived h c₂ ts ts₂ head es hkind).imp ?_ ?_
        · rintro ⟨⟨hhead, -⟩, hes, hlength⟩
          exact ⟨hhead, .arguments hes (by omega)⟩
        · rintro ⟨⟨-, rfl, -⟩, -⟩ ts' d e he
          simpa using he
    · next hkind =>
      refine (yields_expect (by decide) _).bind fun ts₂ c₂ name => ?_
      refine (h.calls c₂ (ts ++ [token, name]) _).imp ?_ ?_
      · rintro ⟨⟨hhead, -⟩, -, hname⟩
        exact .get hhead hkind hname
      · rintro ⟨⟨-, rfl, -⟩, rfl, -⟩ ts' d e he
        simpa using he
    · next hparen hdot =>
      refine (yields_expect (by decide) _).bind fun ts₂ c₂ name => ?_
      refine (h.calls c₂ (ts ++ [token, name]) _).imp ?_ ?_
      · rintro ⟨⟨hhead, -, hmem, -⟩, -, hname⟩
        have hkind : token.kind = .questionDot := by
          simp only [List.mem_cons, List.not_mem_nil, or_false] at hmem
          exact (hmem.resolve_left hparen).resolve_left hdot
        exact .nilGet hhead hkind hname
      · rintro ⟨⟨-, rfl, -⟩, rfl, -⟩ ts' d e he
        simpa using he

lemma argumentsFrom_derived (c : Cursor) (count : Nat) :
    Yields (count < maxListed) c (r.argumentsFrom count) fun ts _ es =>
      Derives .listing ts es ∧ count + es.length ≤ maxListed := by
  refine (h.expression c).bind fun ts₁ c₁ argument => ?_
  refine (yields_accept (by decide)).bind fun ts₂ c₂ more => ?_
  cases more with
  | true =>
    refine (h.arguments c₂ _).bind fun ts₃ c₃ es => yields_pure ?_
    rintro ⟨⟨⟨-, hargument⟩, comma, rfl, hcomma, -⟩, hes, hlength⟩
    refine ⟨by simpa using Spells.more hargument hcomma hes, ?_⟩
    rw [List.length_cons]
    omega
  | false =>
    refine yields_pure ?_
    rintro ⟨⟨hcount, hargument⟩, rfl, -⟩
    exact ⟨by simpa using Spells.last hargument, hcount⟩

lemma arguments_derived (c : Cursor) (count : Nat) :
    Yields True c (r.step (.arguments count)) fun ts _ es =>
      Derives .listing ts es ∧ count + es.length ≤ maxListed := by
  rw [Readers.step]
  split
  · refine (yields_noteHere _).bind fun ts₁ c₁ _ => ?_
    exact (argumentsFrom_derived h c₁ count).imp (fun h => h.2.elim) fun h => h.2.elim
  · next hcount =>
    exact (argumentsFrom_derived h c count).imp (fun _ => Nat.lt_of_not_le hcount)
      fun _ _ _ _ h => h

lemma primary_derived (c : Cursor) :
    Yields True c (r.step .primary) fun ts _ e => Derives (.expression .primary) ts e := by
  refine yields_peekKind fun kind hk => ?_
  split
  · refine (yields_takeKind hk (by decide)).bind fun ts₁ c₁ t => yields_pure ?_
    rintro ⟨-, rfl, ht⟩
    exact .falseLiteral ht
  · refine (yields_takeKind hk (by decide)).bind fun ts₁ c₁ t => yields_pure ?_
    rintro ⟨-, rfl, ht⟩
    exact .trueLiteral ht
  · refine (yields_takeKind hk (by decide)).bind fun ts₁ c₁ t => yields_pure ?_
    rintro ⟨-, rfl, ht⟩
    exact .nilLiteral ht
  · refine (yields_takeKind hk (by decide)).bind fun ts₁ c₁ t => yields_pure ?_
    rintro ⟨-, rfl, ht⟩
    exact .literal (by simp [ht])
  · refine (yields_takeKind hk (by decide)).bind fun ts₁ c₁ t => yields_pure ?_
    rintro ⟨-, rfl, ht⟩
    exact .literal (by simp [ht])
  · refine (yields_takeKind hk (by decide)).bind fun ts₁ c₁ t => ?_
    refine yields_freshId.bind fun ts₂ c₂ id => yields_pure ?_
    rintro ⟨⟨-, rfl, ht⟩, rfl, -⟩
    exact .this ht
  · refine (yields_takeKind hk (by decide)).bind fun ts₁ c₁ keyword => ?_
    refine (yields_expect (by decide) _).bind fun ts₂ c₂ dot => ?_
    refine (yields_expect (by decide) _).bind fun ts₃ c₃ method => ?_
    refine yields_freshId.bind fun ts₄ c₄ id => yields_pure ?_
    rintro ⟨⟨⟨⟨-, rfl, hkeyword⟩, rfl, hdot⟩, rfl, hmethod⟩, rfl, -⟩
    exact .super hkeyword hdot hmethod
  · refine (yields_takeKind hk (by decide)).bind fun ts₁ c₁ t => ?_
    refine yields_freshId.bind fun ts₂ c₂ id => yields_pure ?_
    rintro ⟨⟨-, rfl, ht⟩, rfl, -⟩
    exact .name ht
  · -- a lambda
    refine (yields_takeKind hk (by decide)).bind fun ts₁ c₁ keyword => ?_
    refine (yields_expect (by decide) _).bind fun ts₂ c₂ opening => ?_
    refine (h.functionRest c₂ _).bind fun ts₃ c₃ f => yields_pure ?_
    rintro ⟨⟨⟨-, rfl, hkeyword⟩, rfl, hopening⟩, hf⟩
    simpa using Spells.lambda hkeyword (hf opening hopening)
  · -- a group
    refine (yields_takeKind hk (by decide)).bind fun ts₁ c₁ opening => ?_
    refine (h.expression c₁).bind fun ts₂ c₂ inner => ?_
    refine (yields_expect (by decide) _).bind fun ts₃ c₃ closing => yields_pure ?_
    rintro ⟨⟨⟨-, rfl, hopening⟩, hinner⟩, rfl, hclosing⟩
    simpa using Spells.grouping hopening hinner hclosing
  · exact yields_stop _

lemma functionBody_derived (c : Cursor) (kind : DeclKind) (ts₀ : List Token)
    (params : List Token) :
    Yields (Parameters ts₀ params) c (r.functionBody kind params) fun ts _ f =>
      ∀ opening, opening.kind = .leftParen → Derives .callable (opening :: (ts₀ ++ ts)) f := by
  refine (yields_expect (by decide) _).bind fun ts₁ c₁ closing => ?_
  refine (yields_expect (by decide) _).bind fun ts₂ c₂ brace => ?_
  refine (h.block c₂).bind fun ts₃ c₃ body => yields_pure ?_
  rintro ⟨⟨⟨hparams, rfl, hclosing⟩, rfl, hbrace⟩, hbody⟩ opening hopening
  simpa using Spells.callable hopening hparams hclosing (hbody brace hbrace)

lemma functionRest_derived (c : Cursor) (kind : DeclKind) :
    Yields True c (r.step (.functionRest kind)) fun ts _ f =>
      ∀ opening, opening.kind = .leftParen → Derives .callable (opening :: ts) f := by
  refine yields_peekKind fun found _ => ?_
  split
  · exact (functionBody_derived h c kind [] []).imp (fun _ => .none) fun _ _ _ _ hf => hf
  · refine (h.parameters c 0).bind fun ts₁ c₁ params => ?_
    refine (functionBody_derived h c₁ kind ts₁ params).imp ?_ fun _ _ _ _ hf => hf
    rintro ⟨-, hnames, hlength⟩
    exact .some hnames (by omega)

lemma block_derived (c : Cursor) :
    Yields True c (r.step .block) fun ts _ ss =>
      ∀ opening, opening.kind = .leftBrace → Derives .block (opening :: ts) ss := by
  refine yields_peekKind fun kind hk => ?_
  split
  · refine (yields_takeKind hk (by decide)).bind fun ts₁ c₁ closing => yields_pure ?_
    rintro ⟨-, rfl, hclosing⟩ opening hopening
    exact .block hopening .done hclosing
  · exact yields_stop _
  · refine (h.declaration c).bind fun ts₁ c₁ first => ?_
    refine (h.block c₁).bind fun ts₂ c₂ rest => yields_pure ?_
    rintro ⟨⟨-, hfirst⟩, hrest⟩ opening hopening
    -- the declarations behind the first one stand before the same closing brace
    cases hrest opening hopening with
    | block _ hss hclosing => simpa using Spells.block hopening (.next hfirst hss) hclosing

lemma member_derived (c : Cursor) (kind : DeclKind) :
    Yields True c (r.step (.member kind)) fun ts _ member =>
      match member with
      | .function f => Derives .function ts f
      | .getter g => Derives .getter ts g := by
  refine (yields_expect (by decide) _).bind fun ts₁ c₁ name => ?_
  refine (yields_accept (by decide)).bind fun ts₂ c₂ braced => ?_
  cases braced with
  | true =>
    refine (h.block c₂).bind fun ts₃ c₃ body => yields_pure ?_
    rintro ⟨⟨⟨-, rfl, hname⟩, opening, rfl, hopening, -⟩, hbody⟩
    simpa using Spells.getter hname (hbody opening hopening)
  | false =>
    refine (yields_expect (by decide) _).bind fun ts₃ c₃ opening => ?_
    refine (h.functionRest c₃ kind).bind fun ts₄ c₄ f => yields_pure ?_
    rintro ⟨⟨⟨⟨-, rfl, hname⟩, rfl, -⟩, rfl, hopening⟩, hf⟩
    simpa using Spells.function hname (hf opening hopening)

lemma members_derived (c : Cursor) :
    Yields True c (r.step .members) fun ts _ members => Derives .members ts members := by
  refine yields_peekKind fun kind _ => ?_
  split
  · exact yields_pure fun _ => .noMembers
  · exact yields_pure fun _ => .noMembers
  · refine (h.member c .method).bind fun ts₁ c₁ first => ?_
    refine (h.members c₁).bind fun ts₂ c₂ rest => ?_
    cases first with
    | function f =>
      refine yields_pure ?_
      rintro ⟨⟨-, hfirst⟩, hrest⟩
      simpa using Spells.method hfirst hrest
    | getter g =>
      refine yields_pure ?_
      rintro ⟨⟨-, hfirst⟩, hrest⟩
      simpa using Spells.property hfirst hrest

lemma classBody_derived (c : Cursor) (ts₀ : List Token) (name : Token)
    (superclass : Option Expr) :
    Yields (name.kind = .identifier ∧ Superclass ts₀ superclass) c (r.classBody name superclass)
      fun ts _ s => ∀ keyword, keyword.kind = .kwClass →
        Derives .declaration (keyword :: name :: (ts₀ ++ ts)) s := by
  refine (yields_expect (by decide) _).bind fun ts₁ c₁ opening => ?_
  refine (h.members c₁).bind fun ts₂ c₂ members => ?_
  refine (yields_expect (by decide) _).bind fun ts₃ c₃ closing => yields_pure ?_
  rintro ⟨⟨⟨⟨hname, hsuper⟩, rfl, hopening⟩, hmembers⟩, rfl, hclosing⟩ keyword hkeyword
  simpa using Spells.classDecl hkeyword hname hsuper hopening hmembers hclosing

lemma classDecl_derived (c : Cursor) :
    Yields True c (r.step .classDecl) fun ts _ s =>
      ∀ keyword, keyword.kind = .kwClass → Derives .declaration (keyword :: ts) s := by
  refine (yields_expect (by decide) _).bind fun ts₁ c₁ name => ?_
  refine (yields_accept (by decide)).bind fun ts₂ c₂ derived => ?_
  cases derived with
  | true =>
    refine (yields_expect (by decide) _).bind fun ts₃ c₃ superName => ?_
    refine yields_freshId.bind fun ts₄ c₄ id => ?_
    refine (classBody_derived h c₄ (ts₂ ++ ts₃) name (some (.name id superName))).imp ?_ ?_
    · rintro ⟨⟨⟨⟨-, -, hname⟩, less, rfl, hless, -⟩, rfl, hsuper⟩, -⟩
      exact ⟨hname, .some hless hsuper⟩
    · rintro ⟨⟨⟨⟨-, rfl, -⟩, -⟩, -⟩, rfl, -⟩ ts d s hs
      simpa using hs
  | false =>
    refine (classBody_derived h c₂ ts₂ name none).imp ?_ ?_
    · rintro ⟨⟨-, -, hname⟩, rfl, -⟩
      exact ⟨hname, .none⟩
    · rintro ⟨⟨-, rfl, -⟩, -⟩ ts d s hs
      simpa using hs

lemma varDecl_derived (c : Cursor) :
    Yields True c (r.step .varDecl) fun ts _ s => Derives .varClause ts s := by
  refine (yields_expect (by decide) _).bind fun ts₁ c₁ name => ?_
  refine (yields_accept (by decide)).bind fun ts₂ c₂ initialized => ?_
  cases initialized with
  | true =>
    refine (h.expression c₂).bind fun ts₃ c₃ value => yields_pure ?_
    rintro ⟨⟨⟨-, rfl, hname⟩, equals, rfl, hequals, -⟩, hvalue⟩
    simpa using Spells.initialized hname hequals hvalue
  | false =>
    refine yields_pure ?_
    rintro ⟨⟨-, rfl, hname⟩, rfl, -⟩
    exact .uninitialized hname

lemma declaration_derived (c : Cursor) :
    Yields True c (r.step .declaration) fun ts _ s => Derives .declaration ts s := by
  have stated : Yields True c (r .statement) fun ts _ s => Derives .declaration ts s :=
    (h.statement c).imp id fun _ _ _ _ hs => .statement hs.choose_spec.1
  refine yields_peekKind fun kind hk => ?_
  split
  · refine (yields_takeKind hk (by decide)).bind fun ts₁ c₁ keyword => ?_
    refine (h.classDecl c₁).imp (fun _ => trivial) ?_
    rintro ⟨-, rfl, hkeyword⟩ ts d s hs
    exact hs keyword hkeyword
  · refine (yields_takeKind hk (by decide)).bind fun ts₁ c₁ keyword => ?_
    refine (h.varDecl c₁).bind fun ts₂ c₂ s => ?_
    refine yields_endStatement.bind fun ts₃ c₃ _ => yields_pure ?_
    rintro ⟨⟨⟨-, rfl, hkeyword⟩, hs⟩, hending⟩
    simpa using Spells.varDecl hkeyword hs hending
  · refine yields_peekSecondKind fun second => ?_
    split
    · refine (yields_takeKind hk (by decide)).bind fun ts₁ c₁ keyword => ?_
      refine (h.member c₁ .function).bind fun ts₂ c₂ member => ?_
      cases member with
      | function f =>
        refine yields_pure ?_
        rintro ⟨⟨-, rfl, hkeyword⟩, hf⟩
        simpa using Spells.functionDecl hkeyword hf
      | getter g =>
        refine yields_pure ?_
        rintro ⟨⟨-, rfl, hkeyword⟩, hg⟩
        simpa using Spells.getterDecl hkeyword hg
    · exact stated
  · exact stated

lemma statement_derived (c : Cursor) : Yields True c (r.step .statement) Ended := by
  refine yields_peekKind fun kind hk => ?_
  split
  · -- `if`
    refine (yields_takeKind hk (by decide)).bind fun ts₁ c₁ keyword => ?_
    refine (yields_expect (by decide) _).bind fun ts₂ c₂ opening => ?_
    refine (h.expression c₂).bind fun ts₃ c₃ condition => ?_
    refine (yields_expect (by decide) _).bind fun ts₄ c₄ closing => ?_
    refine (h.statement c₄).bind fun ts₅ c₅ consequent => ?_
    refine (yields_accept (by decide)).bind fun ts₆ c₆ found => ?_
    cases found with
    | true =>
      refine (h.statement c₆).bind fun ts₇ c₇ alternative => yields_pure ?_
      rintro ⟨⟨⟨⟨⟨⟨⟨-, rfl, hkeyword⟩, rfl, hopening⟩, hcondition⟩, rfl, hclosing⟩,
        ending, hconsequent, helse⟩, keyword', rfl, hkeyword', hpeek⟩, ending', halternative, hend⟩
      -- an open branch would have taken the `else` itself
      cases ending with
      | opened => exact absurd (hpeek ▸ hkeyword') (helse rfl)
      | closed =>
        refine ⟨ending', ?_, hend⟩
        simpa using Spells.ifElse hkeyword hopening hcondition hclosing hconsequent hkeyword'
          halternative
    | false =>
      refine yields_pure ?_
      rintro ⟨⟨⟨⟨⟨⟨-, rfl, hkeyword⟩, rfl, hopening⟩, hcondition⟩, rfl, hclosing⟩,
        ending, hconsequent, -⟩, rfl, hnot⟩
      refine ⟨.opened, ?_, fun _ => hnot⟩
      simpa using Spells.ifOnly hkeyword hopening hcondition hclosing hconsequent
  · -- `while`
    refine (yields_takeKind hk (by decide)).bind fun ts₁ c₁ keyword => ?_
    refine (yields_expect (by decide) _).bind fun ts₂ c₂ opening => ?_
    refine (h.expression c₂).bind fun ts₃ c₃ condition => ?_
    refine (yields_expect (by decide) _).bind fun ts₄ c₄ closing => ?_
    refine (h.statement c₄).bind fun ts₅ c₅ body => yields_pure ?_
    rintro ⟨⟨⟨⟨⟨-, rfl, hkeyword⟩, rfl, hopening⟩, hcondition⟩, rfl, hclosing⟩,
      ending, hbody, hend⟩
    refine ⟨ending, ?_, hend⟩
    simpa using Spells.whileStmt hkeyword hopening hcondition hclosing hbody
  · -- `return`
    refine (yields_takeKind hk (by decide)).bind fun ts₁ c₁ keyword => ?_
    have hended : ∀ (ts₂ : List Token) (c₂ : Cursor) (value : Option Expr),
        Yields ((True ∧ ts₁ = [keyword] ∧ keyword.kind = .kwReturn) ∧ Derives .optional ts₂ value)
          c₂ (ended (.returnStmt keyword value)) fun ts d s => Ended (ts₁ ++ (ts₂ ++ ts)) d s := by
      intro ts₂ c₂ value
      refine yields_endStatement.bind fun ts₃ c₃ _ => yields_pure ?_
      rintro ⟨⟨⟨-, rfl, hkeyword⟩, hvalue⟩, hending⟩
      refine ⟨.closed, ?_, by simp⟩
      simpa using Spells.returnStmt hkeyword hvalue hending
    refine yields_peekKind fun next _ => ?_
    split
    · exact (hended [] c₁ none).imp (fun hp => ⟨hp, .absent⟩) fun _ _ _ _ hs => hs
    · exact (hended [] c₁ none).imp (fun hp => ⟨hp, .absent⟩) fun _ _ _ _ hs => hs
    · exact (hended [] c₁ none).imp (fun hp => ⟨hp, .absent⟩) fun _ _ _ _ hs => hs
    · refine Yields.bind (Q := fun ts _ value => Derives .optional ts value) ?_ hended
      refine (h.expression c₁).bind fun ts₂ c₂ value => yields_pure ?_
      rintro ⟨-, hvalue⟩
      simpa using Spells.present hvalue
  · -- `for`
    refine (yields_takeKind hk (by decide)).bind fun ts₁ c₁ keyword => ?_
    refine (h.forStmt c₁).imp (fun _ => trivial) ?_
    rintro ⟨-, rfl, hkeyword⟩ ts d s hs
    exact hs keyword hkeyword
  · -- `print`
    refine (yields_takeKind hk (by decide)).bind fun ts₁ c₁ keyword => ?_
    refine (h.expression c₁).bind fun ts₂ c₂ value => ?_
    refine yields_endStatement.bind fun ts₃ c₃ _ => yields_pure ?_
    rintro ⟨⟨⟨-, rfl, hkeyword⟩, hvalue⟩, hending⟩
    refine ⟨.closed, ?_, by simp⟩
    simpa using Spells.print hkeyword hvalue hending
  · -- `break`
    refine (yields_takeKind hk (by decide)).bind fun ts₁ c₁ keyword => ?_
    refine yields_endStatement.bind fun ts₂ c₂ _ => yields_pure ?_
    rintro ⟨⟨-, rfl, hkeyword⟩, hending⟩
    refine ⟨.closed, ?_, by simp⟩
    simpa using Spells.breakStmt hkeyword hending
  · -- a block
    refine (yields_takeKind hk (by decide)).bind fun ts₁ c₁ opening => ?_
    refine (h.block c₁).bind fun ts₂ c₂ body => yields_pure ?_
    rintro ⟨⟨-, rfl, hopening⟩, hbody⟩
    refine ⟨.closed, ?_, by simp⟩
    simpa using Spells.blockStmt (hbody opening hopening)
  · refine (h.expression c).bind fun ts₁ c₁ value => ?_
    refine yields_endStatement.bind fun ts₂ c₂ _ => yields_pure ?_
    rintro ⟨⟨-, hvalue⟩, hending⟩
    refine ⟨.closed, ?_, by simp⟩
    simpa using Spells.expression hvalue hending

lemma forBody_derived (c : Cursor) (ts₀ ts₁ : List Token) (initializer : Option Stmt)
    (condition increment : Option Expr) :
    Yields (LoopTest ts₀ initializer condition ∧ Derives .optional ts₁ increment) c
      (r.forBody initializer (condition.getD (.literal (.bool true))) increment) fun ts d s =>
        ∀ keyword, keyword.kind = .kwFor → Ended (keyword :: (ts₀ ++ (ts₁ ++ ts))) d s := by
  refine (yields_expect (by decide) _).bind fun ts₂ c₂ closing => ?_
  refine (h.statement c₂).bind fun ts₃ c₃ body => yields_pure ?_
  rintro ⟨⟨⟨⟨head, ts, second, rfl, ⟨opening, ts', first, rfl, hopening, hinitializer, hfirst⟩,
    hcondition, hsecond⟩, hincrement⟩, rfl, hclosing⟩, ending, hbody, hend⟩ keyword hkeyword
  refine ⟨ending, ?_, hend⟩
  rw [forLoop_eq_loop]
  simpa using Spells.forStmt hkeyword hopening hinitializer hfirst hcondition hsecond
    hincrement hclosing hbody

lemma forIncrement_derived (c : Cursor) (ts₀ ts₁ : List Token) (initializer : Option Stmt)
    (condition : Option Expr) :
    Yields (LoopHead ts₀ initializer ∧ Derives .optional ts₁ condition) c
      (r.forIncrement initializer (condition.getD (.literal (.bool true)))) fun ts d s =>
        ∀ keyword, keyword.kind = .kwFor → Ended (keyword :: (ts₀ ++ (ts₁ ++ ts))) d s := by
  refine (yields_expect (by decide) _).bind fun ts₂ c₂ second => ?_
  have bodied : ∀ (ts₃ : List Token) (c₃ : Cursor) (increment : Option Expr),
      Yields (((LoopHead ts₀ initializer ∧ Derives .optional ts₁ condition) ∧
          ts₂ = [second] ∧ second.kind = .semicolon) ∧ Derives .optional ts₃ increment) c₃
        (r.forBody initializer (condition.getD (.literal (.bool true))) increment) fun ts d s =>
          ∀ keyword, keyword.kind = .kwFor →
            Ended (keyword :: (ts₀ ++ (ts₁ ++ (ts₂ ++ (ts₃ ++ ts))))) d s := by
    intro ts₃ c₃ increment
    refine (forBody_derived h c₃ (ts₀ ++ (ts₁ ++ ts₂)) ts₃ initializer condition increment).imp
      ?_ fun _ ts d s hs => by simpa using hs
    rintro ⟨⟨⟨hhead, hcondition⟩, rfl, hsecond⟩, hincrement⟩
    exact ⟨⟨ts₀, ts₁, second, rfl, hhead, hcondition, hsecond⟩, hincrement⟩
  refine yields_peekKind fun kind _ => ?_
  split
  · exact (bodied [] c₂ none).imp (fun hp => ⟨hp, .absent⟩) fun _ _ _ _ hs => hs
  · refine Yields.bind (Q := fun ts _ increment => Derives .optional ts increment) ?_ bodied
    refine (h.expression c₂).bind fun ts₃ c₃ step => yields_pure ?_
    rintro ⟨-, hstep⟩
    simpa using Spells.present hstep

lemma forCondition_derived (c : Cursor) (ts₀ : List Token) (initializer : Option Stmt) :
    Yields (LoopHead ts₀ initializer) c (r.forCondition initializer) fun ts d s =>
      ∀ keyword, keyword.kind = .kwFor → Ended (keyword :: (ts₀ ++ ts)) d s := by
  refine yields_peekKind fun kind _ => ?_
  split
  · exact (forIncrement_derived h c ts₀ [] initializer none).imp (fun hp => ⟨hp, .absent⟩)
      fun _ _ _ _ hs => hs
  · refine (h.expression c).bind fun ts₁ c₁ condition => ?_
    exact (forIncrement_derived h c₁ ts₀ ts₁ initializer (some condition)).imp
      (fun hp => ⟨hp.1, .present hp.2⟩) fun _ _ _ _ hs => hs

lemma forStmt_derived (c : Cursor) :
    Yields True c (r.step .forStmt) fun ts d s =>
      ∀ keyword, keyword.kind = .kwFor → Ended (keyword :: ts) d s := by
  refine (yields_expect (by decide) _).bind fun ts₁ c₁ opening => ?_
  refine yields_peekKind fun kind hk => ?_
  split
  · refine (yields_takeKind hk (by decide)).bind fun ts₂ c₂ first => ?_
    refine (forCondition_derived h c₂ (ts₁ ++ ts₂) none).imp ?_ ?_
    · rintro ⟨⟨-, rfl, hopening⟩, rfl, hfirst⟩
      exact ⟨opening, [], first, rfl, hopening, .noInitializer, hfirst⟩
    · rintro - ts d s hs
      simpa using hs
  · refine (yields_takeKind hk (by decide)).bind fun ts₂ c₂ keyword => ?_
    refine (h.varDecl c₂).bind fun ts₃ c₃ first => ?_
    refine (yields_expect (by decide) _).bind fun ts₄ c₄ semicolon => ?_
    refine (forCondition_derived h c₄ (ts₁ ++ (ts₂ ++ (ts₃ ++ ts₄))) (some first)).imp ?_ ?_
    · rintro ⟨⟨⟨⟨-, rfl, hopening⟩, rfl, hkeyword⟩, hfirst⟩, rfl, hsemicolon⟩
      exact ⟨opening, keyword :: ts₃, semicolon, rfl, hopening, .varInitializer hkeyword hfirst,
        hsemicolon⟩
    · rintro - ts d s hs
      simpa using hs
  · refine (h.expression c₁).bind fun ts₂ c₂ first => ?_
    refine (yields_expect (by decide) _).bind fun ts₃ c₃ semicolon => ?_
    refine (forCondition_derived h c₃ (ts₁ ++ (ts₂ ++ ts₃)) (some (.expression first))).imp ?_ ?_
    · rintro ⟨⟨⟨-, rfl, hopening⟩, hfirst⟩, rfl, hsemicolon⟩
      exact ⟨opening, ts₂, semicolon, rfl, hopening, .expressionInitializer hfirst, hsemicolon⟩
    · rintro - ts d s hs
      simpa using hs

/-- One step keeps it that what is read follows the grammar. -/
lemma Derived.step : Derived r.step :=
  ⟨parameters_derived h, expression_derived h, ternary_derived h, level_derived h,
    operand_derived h, levelRest_derived h, unary_derived h, calls_derived h, arguments_derived h,
    primary_derived h, functionRest_derived h, block_derived h, member_derived h,
    members_derived h, classDecl_derived h, varDecl_derived h, declaration_derived h,
    statement_derived h, forStmt_derived h⟩

end Step

/-- Whatever is read within any bound follows the grammar. -/
theorem derived (bound : Nat) : Derived (readers bound) := by
  induction bound with
  | zero => constructor <;> intros <;> exact yields_stop _
  | succ bound h => exact h.step

/-- A complaint that was noted stays noted, whatever is read after it. -/
lemma declarations_noted (bound rounds : Nat) {c : Cursor} (hn : c.noted ≠ #[])
    (found : Array Stmt) :
    (declarations (readers bound .declaration) rounds c found).2.noted ≠ #[] := by
  induction rounds generalizing c found with
  | zero => exact hn
  | succ rounds ih =>
    unfold declarations
    split
    · exact hn
    · cases hd : readers bound .declaration c with
      | ok s c' =>
        refine ih (fun hn' => hn ?_) _
        exact ((derived bound).declaration c (fun _ => trivial) s c' hd hn').1
      | error e c' => exact ih (by simp [Cursor.recover, synchronize, Cursor.noted_advance]) _

/-- The declarations of a text without complaints, up to the end of the text. -/
lemma declarations_derived {bound rounds : Nat} {c d : Cursor} {found result : Array Stmt}
    (hr : c.rest.length < rounds)
    (h : declarations (readers bound .declaration) rounds c found = (result, d))
    (hn : d.noted = #[]) :
    c.noted = #[] ∧ d.peek.kind = .endOfText ∧ ∃ ts ss, c.rest = ts ++ d.rest ∧
      (∀ t ∈ ts, t.kind ≠ .endOfText) ∧ result.toList = found.toList ++ ss ∧
      Derives .declarations ts ss := by
  induction rounds generalizing c found with
  | zero => exact absurd hr (Nat.not_lt_zero _)
  | succ rounds ih =>
    unfold declarations at h
    split at h
    · next hk =>
      obtain ⟨rfl, rfl⟩ := Prod.mk.inj h
      exact ⟨hn, hk, [], [], rfl, by simp, by simp, .done⟩
    · cases hd : readers bound .declaration c with
      | error e c' =>
        rw [hd] at h
        dsimp only at h
        have hpushed : (c'.recover e).noted ≠ #[] := by
          simp [Cursor.recover, synchronize, Cursor.noted_advance]
        have hnoted := declarations_noted bound rounds hpushed found
        rw [h] at hnoted
        exact absurd hn hnoted
      | ok s c' =>
        rw [hd] at h
        have hlt := length_lt_of_declaration hd
        obtain ⟨hn', hk, ts', ss, hts', hkinds', hresult, hss⟩ := ih (by omega) h
        obtain ⟨hc, ts, hts, hkinds, hs⟩ :=
          (derived bound).declaration c (fun _ => trivial) s c' hd hn'
        refine ⟨hc, hk, ts ++ ts', s :: ss, ?_, ?_, ?_, .next hs hss⟩
        · rw [hts, hts', List.append_assoc]
        · rw [List.forall_mem_append]
          exact ⟨hkinds, hkinds'⟩
        · rw [hresult]
          simp

end Parser

/-- Tokens that are read as a program spell it, up to the end of the text. -/
lemma Program.derives_of_parse {nextId next : NodeId} {tokens : List Token} {p : Program}
    (h : Program.parse nextId tokens = (.ok p, next)) :
    ∃ front back, tokens = front ++ back ∧ (∀ t ∈ front, t.kind ≠ .endOfText) ∧
      (back.headD (.endAt 0)).kind = .endOfText ∧ Derives .declarations front p := by
  obtain ⟨found, d, hd, hn, rfl, rfl⟩ := Program.parse_eq_ok h
  obtain ⟨-, hk, ts, ss, hts, hkinds, hfound, hss⟩ :=
    Parser.declarations_derived (Nat.lt_succ_self tokens.length) hd hn
  refine ⟨ts, d.rest, hts, hkinds, hk, ?_⟩
  rw [hfound]
  simpa using hss

/-- What is read of the tokens of a script are all tokens before the end of the text. -/
lemma Program.front_eq_of_read {front front' back : List Token} {line : Nat}
    (he : front ++ [Token.endAt line] = front' ++ back) (hfront : ∀ t ∈ front, t.kind ≠ .endOfText)
    (hfront' : ∀ t ∈ front', t.kind ≠ .endOfText)
    (hk : (back.headD (.endAt 0)).kind = .endOfText) : front' = front := by
  rcases List.append_eq_append_iff.mp he with ⟨more, rfl, hmore⟩ | ⟨more, rfl, rfl⟩
  · cases more with
    | nil => exact List.append_nil front
    | cons t more =>
      obtain ⟨rfl, -⟩ := List.cons.inj hmore
      exact absurd rfl (hfront' (.endAt line) (by simp))
  · cases more with
    | nil => exact (List.append_nil front').symm
    | cons t more => exact absurd hk (hfront t (by simp))

/-- What is read from a script follows the grammar: its tokens before the end of the text, all of
them and in order, spell the program that comes out. -/
theorem Program.parse_derives {source : String} {tokens : List Token} {nextId next : NodeId}
    {p : Program} (hscan : scan source = .ok tokens)
    (h : Program.parse nextId tokens = (.ok p, next)) :
    ∃ front line, tokens = front ++ [.endAt line] ∧ (∀ t ∈ front, t.kind ≠ .endOfText) ∧
      Derives .declarations front p := by
  obtain ⟨front, line, rfl⟩ := exists_end_of_scan hscan
  have hfront := (scan_eq_ok_iff.mp hscan).kind_ne_of_mem_dropLast
  rw [List.dropLast_concat] at hfront
  obtain ⟨front', back, he, hkinds, hk, hp⟩ := Program.derives_of_parse h
  -- both the tokens read and those before the last one end where the text does
  obtain rfl := Program.front_eq_of_read he hfront hkinds hk
  exact ⟨front', line, rfl, hfront, hp⟩

/-- A source whose program passes a test has tokens and a program. -/
lemma exists_parse_of_any (source : String) (test : Program → Bool)
    (hread : ((scan source).toOption.bind fun tokens =>
      (Program.parse 0 tokens).1.toOption).any test) :
    ∃ tokens p next, scan source = .ok tokens ∧ Program.parse 0 tokens = (.ok p, next) ∧
      test p := by
  obtain ⟨p, hp, htest⟩ := (Option.any_eq_true _ _).mp hread
  obtain ⟨tokens, hscan, hp⟩ := Option.bind_eq_some_iff.mp hp
  have hparse : ∃ next, Program.parse 0 tokens = (.ok p, next) := by
    rcases h : Program.parse 0 tokens with ⟨errors | p', next⟩
    · rw [h] at hp
      cases hp
    · rw [h] at hp
      obtain rfl : p' = p := Option.some.inj hp
      exact ⟨next, rfl⟩
  obtain ⟨next, hparse⟩ := hparse
  refine ⟨tokens, p, next, ?_, hparse, htest⟩
  cases h : scan source with
  | error errors =>
    rw [h] at hscan
    cases hscan
  | ok tokens' =>
    rw [h] at hscan
    exact congrArg Except.ok (Option.some.inj hscan)

/-- An `else` behind two `if`s, a loop with three clauses, and a lambda that is called at once. -/
theorem Program.parse_derives_nested :
    let source := "if (a) if (b) c else for (var i; ; i = 1) o.p = c ? d : e ?: f fun g \x7b " ++
      "return fun (x, y) \x7b x \x7d (-2).q \x7d"
    ∃ tokens p next front line, scan source = .ok tokens ∧
      Program.parse 0 tokens = (.ok p, next) ∧ p.length = 2 ∧
      tokens = front ++ [.endAt line] ∧ Derives .declarations front p := by
  intro source
  obtain ⟨tokens, p, next, hscan, h, hlength⟩ :=
    exists_parse_of_any source (·.length = 2) (by decide +kernel)
  obtain ⟨front, line, htokens, -, hp⟩ := Program.parse_derives hscan h
  exact ⟨tokens, p, next, front, line, hscan, h, of_decide_eq_true hlength, htokens, hp⟩

end Scripting
