import Mathlib.Logic.Function.Iterate
import Scripting.Proofs.Program.Seams

/-!
# Reading makes progress

A text with its end as the last token, and only there, is read in finitely many steps: the bound on
the depth of the recursion is never reached, so that it does not matter what would be done there.
Every part is ranked, and a reader either calls one for a part of a lower rank or has taken a token
before, so the rank and the number of tokens left bound the depth. `Agrees` states this about two
readers from one cursor, together with how far the cursor moves: it goes on from token to token, up
to the end of the text and never back.
-/

namespace Scripting

namespace Parser

variable {α β : Type}

/-- The end of the text is the last one of the tokens, and none before. -/
def EndsOnce (tokens : List Token) : Prop :=
  ∃ lexemes last, tokens = lexemes ++ [last] ∧ last.kind = .endOfText ∧
    ∀ t ∈ lexemes, t.kind ≠ .endOfText

/-- From one cursor to another, the tokens are those that are left after some were passed, a number
of them at least, but not the end of the text; and what was noted stays noted. -/
structure Cursor.Advances (taken : Nat) (c d : Cursor) : Prop where
  suffix : d.rest <:+ c.rest
  ended : EndsOnce d.rest
  length_add_le : d.rest.length + taken ≤ c.rest.length
  noted_prefix : c.noted.toList <+: d.noted.toList

/-- What came out of reading from a cursor: the cursor has advanced, by a number of tokens at least
if something was read. A complaint that stopped reading is about the token under the cursor. -/
def Forward (taken : Nat) (c : Cursor) : EStateM.Result SyntaxError Cursor α → Prop
  | .ok _ d => c.Advances taken d
  | .error e d => c.Advances 0 d ∧ e.token = d.peek

/-! ### Cursors -/

lemma EndsOnce.cons_iff {t : Token} {rest : List Token} :
    EndsOnce (t :: rest) ↔
      t.kind = .endOfText ∧ rest = [] ∨ t.kind ≠ .endOfText ∧ EndsOnce rest := by
  constructor
  · rintro ⟨lexemes, last, h, hlast, hlexemes⟩
    cases lexemes with
    | nil =>
      obtain ⟨rfl, rfl⟩ : t = last ∧ rest = [] := by simpa using h
      exact .inl ⟨hlast, rfl⟩
    | cons t' lexemes =>
      obtain ⟨rfl, rfl⟩ : t = t' ∧ rest = lexemes ++ [last] := by simpa using h
      exact .inr ⟨hlexemes t (by simp), lexemes, last, rfl, hlast,
        fun t ht => hlexemes t (by simp [ht])⟩
  · rintro (⟨ht, rfl⟩ | ⟨ht, lexemes, last, rfl, hlast, hlexemes⟩)
    · exact ⟨[], t, rfl, ht, by simp⟩
    · exact ⟨t :: lexemes, last, rfl, hlast, by simpa using ⟨ht, hlexemes⟩⟩

lemma EndsOnce.not_nil : ¬ EndsOnce [] := by
  rintro ⟨lexemes, last, h, -⟩
  simp at h

lemma EndsOnce.length_pos {tokens : List Token} (h : EndsOnce tokens) : 0 < tokens.length :=
  List.length_pos_iff.mpr fun hnil => EndsOnce.not_nil (hnil ▸ h)

namespace Cursor

variable {c d e : Cursor} {k l : Nat}

lemma Advances.refl (h : EndsOnce c.rest) : c.Advances 0 c :=
  ⟨List.suffix_rfl, h, Nat.le_refl _, List.prefix_rfl⟩

lemma Advances.trans (h : c.Advances k d) (h' : d.Advances l e) : c.Advances (k + l) e := by
  refine ⟨h'.suffix.trans h.suffix, h'.ended, ?_, h.noted_prefix.trans h'.noted_prefix⟩
  have := h.length_add_le
  have := h'.length_add_le
  omega

lemma Advances.mono (h : c.Advances k d) (hl : l ≤ k) : c.Advances l d :=
  ⟨h.suffix, h.ended, Nat.le_trans (Nat.add_le_add_left hl _) h.length_add_le, h.noted_prefix⟩

lemma Advances.any (h : c.Advances k d) : c.Advances 0 d :=
  h.mono (Nat.zero_le k)

/-- Taking the token under the cursor. -/
lemma advances_advance (h : EndsOnce c.rest) (hk : c.peek.kind ≠ .endOfText) :
    c.Advances 1 c.advance := by
  obtain ⟨rest, nextId, noted⟩ := c
  cases rest with
  | nil => exact absurd rfl hk
  | cons t rest =>
    have ht : t.kind ≠ .endOfText := hk
    have hadvance : Cursor.advance ⟨t :: rest, nextId, noted⟩ = ⟨rest, nextId, noted⟩ := by
      simp [Cursor.advance, ht]
    rw [hadvance]
    rcases EndsOnce.cons_iff.mp h with ⟨hend, -⟩ | ⟨-, hrest⟩
    · exact absurd hend ht
    · exact ⟨List.suffix_cons t rest, hrest, Nat.le_refl _, List.prefix_rfl⟩

/-- At the end of the text, there is nothing to pass. -/
lemma rest_eq_of_end (h : EndsOnce c.rest) (hk : c.peek.kind = .endOfText) : c.rest = [c.peek] := by
  obtain ⟨rest, nextId, noted⟩ := c
  cases rest with
  | nil => exact absurd h EndsOnce.not_nil
  | cons t rest =>
    rcases EndsOnce.cons_iff.mp h with ⟨-, hrest⟩ | ⟨ht, -⟩
    · rw [show rest = [] from hrest]
      rfl
    · exact absurd hk ht

end Cursor

/-! ### Two readers from one cursor -/

/-- From a cursor, a reader goes forward. If there is room for a rank within the depth `m`, then the
other one reads the same. -/
def Agrees (m rank taken : Nat) (c : Cursor) (x y : Reader α) : Prop :=
  EndsOnce c.rest → (32 * c.rest.length + rank ≤ m → x c = y c) ∧ Forward taken c (y c)

section

variable {m r k l : Nat} {c : Cursor} {x y : Reader α} {next next' : α → Reader β}

lemma agrees_of_forward (h : EndsOnce c.rest → Forward k c (x c)) : Agrees m r k c x x :=
  fun hc => ⟨fun _ => rfl, h hc⟩

lemma agrees_pure (a : α) : Agrees m r 0 c (pure a) (pure a) :=
  agrees_of_forward fun hc => .refl hc

lemma agrees_stop (fault : SyntaxFault) : Agrees m r k c (stop fault : Reader α) (stop fault) :=
  agrees_of_forward fun hc => ⟨.refl hc, rfl⟩

lemma Agrees.less (h : Agrees m r k c x y) (hl : l ≤ k) : Agrees m r l c x y := by
  intro hc
  obtain ⟨heq, hforward⟩ := h hc
  refine ⟨heq, ?_⟩
  cases hy : y c with
  | ok a d =>
    rw [hy] at hforward
    exact hforward.mono hl
  | error e d =>
    rw [hy] at hforward
    exact hforward

lemma Agrees.any (h : Agrees m r k c x y) : Agrees m r 0 c x y :=
  h.less (Nat.zero_le k)

/-- One reader after another, with as much room as the first one leaves. -/
lemma Agrees.bind_add {r' : Nat} (hr : r' ≤ r + 32 * k) (hx : Agrees m r k c x y)
    (hn : ∀ d a, y c = .ok a d → Agrees m r' l d (next a) (next' a)) :
    Agrees m r (k + l) c (x >>= next) (y >>= next') := by
  intro hc
  obtain ⟨heq, hforward⟩ := hx hc
  cases hy : y c with
  | error e d =>
    rw [hy] at hforward heq
    have hbind : (y >>= next') c = .error e d := by simp only [Bind.bind, EStateM.bind, hy]
    rw [hbind]
    refine ⟨fun hroom => ?_, hforward⟩
    simp only [Bind.bind, EStateM.bind, heq hroom]
  | ok a d =>
    rw [hy] at hforward heq
    have hd : c.Advances k d := hforward
    have hlength := hd.length_add_le
    obtain ⟨heq', hforward'⟩ := hn d a hy hd.ended
    rw [bind_of_ok hy]
    refine ⟨fun hroom => ?_, ?_⟩
    · rw [bind_of_ok (heq hroom)]
      exact heq' (by omega)
    · cases hy' : next' a d with
      | ok b f =>
        rw [hy'] at hforward'
        exact hd.trans hforward'
      | error e f =>
        rw [hy'] at hforward'
        exact ⟨(hd.trans hforward'.1).any, hforward'.2⟩

lemma Agrees.bind (hx : Agrees m r k c x y) (hn : ∀ d a, Agrees m r 0 d (next a) (next' a)) :
    Agrees m r k c (x >>= next) (y >>= next') :=
  hx.bind_add (Nat.le_add_right r _) fun d a _ => hn d a

lemma Agrees.before (hx : Agrees m r k c x y) (hn : ∀ d a, Agrees m r l d (next a) (next' a)) :
    Agrees m r l c (x >>= next) (y >>= next') := by
  have h := hx.any.bind_add (Nat.le_add_right r _) fun d a _ => hn d a
  rwa [Nat.zero_add] at h

/-- Once a token is taken, there is room for every rank. -/
lemma Agrees.taking (hx : Agrees m r 1 c x y)
    (hn : ∀ d a, Agrees m (r + 32) 0 d (next a) (next' a)) :
    Agrees m r 1 c (x >>= next) (y >>= next') :=
  hx.bind_add (Nat.le_refl _) fun d a _ => hn d a

/-! ### Single tokens -/

lemma agrees_peekKind {f f' : TokenKind → Reader α}
    (h : ∀ kind, c.peek.kind = kind → Agrees m r k c (f kind) (f' kind)) :
    Agrees m r k c (peekKind >>= f) (peekKind >>= f') :=
  h c.peek.kind rfl

lemma agrees_peekSecondKind {f f' : Option TokenKind → Reader α}
    (h : ∀ second, Agrees m r k c (f second) (f' second)) :
    Agrees m r k c (peekSecondKind >>= f) (peekSecondKind >>= f') :=
  h (c.rest.tail.head?.map Token.kind)

lemma agrees_take {kind : TokenKind} (hk : c.peek.kind = kind) (h : kind ≠ .endOfText) :
    Agrees m r 1 c take take :=
  agrees_of_forward fun hc => Cursor.advances_advance hc (hk ▸ h)

lemma agrees_note (fault : SyntaxFault) (token : Token) :
    Agrees m r 0 c (note fault token) (note fault token) :=
  agrees_of_forward fun hc => ⟨List.suffix_rfl, hc, Nat.le_refl _, by simp⟩

lemma agrees_noteHere (fault : SyntaxFault) : Agrees m r 0 c (noteHere fault) (noteHere fault) :=
  agrees_of_forward fun hc => ⟨List.suffix_rfl, hc, Nat.le_refl _, by simp⟩

lemma agrees_freshId : Agrees m r 0 c freshId freshId :=
  agrees_of_forward fun hc => ⟨List.suffix_rfl, hc, Nat.le_refl _, List.prefix_rfl⟩

lemma agrees_expect {kind : TokenKind} (h : kind ≠ .endOfText) (fault : SyntaxFault) :
    Agrees m r 1 c (expect kind fault) (expect kind fault) := by
  refine agrees_peekKind fun found hk => ?_
  split
  · next he => exact agrees_take (hk.trans he) h
  · exact agrees_stop fault

lemma accept?_of_mem {kinds : List TokenKind} (h : c.peek.kind ∈ kinds) :
    accept? kinds c = .ok (some c.peek) c.advance := by
  show (if kinds.contains c.peek.kind then _ else _ : Reader (Option Token)) c = _
  rw [if_pos (by simpa using h)]
  rfl

/-- Either a token is taken, or nothing has changed. -/
lemma agrees_accept? {kinds : List TokenKind} (h : .endOfText ∉ kinds) (hk : k ≤ 1)
    {next next' : Option Token → Reader β} (hnone : Agrees m r k c (next none) (next' none))
    (hsome : ∀ d t, Agrees m (r + 32) 0 d (next (some t)) (next' (some t))) :
    Agrees m r k c (accept? kinds >>= next) (accept? kinds >>= next') := by
  by_cases hmem : c.peek.kind ∈ kinds
  · have htake : Agrees m r 1 c (accept? kinds) (accept? kinds) := by
      refine agrees_of_forward fun hc => ?_
      rw [accept?_of_mem hmem]
      exact Cursor.advances_advance hc fun he => h (he ▸ hmem)
    refine Agrees.less (k := 1) ?_ hk
    refine htake.bind_add (l := 0) (Nat.le_refl _) fun d found hfound => ?_
    obtain ⟨rfl, rfl⟩ : some c.peek = found ∧ c.advance = d := by
      simpa [accept?_of_mem hmem] using hfound
    exact hsome _ _
  · intro hc
    rw [bind_of_ok (accept?_of_notMem hmem), bind_of_ok (accept?_of_notMem hmem)]
    exact hnone hc

lemma agrees_accept {kind : TokenKind} (h : kind ≠ .endOfText) (hk : k ≤ 1)
    {next next' : Bool → Reader β} (hfalse : Agrees m r k c (next false) (next' false))
    (htrue : ∀ d, Agrees m (r + 32) 0 d (next true) (next' true)) :
    Agrees m r k c (accept kind >>= next) (accept kind >>= next') := by
  simp only [accept, bind_assoc, pure_bind]
  exact agrees_accept? (by simpa using h.symm) hk hfalse fun d _ => htrue d

lemma agrees_endStatement : Agrees m r 0 c endStatement endStatement :=
  agrees_accept (by decide) (Nat.zero_le 1) (agrees_pure ()) fun _ => agrees_pure ()

lemma agrees_ended (s : Stmt) : Agrees m r 0 c (ended s) (ended s) :=
  agrees_endStatement.bind fun _ _ => agrees_pure s

end

/-! ### The parts of a program -/

/-- The height of a level above the operands that no operator takes apart. -/
def Level.height : Level → Nat
  | .elvis => 6
  | .disjunction => 5
  | .conjunction => 4
  | .equality => 3
  | .comparison => 2
  | .sum => 1
  | .product => 0

lemma Level.height_le (here : Level) : here.height ≤ 6 := by
  cases here <;> decide

lemma Level.height_tighter {here next : Level} (h : here.tighter = some next) :
    next.height + 1 = here.height := by
  cases here <;> cases h <;> rfl

/-- Without taking a token, a reader calls only those for parts of lower ranks. -/
def Part.rank : Part → Nat
  | .unary => 2
  | .operand here => 2 * here.height + 3
  | .level here => 2 * here.height + 4
  | .ternary => 17
  | .expression => 18
  | .arguments _ => 19
  | .statement => 19
  | .declaration => 20
  | .block => 21
  | .functionRest _ => 2
  | .members => 2
  | _ => 1

/-- The number of tokens that are taken at least. -/
def Part.taken : Part → Nat
  | .levelRest _ _ => 0
  | .calls _ => 0
  | .members => 0
  | _ => 1

lemma Part.rank_pos (part : Part) : 0 < part.rank := by
  cases part <;> simp [Part.rank]

lemma Part.rank_lt (part : Part) : part.rank < 32 := by
  cases part with
  | level here =>
    have := here.height_le
    simp only [Part.rank]
    omega
  | operand here =>
    have := here.height_le
    simp only [Part.rank]
    omega
  | _ => simp [Part.rank]

/-- As far as there is room within a depth, some readers read the same as others. -/
def Agreeing (m : Nat) (x y : Readers) : Prop :=
  ∀ part c, Agrees m part.rank part.taken c (x part) (y part)

namespace Agreeing

variable {m r : Nat} {c : Cursor} {x y : Readers} (h : Agreeing m x y)

include h

/-- One step deeper, there is room for the lower ranks. -/
lemma call (part : Part) (hr : part.rank < r) :
    Agrees (m + 1) r part.taken c (x part) (y part) :=
  fun hc => ⟨fun hroom => (h part c hc).1 (by omega), (h part c hc).2⟩

/-- Behind a token, there is room for every rank. -/
lemma later (part : Part) : Agrees (m + 1) (r + 32) 0 c (x part) (y part) :=
  (h.call part (Nat.lt_of_lt_of_le part.rank_lt (Nat.le_add_left 32 r))).any

lemma parameters (count : Nat) :
    Agrees (m + 1) 1 1 c (x.step (.parameters count)) (y.step (.parameters count)) := by
  have hfrom : ∀ d, Agrees (m + 1) 1 1 d (x.parametersFrom count) (y.parametersFrom count) :=
    fun d => (agrees_expect (by decide) _).taking fun d name =>
      agrees_accept (by decide) (by decide) (agrees_pure _) fun d =>
        (h.later _).bind fun _ params => agrees_pure _
  rw [Readers.step, Readers.step]
  split
  · exact (agrees_noteHere _).before fun d _ => hfrom d
  · exact hfrom c

lemma expression : Agrees (m + 1) 18 1 c (x.step .expression) (y.step .expression) := by
  refine (h.call .ternary (by decide)).taking fun d target => ?_
  refine agrees_accept? (by decide) (by decide) (agrees_pure target) fun d equals => ?_
  refine (h.later .expression).bind fun d value => ?_
  cases target with
  | name _ name => exact agrees_freshId.bind fun d id => agrees_pure _
  | get object name => exact agrees_pure _
  | _ => exact (agrees_note _ _).bind fun d _ => agrees_pure _

lemma ternary : Agrees (m + 1) 17 1 c (x.step .ternary) (y.step .ternary) := by
  refine (h.call (.level .elvis) (by decide)).taking fun d condition => ?_
  refine agrees_accept (by decide) (by decide) (agrees_pure _) fun d => ?_
  refine (h.later .expression).bind fun d first => ?_
  refine (agrees_expect (by decide) _).any.bind fun d _ => ?_
  exact (h.later .ternary).bind fun d second => agrees_pure _

lemma level (here : Level) :
    Agrees (m + 1) (2 * here.height + 4) 1 c (x.step (.level here)) (y.step (.level here)) :=
  (h.call (.operand here) (Nat.lt_succ_self _)).taking fun _ _ => h.later _

lemma operand (here : Level) :
    Agrees (m + 1) (2 * here.height + 3) 1 c (x.step (.operand here)) (y.step (.operand here)) := by
  rw [Readers.step, Readers.step]
  cases hn : here.tighter with
  | none => exact h.call .unary (by simp [Part.rank])
  | some next =>
    have hheight := Level.height_tighter hn
    exact h.call (.level next) (by simp only [Part.rank]; omega)

lemma levelRest (here : Level) (left : Expr) :
    Agrees (m + 1) 1 0 c (x.step (.levelRest here left)) (y.step (.levelRest here left)) := by
  have hoperators : .endOfText ∉ here.operators := by
    cases here <;> decide
  refine agrees_accept? hoperators (Nat.zero_le 1) (agrees_pure _) fun d operator => ?_
  exact (h.later _).bind fun d right => h.later _

lemma unary : Agrees (m + 1) 2 1 c (x.step .unary) (y.step .unary) := by
  refine agrees_accept? (by decide) (by decide) ?_ fun d operator => ?_
  · exact (h.call .primary (by decide)).taking fun d head => h.later _
  · exact (h.later .unary).bind fun d operand => agrees_pure _

lemma calls (head : Expr) :
    Agrees (m + 1) 1 0 c (x.step (.calls head)) (y.step (.calls head)) := by
  refine agrees_accept? (by decide) (Nat.zero_le 1) (agrees_pure _) fun d token => ?_
  have hrest : ∀ d es, Agrees (m + 1) (1 + 32) 0 d (x.callRest head es) (y.callRest head es) :=
    fun d es => (agrees_expect (by decide) _).any.bind fun d paren => h.later _
  dsimp only
  split
  · refine agrees_peekKind fun kind hk => ?_
    split
    · exact hrest d []
    · exact (h.later (.arguments 0)).bind hrest
  · exact (agrees_expect (by decide) _).any.bind fun d name => h.later _
  · exact (agrees_expect (by decide) _).any.bind fun d name => h.later _

lemma arguments (count : Nat) :
    Agrees (m + 1) 19 1 c (x.step (.arguments count)) (y.step (.arguments count)) := by
  have hfrom : ∀ d, Agrees (m + 1) 19 1 d (x.argumentsFrom count) (y.argumentsFrom count) :=
    fun d => (h.call .expression (by decide)).taking fun d argument =>
      agrees_accept (by decide) (by decide) (agrees_pure _) fun d =>
        (h.later _).bind fun _ es => agrees_pure _
  rw [Readers.step, Readers.step]
  split
  · exact (agrees_noteHere _).before fun d _ => hfrom d
  · exact hfrom c

lemma primary : Agrees (m + 1) 1 1 c (x.step .primary) (y.step .primary) := by
  refine agrees_peekKind fun kind hk => ?_
  split
  · exact (agrees_take hk (by decide)).bind fun d _ => agrees_pure _
  · exact (agrees_take hk (by decide)).bind fun d _ => agrees_pure _
  · exact (agrees_take hk (by decide)).bind fun d _ => agrees_pure _
  · exact (agrees_take hk (by decide)).bind fun d _ => agrees_pure _
  · exact (agrees_take hk (by decide)).bind fun d _ => agrees_pure _
  · exact (agrees_take hk (by decide)).bind fun d keyword =>
      agrees_freshId.bind fun d id => agrees_pure _
  · -- `super`
    refine (agrees_take hk (by decide)).bind fun d keyword => ?_
    refine (agrees_expect (by decide) _).any.bind fun d _ => ?_
    refine (agrees_expect (by decide) _).any.bind fun d method => ?_
    exact agrees_freshId.bind fun d id => agrees_pure _
  · exact (agrees_take hk (by decide)).bind fun d name =>
      agrees_freshId.bind fun d id => agrees_pure _
  · -- a lambda
    refine (agrees_take hk (by decide)).taking fun d keyword => ?_
    refine (agrees_expect (by decide) _).any.bind fun d _ => ?_
    exact (h.later (.functionRest .lambda)).bind fun d f => agrees_pure _
  · -- a group
    refine (agrees_take hk (by decide)).taking fun d _ => ?_
    refine (h.later .expression).bind fun d inner => ?_
    exact (agrees_expect (by decide) _).any.bind fun d _ => agrees_pure _
  · exact agrees_stop _

lemma functionRest (kind : DeclKind) :
    Agrees (m + 1) 2 1 c (x.step (.functionRest kind)) (y.step (.functionRest kind)) := by
  have hbody : ∀ d params,
      Agrees (m + 1) 2 1 d (x.functionBody kind params) (y.functionBody kind params) := by
    intro d params
    refine (agrees_expect (by decide) _).taking fun d _ => ?_
    refine (agrees_expect (by decide) _).any.bind fun d _ => ?_
    exact (h.later .block).bind fun d body => agrees_pure _
  refine agrees_peekKind fun found hk => ?_
  split
  · exact hbody c []
  · exact (h.call (.parameters 0) (by decide)).before hbody

lemma block : Agrees (m + 1) 21 1 c (x.step .block) (y.step .block) := by
  refine agrees_peekKind fun kind hk => ?_
  split
  · exact (agrees_take hk (by decide)).bind fun d _ => agrees_pure _
  · exact agrees_stop _
  · refine (h.call .declaration (by decide)).taking fun d first => ?_
    exact (h.later .block).bind fun d rest => agrees_pure _

lemma member (kind : DeclKind) :
    Agrees (m + 1) 1 1 c (x.step (.member kind)) (y.step (.member kind)) := by
  refine (agrees_expect (by decide) _).taking fun d name => ?_
  refine agrees_accept (by decide) (by decide) ?_ fun d => ?_
  · refine (agrees_expect (by decide) _).any.bind fun d _ => ?_
    exact (h.later (.functionRest kind)).bind fun d f => agrees_pure _
  · exact (h.later .block).bind fun d body => agrees_pure _

lemma members : Agrees (m + 1) 2 0 c (x.step .members) (y.step .members) := by
  refine agrees_peekKind fun kind hk => ?_
  split
  · exact agrees_pure _
  · exact agrees_pure _
  · refine ((h.call (.member .method) (by decide)).taking fun d first => ?_).any
    refine (h.later .members).bind fun d rest => ?_
    cases first with
    | function f => exact agrees_pure _
    | getter g => exact agrees_pure _

lemma classBody (name : Token) (superclass : Option Expr) :
    Agrees (m + 1) (r + 32) 0 c (x.classBody name superclass) (y.classBody name superclass) := by
  refine (agrees_expect (by decide) _).any.bind fun d _ => ?_
  refine (h.later .members).bind fun d members => ?_
  exact (agrees_expect (by decide) _).any.bind fun d _ => agrees_pure _

lemma classDecl : Agrees (m + 1) 1 1 c (x.step .classDecl) (y.step .classDecl) := by
  refine (agrees_expect (by decide) _).taking fun d name => ?_
  refine agrees_accept (by decide) (by decide) (h.classBody name none) fun d => ?_
  refine (agrees_expect (by decide) _).any.bind fun d superName => ?_
  exact agrees_freshId.bind fun d id => h.classBody name _

lemma varDecl : Agrees (m + 1) 1 1 c (x.step .varDecl) (y.step .varDecl) := by
  refine (agrees_expect (by decide) _).taking fun d name => ?_
  refine agrees_accept (by decide) (by decide) (agrees_pure _) fun d => ?_
  exact (h.later .expression).bind fun d value => agrees_pure _

lemma declaration :
    Agrees (m + 1) 20 1 c (x.step .declaration) (y.step .declaration) := by
  refine agrees_peekKind fun kind hk => ?_
  split
  · exact (agrees_take hk (by decide)).taking fun d _ => h.later .classDecl
  · refine (agrees_take hk (by decide)).taking fun d _ => ?_
    exact (h.later .varDecl).bind fun d result => agrees_ended result
  · refine agrees_peekSecondKind fun second => ?_
    split
    · refine (agrees_take hk (by decide)).taking fun d _ => ?_
      refine (h.later (.member .function)).bind fun d member => ?_
      cases member with
      | function declaration => exact agrees_pure _
      | getter declaration => exact agrees_pure _
    · exact h.call .statement (by decide)
  · exact h.call .statement (by decide)

lemma statement : Agrees (m + 1) 19 1 c (x.step .statement) (y.step .statement) := by
  refine agrees_peekKind fun kind hk => ?_
  split
  · -- `if`
    refine (agrees_take hk (by decide)).taking fun d _ => ?_
    refine (agrees_expect (by decide) _).any.bind fun d _ => ?_
    refine (h.later .expression).bind fun d condition => ?_
    refine (agrees_expect (by decide) _).any.bind fun d _ => ?_
    refine (h.later .statement).bind fun d consequent => ?_
    refine agrees_accept (by decide) (by decide) (agrees_pure _) fun d => ?_
    exact (h.later .statement).bind fun d alternative => agrees_pure _
  · -- `while`
    refine (agrees_take hk (by decide)).taking fun d _ => ?_
    refine (agrees_expect (by decide) _).any.bind fun d _ => ?_
    refine (h.later .expression).bind fun d condition => ?_
    refine (agrees_expect (by decide) _).any.bind fun d _ => ?_
    exact (h.later .statement).bind fun d body => agrees_pure _
  · -- `return`
    refine (agrees_take hk (by decide)).taking fun d keyword => ?_
    refine agrees_peekKind fun next hnext => ?_
    split
    · exact agrees_ended _
    · exact agrees_ended _
    · exact agrees_ended _
    · exact ((h.later .expression).bind fun d value => agrees_pure (some value)).bind fun d value =>
        agrees_ended _
  · exact (agrees_take hk (by decide)).taking fun d _ => h.later .forStmt
  · refine (agrees_take hk (by decide)).taking fun d keyword => ?_
    exact (h.later .expression).bind fun d value => agrees_ended _
  · exact (agrees_take hk (by decide)).bind fun d keyword => agrees_ended _
  · refine (agrees_take hk (by decide)).taking fun d _ => ?_
    exact (h.later .block).bind fun d body => agrees_pure _
  · exact (h.call .expression (by decide)).bind fun d value => agrees_ended _

lemma forBody (initializer : Option Stmt) (condition : Expr) (increment : Option Expr) :
    Agrees (m + 1) (r + 32) 0 c (x.forBody initializer condition increment)
      (y.forBody initializer condition increment) := by
  refine (agrees_expect (by decide) _).any.bind fun d _ => ?_
  exact (h.later .statement).bind fun d body => agrees_pure _

lemma forIncrement (initializer : Option Stmt) (condition : Expr) :
    Agrees (m + 1) (r + 32) 0 c (x.forIncrement initializer condition)
      (y.forIncrement initializer condition) := by
  refine (agrees_expect (by decide) _).any.bind fun d _ => ?_
  refine agrees_peekKind fun kind hk => ?_
  split
  · exact h.forBody initializer condition none
  · exact ((h.later .expression).bind fun d step => agrees_pure (some step)).bind fun d step =>
      h.forBody initializer condition step

lemma forCondition (initializer : Option Stmt) :
    Agrees (m + 1) (r + 32) 0 c (x.forCondition initializer) (y.forCondition initializer) := by
  refine agrees_peekKind fun kind hk => ?_
  split
  · exact h.forIncrement initializer _
  · exact (h.later .expression).bind fun d condition => h.forIncrement initializer condition

lemma forStmt : Agrees (m + 1) 1 1 c (x.step .forStmt) (y.step .forStmt) := by
  refine (agrees_expect (by decide) _).taking fun d _ => ?_
  refine agrees_peekKind fun kind hk => ?_
  split
  · exact (agrees_take hk (by decide)).any.bind fun d _ => h.forCondition none
  · refine (agrees_take hk (by decide)).any.bind fun d _ => ?_
    refine (h.later .varDecl).bind fun d first => ?_
    exact (agrees_expect (by decide) _).any.bind fun d _ => h.forCondition (some first)
  · refine (h.later .expression).bind fun d first => ?_
    exact (agrees_expect (by decide) _).any.bind fun d _ =>
      h.forCondition (some (.expression first))

/-- If some readers agree within a depth, then they do one step deeper. -/
theorem step : Agreeing (m + 1) x.step y.step := by
  intro part c
  cases part with
  | parameters count => exact h.parameters count
  | expression => exact h.expression
  | ternary => exact h.ternary
  | level here => exact h.level here
  | operand here => exact h.operand here
  | levelRest here left => exact h.levelRest here left
  | unary => exact h.unary
  | calls head => exact h.calls head
  | arguments count => exact h.arguments count
  | primary => exact h.primary
  | functionRest kind => exact h.functionRest kind
  | block => exact h.block
  | member kind => exact h.member kind
  | members => exact h.members
  | classDecl => exact h.classDecl
  | varDecl => exact h.varDecl
  | declaration => exact h.declaration
  | statement => exact h.statement
  | forStmt => exact h.forStmt

end Agreeing

/-- The readers within a bound agree with as many steps and whatever comes then. -/
theorem agreeing (bound : Nat) (x : Readers) :
    Agreeing bound (Readers.step^[bound] x) (readers bound) := by
  induction bound with
  | zero =>
    intro part c hc
    have hrank := part.rank_pos
    obtain ⟨fault, hstop⟩ : ∃ fault, readers 0 part = stop fault := by
      cases part <;> exact ⟨_, rfl⟩
    rw [hstop]
    exact ⟨fun hroom => by omega, (agrees_stop (m := 0) (r := 0) fault hc).2⟩
  | succ bound ih =>
    rw [Function.iterate_succ_apply']
    exact ih.step

end Parser

end Scripting
