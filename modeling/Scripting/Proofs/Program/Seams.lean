import Scripting.Proofs.Program.RenamedReading

/-!
# The seam between two texts

Tokens that are closed by a semicolon may be followed by the end of the text, or by more tokens. A
reader carries over from the first of these texts to the second if it reads the same from both. No
reader takes the last semicolon but to end a statement with it, and behind a semicolon only `else`
could make a statement longer.
-/

namespace Scripting

namespace Parser

/-- Tokens of which a semicolon is the last one and none is the end of the text. -/
inductive Closed : List Token → Prop
  | last {t : Token} (h : t.kind = .semicolon) : Closed [t]
  | cons {t : Token} {rest : List Token} (ht : t.kind ≠ .endOfText) (hrest : Closed rest) :
    Closed (t :: rest)

/-- A cursor in a text that ends with `final`, and the one at the same place in the text that goes
on with `more` instead; the tokens up to there are closed by a semicolon. If `plain` holds, then
also any cursor and itself. -/
inductive Inside (plain : Prop) (final : Token) (more : List Token) : Cursor → Cursor → Prop
  | same (hp : plain) (c : Cursor) : Inside plain final more c c
  | before {front : List Token} (hf : Closed front) (nextId : NodeId)
    (noted : Array SyntaxError) :
    Inside plain final more ⟨front ++ [final], nextId, noted⟩ ⟨front ++ more, nextId, noted⟩

/-- Two cursors of `Inside`, or those where the first text has come to its end. -/
inductive Upto (plain : Prop) (final : Token) (more : List Token) : Cursor → Cursor → Prop
  | inside {c c' : Cursor} (h : Inside plain final more c c') : Upto plain final more c c'
  | seam (nextId : NodeId) (noted : Array SyntaxError) :
    Upto plain final more ⟨[final], nextId, noted⟩ ⟨more, nextId, noted⟩

/-- Two cursors of `Inside` at a token of a kind. -/
def InsideAt (plain : Prop) (final : Token) (more : List Token) (kind : TokenKind)
    (c c' : Cursor) : Prop :=
  Inside plain final more c c' ∧ c.peek.kind = kind

variable {α β : Type}

/-- From cursors that `P` relates, `x'` reads whatever `x` reads, and leaves cursors that `Q`
relates; and `x` takes a number of tokens at least. -/
def Carries (P Q : Cursor → Cursor → Prop) (taken : Nat) (x x' : Reader α) : Prop :=
  ∀ c c', P c c' → ∀ a d, x c = .ok a d →
    d.rest.length + taken ≤ c.rest.length ∧ ∃ d', x' c' = .ok a d' ∧ Q d d'

/-- A reader that reads nothing at the end of a text or at an `else`. -/
def Refuses (x : Reader α) : Prop :=
  ∀ c : Cursor, c.peek.kind = .endOfText ∨ c.peek.kind = .kwElse → ∀ a d, x c ≠ .ok a d

section

variable {P Q R : Cursor → Cursor → Prop} {k l : Nat} {x x' : Reader α}
  {next next' : α → Reader β}

lemma carries_pure (a : α) : Carries P P 0 (pure a) (pure a) := by
  rintro c c' hc _ _ ⟨⟩
  exact ⟨Nat.le_refl _, c', rfl, hc⟩

lemma carries_stop (fault : SyntaxFault) : Carries P Q k (stop fault) x' :=
  fun _ _ _ _ _ h => by cases h

lemma Carries.any (h : Carries P Q k x x') : Carries P Q 0 x x' := by
  intro c c' hc a d hd
  obtain ⟨hle, hd'⟩ := h c c' hc a d hd
  exact ⟨Nat.le_trans (Nat.le_add_right _ k) hle, hd'⟩

lemma bind_eq_ok {c : Cursor} {b : β} {d : Cursor} (h : (x >>= next) c = .ok b d) :
    ∃ a m, x c = .ok a m ∧ next a m = .ok b d := by
  simp only [Bind.bind, EStateM.bind] at h
  cases hx : x c with
  | ok a m =>
    rw [hx] at h
    exact ⟨a, m, rfl, h⟩
  | error e m =>
    rw [hx] at h
    cases h

lemma bind_of_ok {c d : Cursor} {a : α} (h : x c = .ok a d) : (x >>= next) c = next a d := by
  simp only [Bind.bind, EStateM.bind, h]

/-- One reader after another takes what both take. -/
lemma Carries.bind_add (hx : Carries P Q k x x')
    (hn : ∀ a, Carries Q R l (next a) (next' a)) :
    Carries P R (k + l) (x >>= next) (x' >>= next') := by
  intro c c' hc b d hd
  obtain ⟨a, m, hm, hd⟩ := bind_eq_ok hd
  obtain ⟨hle, m', hm', hmm⟩ := hx c c' hc a m hm
  obtain ⟨hle', d', hd', hdd⟩ := hn a m m' hmm b d hd
  refine ⟨by omega, d', ?_, hdd⟩
  rw [bind_of_ok hm']
  exact hd'

lemma Carries.bind (hx : Carries P Q k x x') (hn : ∀ a, Carries Q R 0 (next a) (next' a)) :
    Carries P R k (x >>= next) (x' >>= next') :=
  hx.bind_add hn

lemma Carries.before (hx : Carries P Q k x x') (hn : ∀ a, Carries Q R l (next a) (next' a)) :
    Carries P R l (x >>= next) (x' >>= next') := by
  have h := hx.any.bind_add hn
  rwa [Nat.zero_add] at h

lemma Refuses.bind (h : Refuses x) (next : α → Reader β) : Refuses (x >>= next) := by
  intro c hc b d hd
  obtain ⟨a, m, hm, -⟩ := bind_eq_ok hd
  exact h c hc a m hm

lemma refuses_stop (fault : SyntaxFault) : Refuses (stop fault : Reader α) :=
  fun _ _ _ _ h => by cases h

lemma refuses_peekKind {next : TokenKind → Reader β}
    (h : ∀ kind, kind = .endOfText ∨ kind = .kwElse → Refuses (next kind)) :
    Refuses (peekKind >>= next) :=
  fun c hc => h c.peek.kind hc c hc

lemma accept?_of_notMem {kinds : List TokenKind} {c : Cursor} (h : c.peek.kind ∉ kinds) :
    accept? kinds c = .ok none c := by
  show (if kinds.contains c.peek.kind then _ else _ : Reader (Option Token)) c = _
  rw [if_neg (by simpa using h)]
  rfl

lemma refuses_accept? {kinds : List TokenKind} (he : .endOfText ∉ kinds) (hk : .kwElse ∉ kinds)
    {next : Option Token → Reader β} (h : Refuses (next none)) :
    Refuses (accept? kinds >>= next) := by
  intro c hc
  have hn : c.peek.kind ∉ kinds := by
    rcases hc with hc | hc
    · rwa [hc]
    · rwa [hc]
  rw [bind_of_ok (accept?_of_notMem hn)]
  exact h c hc

end

/-! ### Single tokens -/

variable {plain : Prop} {final : Token} {more : List Token} {Q : Cursor → Cursor → Prop} {k : Nat}
  {kind : TokenKind} {c c' : Cursor}

lemma Closed.of_cons {t : Token} {rest : List Token} (h : Closed (t :: rest)) :
    t.kind ≠ .endOfText ∧ (t.kind = .semicolon ∧ rest = [] ∨ Closed rest) := by
  cases h with
  | last h => exact ⟨by simp [h], .inl ⟨h, rfl⟩⟩
  | cons ht hrest => exact ⟨ht, .inr hrest⟩

lemma Closed.exists_cons {front : List Token} (h : Closed front) :
    ∃ t rest, front = t :: rest := by
  cases h with
  | last h => exact ⟨_, _, rfl⟩
  | cons ht hrest => exact ⟨_, _, rfl⟩

namespace Inside

lemma peek_eq (h : Inside plain final more c c') : c'.peek = c.peek := by
  cases h with
  | same hp c => rfl
  | before hf nextId noted =>
    obtain ⟨t, rest, rfl⟩ := hf.exists_cons
    rfl

lemma nextId_eq (h : Inside plain final more c c') : c'.nextId = c.nextId := by
  cases h with
  | same hp c => rfl
  | before hf nextId noted => rfl

/-- Passing a token other than a semicolon. -/
lemma advance (h : Inside plain final more c c') (hs : c.peek.kind ≠ .semicolon) :
    Inside plain final more c.advance c'.advance := by
  cases h with
  | same hp c => exact .same hp _
  | before hf nextId noted =>
    obtain ⟨t, rest, rfl⟩ := hf.exists_cons
    obtain ⟨ht, ⟨hsemicolon, -⟩ | hrest⟩ := hf.of_cons
    · exact absurd hsemicolon hs
    · simp only [Cursor.advance, List.cons_append, if_neg ht]
      exact .before hrest nextId noted

/-- Passing any token. -/
lemma advance_upto (h : Inside plain final more c c') :
    Upto plain final more c.advance c'.advance := by
  cases h with
  | same hp c => exact .inside (.same hp _)
  | before hf nextId noted =>
    obtain ⟨t, rest, rfl⟩ := hf.exists_cons
    obtain ⟨ht, ⟨-, rfl⟩ | hrest⟩ := hf.of_cons
    · simp only [Cursor.advance, List.cons_append, if_neg ht]
      exact .seam nextId noted
    · simp only [Cursor.advance, List.cons_append, if_neg ht]
      exact .inside (.before hrest nextId noted)

end Inside

/-- With the same end, both texts are the same. -/
lemma Upto.eq (h : Upto plain final [final] c c') : c' = c := by
  cases h with
  | seam nextId noted => rfl
  | inside hc =>
    cases hc with
    | same hp c => rfl
    | before hf nextId noted => rfl

lemma Cursor.length_advance (h : c.peek.kind ≠ .endOfText) :
    c.advance.rest.length + 1 ≤ c.rest.length := by
  obtain ⟨rest, nextId, noted⟩ := c
  cases rest with
  | nil => exact absurd rfl h
  | cons t rest =>
    have ht : t.kind ≠ .endOfText := h
    simp only [Cursor.advance, if_neg ht, List.length_cons]
    exact Nat.le_refl _

lemma Carries.at {x x' : Reader α} (h : Carries (Inside plain final more) Q k x x') :
    Carries (InsideAt plain final more kind) Q k x x' :=
  fun c c' hc => h c c' hc.1

lemma carries_peekKind {next next' : TokenKind → Reader β}
    (h : ∀ kind, Carries (InsideAt plain final more kind) Q k (next kind) (next' kind)) :
    Carries (Inside plain final more) Q k (peekKind >>= next) (peekKind >>= next') := by
  intro c c' hc b d hd
  have hn := h c.peek.kind c c' ⟨hc, rfl⟩ b d hd
  rw [← hc.peek_eq] at hn
  exact hn

lemma carries_take (hs : kind ≠ .semicolon) (he : kind ≠ .endOfText) :
    Carries (InsideAt plain final more kind) (Inside plain final more) 1 take take := by
  rintro c c' ⟨hc, rfl⟩ _ _ ⟨⟩
  refine ⟨Cursor.length_advance he, c'.advance, ?_, hc.advance hs⟩
  show EStateM.Result.ok c'.peek c'.advance = _
  rw [hc.peek_eq]

lemma carries_takeSemicolon :
    Carries (InsideAt plain final more .semicolon) (Upto plain final more) 1 take take := by
  rintro c c' ⟨hc, hk⟩ _ _ ⟨⟩
  refine ⟨Cursor.length_advance (by simp [hk]), c'.advance, ?_, hc.advance_upto⟩
  show EStateM.Result.ok c'.peek c'.advance = _
  rw [hc.peek_eq]

lemma carries_accept? {kinds : List TokenKind} (hs : .semicolon ∉ kinds)
    (he : .endOfText ∉ kinds) :
    Carries (Inside plain final more) (Inside plain final more) 0 (accept? kinds)
      (accept? kinds) := by
  refine carries_peekKind fun kind => ?_
  split
  · next hk =>
    have hk : kind ∈ kinds := by simpa using hk
    refine ((carries_take ?_ ?_).bind fun t => carries_pure (some t)).any
    · rintro rfl
      exact hs hk
    · rintro rfl
      exact he hk
  · exact (carries_pure none).at

lemma carries_accept (hs : kind ≠ .semicolon) (he : kind ≠ .endOfText) :
    Carries (Inside plain final more) (Inside plain final more) 0 (accept kind) (accept kind) :=
  (carries_accept? (by simpa using hs.symm) (by simpa using he.symm)).bind fun _ =>
    carries_pure _

lemma carries_expect (hs : kind ≠ .semicolon) (he : kind ≠ .endOfText) (fault : SyntaxFault) :
    Carries (Inside plain final more) (Inside plain final more) 1 (expect kind fault)
      (expect kind fault) := by
  refine carries_peekKind fun found => ?_
  split
  · next hk =>
    subst hk
    exact carries_take hs he
  · exact carries_stop fault

lemma carries_expectSemicolon (fault : SyntaxFault) :
    Carries (Inside plain final more) (Upto plain final more) 1 (expect .semicolon fault)
      (expect .semicolon fault) := by
  refine carries_peekKind fun found => ?_
  split
  · next hk =>
    subst hk
    exact carries_takeSemicolon
  · exact carries_stop fault

lemma Carries.upto_of_inside {x x' : Reader α} {P : Cursor → Cursor → Prop}
    (h : Carries P (Inside plain final more) k x x') :
    Carries P (Upto plain final more) k x x' := by
  intro c c' hc a d hd
  obtain ⟨hle, d', hd', hdd⟩ := h c c' hc a d hd
  exact ⟨hle, d', hd', .inside hdd⟩

lemma carries_endStatement :
    Carries (Inside plain final more) (Upto plain final more) 0 endStatement endStatement := by
  refine Carries.bind (Carries.bind (carries_peekKind fun kind => ?_) fun _ => carries_pure _)
    fun _ => carries_pure ()
  split
  · next hk =>
    obtain rfl : kind = .semicolon := by simpa using hk
    exact (carries_takeSemicolon.bind fun t => carries_pure (some t)).any
  · exact (carries_pure none).upto_of_inside.at

lemma carries_ended (s : Stmt) :
    Carries (Inside plain final more) (Upto plain final more) 0 (ended s) (ended s) :=
  carries_endStatement.bind fun _ => carries_pure s

lemma carries_freshId :
    Carries (Inside plain final more) (Inside plain final more) 0 freshId freshId := by
  rintro c c' hc _ _ ⟨⟩
  refine ⟨Nat.le_refl _, { c' with nextId := c'.nextId + 1 }, ?_, ?_⟩
  · show EStateM.Result.ok c'.nextId _ = _
    rw [hc.nextId_eq]
  · cases hc with
    | same hp c => exact .same hp _
    | before hf nextId noted => exact .before hf _ _

lemma carries_note (fault : SyntaxFault) (token : Token) :
    Carries (Inside plain final more) (Inside plain final more) 0 (note fault token)
      (note fault token) := by
  rintro c c' hc _ _ ⟨⟩
  refine ⟨Nat.le_refl _, _, rfl, ?_⟩
  cases hc with
  | same hp c => exact .same hp _
  | before hf nextId noted => exact .before hf _ _

lemma carries_noteHere (fault : SyntaxFault) :
    Carries (Inside plain final more) (Inside plain final more) 0 (noteHere fault)
      (noteHere fault) := by
  intro c c' hc a d hd
  have hn := carries_note fault c.peek c c' hc a d hd
  rw [← hc.peek_eq] at hn
  exact hn

/-- At a token other than a semicolon, the next one is still in the first text. -/
lemma carries_peekSecondKind (hs : kind ≠ .semicolon) :
    Carries (InsideAt plain final more kind) (InsideAt plain final more kind) 0 peekSecondKind
      peekSecondKind := by
  rintro c c' ⟨hc, hk⟩ _ _ ⟨⟩
  refine ⟨Nat.le_refl _, c', ?_, hc, hk⟩
  cases hc with
  | same hp c => rfl
  | before hf nextId noted =>
    obtain ⟨t, rest, rfl⟩ := hf.exists_cons
    obtain ⟨-, ⟨hsemicolon, -⟩ | hrest⟩ := hf.of_cons
    · exact absurd (hk.symm.trans hsemicolon) hs
    · obtain ⟨u, rest, rfl⟩ := hrest.exists_cons
      rfl

/-- A reader that needs a token finds none at the end of the first text. -/
lemma Carries.upto {x x' : Reader α} (hfinal : final.kind = .endOfText) (hx : Refuses x)
    (h : Carries (Inside plain final more) Q k x x') :
    Carries (Upto plain final more) Q k x x' := by
  intro c c' hc a d hd
  cases hc with
  | inside hc => exact h c c' hc a d hd
  | seam nextId noted => exact absurd hd (hx ⟨[final], nextId, noted⟩ (.inl hfinal) a d)

/-- Behind a statement, an `else` can only come from the first text. -/
lemma carries_else {next next' : Bool → Reader β} (hfinal : final.kind = .endOfText)
    (hmore : (more.headD (.endAt 0)).kind ≠ .kwElse)
    (htrue : Carries (Inside plain final more) (Upto plain final more) 0 (next true) (next' true))
    (hfalse : Carries (Upto plain final more) (Upto plain final more) 0 (next false)
      (next' false)) :
    Carries (Upto plain final more) (Upto plain final more) 0 (accept .kwElse >>= next)
      (accept .kwElse >>= next') := by
  have none_there : ∀ c : Cursor, c.peek.kind ≠ .kwElse → accept .kwElse c = .ok false c := by
    intro c hc
    exact bind_of_ok (accept?_of_notMem (by simpa using hc))
  intro c c' hc b d hd
  cases hc with
  | inside hc =>
    refine Carries.bind (carries_accept (by decide) (by decide)) (fun found => ?_) c c' hc b d hd
    cases found with
    | true => exact htrue
    | false => exact fun c c' hc => hfalse c c' (.inside hc)
  | seam nextId noted =>
    rw [bind_of_ok (none_there ⟨[final], nextId, noted⟩ (by simp [Cursor.peek, hfinal]))] at hd
    rw [bind_of_ok (none_there ⟨more, nextId, noted⟩ hmore)]
    exact hfalse _ _ (.seam nextId noted) b d hd

/-! ### Texts that nothing is read from -/

/-- What some readers refuse at the end of a text or at an `else`. -/
structure Refusing (r : Readers) : Prop where
  expression : Refuses (r .expression)
  ternary : Refuses (r .ternary)
  level : ∀ here, Refuses (r (.level here))
  operand : ∀ here, Refuses (r (.operand here))
  unary : Refuses (r .unary)
  primary : Refuses (r .primary)
  statement : Refuses (r .statement)
  declaration : Refuses (r .declaration)

lemma Refusing.step {r : Readers} (h : Refusing r) : Refusing r.step where
  expression := h.ternary.bind _
  ternary := (h.level _).bind _
  level here := (h.operand here).bind _
  operand here := by
    rw [Readers.step]
    cases here.tighter with
    | none => exact h.unary
    | some next => exact h.level next
  unary := refuses_accept? (by decide) (by decide) (h.primary.bind _)
  primary := by
    refine refuses_peekKind fun kind hk => ?_
    rcases hk with rfl | rfl
    · exact refuses_stop _
    · exact refuses_stop _
  statement := by
    refine refuses_peekKind fun kind hk => ?_
    rcases hk with rfl | rfl
    · exact h.expression.bind _
    · exact h.expression.bind _
  declaration := by
    refine refuses_peekKind fun kind hk => ?_
    rcases hk with rfl | rfl
    · exact h.statement
    · exact h.statement

theorem refusing (bound : Nat) : Refusing (readers bound) := by
  induction bound with
  | zero => constructor <;> intros <;> exact refuses_stop _
  | succ bound h => exact h.step

end Parser

end Scripting
