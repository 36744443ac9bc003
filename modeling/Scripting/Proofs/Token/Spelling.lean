import Mathlib.Tactic.Common
import Scripting.Token.Scan

/-!
# How words are spelled

A token that is a word has the kind that its lexeme gives it: a reserved word is spelled in one way
only, and no identifier is spelled like a reserved word.
-/

namespace Scripting

/-- The kinds of words: identifiers and reserved words. -/
def TokenKind.isWord (kind : TokenKind) : Bool :=
  kind = .identifier || (keywords.map Prod.snd).contains kind

/-- A reserved word is spelled as the list of reserved words says. -/
lemma TokenKind.mem_keywords_of_ofWord {word : String} {kind : TokenKind}
    (h : TokenKind.ofWord word = kind) (hk : kind ≠ .identifier) : (word, kind) ∈ keywords := by
  unfold ofWord at h
  cases hl : keywords.lookup word with
  | none =>
    rw [hl] at h
    exact absurd h.symm hk
  | some found =>
    rw [hl] at h
    obtain ⟨before, after, he, -⟩ := List.lookup_eq_some_iff.mp hl
    obtain rfl : found = kind := h
    rw [he]
    simp

lemma TokenKind.ofWord_this_ne : TokenKind.ofWord "this" ≠ .identifier := by
  decide

lemma TokenKind.ofWord_super_ne : TokenKind.ofWord "super" ≠ .identifier := by
  decide

/-- A token that is a word has the kind that its lexeme gives it. -/
def Token.Spelled (t : Token) : Prop :=
  t.kind.isWord → TokenKind.ofWord t.lexeme = t.kind

/-- A token that can name something. -/
structure Token.IsName (t : Token) : Prop where
  kind_eq : t.kind = .identifier
  ofWord_eq : TokenKind.ofWord t.lexeme = .identifier

namespace Token

lemma Spelled.isName {t : Token} (h : t.Spelled) (hk : t.kind = .identifier) : t.IsName :=
  ⟨hk, by rw [h (by simp [hk, TokenKind.isWord]), hk]⟩

lemma Spelled.lexeme_this {t : Token} (h : t.Spelled) (hk : t.kind = .kwThis) :
    t.lexeme = "this" := by
  have hw : TokenKind.ofWord t.lexeme = .kwThis := by
    rw [h (by simp [hk, TokenKind.isWord, keywords]), hk]
  simpa [keywords] using TokenKind.mem_keywords_of_ofWord hw (by decide)

lemma Spelled.lexeme_super {t : Token} (h : t.Spelled) (hk : t.kind = .kwSuper) :
    t.lexeme = "super" := by
  have hw : TokenKind.ofWord t.lexeme = .kwSuper := by
    rw [h (by simp [hk, TokenKind.isWord, keywords]), hk]
  simpa [keywords] using TokenKind.mem_keywords_of_ofWord hw (by decide)

lemma IsName.ne_super {t : Token} (h : t.IsName) : t.lexeme ≠ "super" := by
  intro he
  have hw := h.ofWord_eq
  rw [he] at hw
  exact TokenKind.ofWord_super_ne hw

lemma IsName.ne_this {t : Token} (h : t.IsName) : t.lexeme ≠ "this" := by
  intro he
  have hw := h.ofWord_eq
  rw [he] at hw
  exact TokenKind.ofWord_this_ne hw

lemma spelled_endAt (line : Nat) : (endAt line).Spelled := by
  intro h
  simp [endAt, TokenKind.isWord, keywords] at h

end Token

namespace Scan

/-- An item that is a word has the kind that its lexeme gives it. -/
def Item.Spelled : Item → Prop
  | .token kind lexeme _ => kind.isWord → TokenKind.ofWord (String.ofList lexeme) = kind
  | _ => True

/-- A token of another kind than a word is spelled anyhow. -/
lemma spelled_of_not_isWord {kind : TokenKind} (h : kind.isWord = false) (lexeme : List Char)
    (literal : Option Literal) : (Item.token kind lexeme literal).Spelled := by
  intro hw
  rw [h] at hw
  exact absurd hw Bool.false_ne_true

lemma itemAt_spelled (c : Char) (rest : List Char) : (itemAt c rest).1.Spelled := by
  have hOr : ∀ {second long short}, long.isWord = false → short.isWord = false →
      (symbolOr second long short c rest).1.Spelled := by
    intro second long short hl hs
    unfold symbolOr
    split
    · exact spelled_of_not_isWord hs _ _
    · split
      · exact spelled_of_not_isWord hl _ _
      · exact spelled_of_not_isWord hs _ _
  have hQuestion : (question c rest).1.Spelled := by
    unfold question
    split <;> exact spelled_of_not_isWord rfl _ _
  have hSlash : (slash c rest).1.Spelled := by
    unfold slash
    split
    · exact trivial
    · exact spelled_of_not_isWord rfl _ _
  have hQuote : (quote c rest).1.Spelled := by
    unfold quote
    split
    · exact trivial
    · exact spelled_of_not_isWord rfl _ _
  have hNumber : (number c rest).1.Spelled := by
    unfold number
    split
    · split <;> exact spelled_of_not_isWord rfl _ _
    · exact spelled_of_not_isWord rfl _ _
  have hWord : (word c rest).1.Spelled := fun _ => rfl
  unfold itemAt
  split
  case h_12 => exact hQuestion
  case h_13 => exact hOr rfl rfl
  case h_14 => exact hOr rfl rfl
  case h_15 => exact hOr rfl rfl
  case h_16 => exact hOr rfl rfl
  case h_17 => exact hSlash
  case h_18 | h_19 | h_20 | h_21 => exact trivial
  case h_22 => exact hQuote
  case h_23 =>
    split
    · exact hNumber
    · split
      · exact hWord
      · exact trivial
  all_goals exact spelled_of_not_isWord rfl _ _

lemma scanFrom_spelled (line : Nat) (text : List Char) (tokens : Array Token)
    (errors : Array ScanError) (h : ∀ t ∈ tokens, t.Spelled) :
    ∀ t ∈ (scanFrom line text tokens errors).1, t.Spelled := by
  fun_induction scanFrom line text tokens errors with
  | case1 line tokens errors =>
    intro t ht
    rcases Array.mem_push.mp ht with ht | rfl
    · exact h t ht
    · exact Token.spelled_endAt line
  | case2 line tokens errors c rest kind lexeme literal after read line' ih =>
    apply ih
    intro t ht
    rcases Array.mem_push.mp ht with ht | rfl
    · exact h t ht
    · have := itemAt_spelled c rest
      rwa [read] at this
  | case3 line tokens errors c rest skipped after read ih => exact ih h
  | case4 line tokens errors c rest fault skipped after read line' ih => exact ih h

end Scan

/-- Every word of a script is spelled as its kind says. -/
theorem scan_spelled {source : String} {tokens : List Token} (h : scan source = .ok tokens) :
    ∀ t ∈ tokens, t.Spelled := by
  have hall := Scan.scanFrom_spelled 1 source.toList #[] #[] (by simp)
  unfold scan at h
  generalize Scan.scanFrom 1 source.toList #[] #[] = found at h hall
  obtain ⟨ts, errors⟩ := found
  dsimp only at h
  split at h
  · obtain rfl : ts.toList = tokens := by simpa using h
    intro t ht
    exact hall t (by simpa using ht)
  · simp at h

end Scripting
