import Scripting.Proofs.Decimal.Legibility
import Scripting.Proofs.Program.Forms
import Scripting.Proofs.Program.Renaming
import Scripting.Proofs.Token.Lexemes

/-!
# Tokens and words

Apart from its line, a token that is neither a number nor a text can be told from its spelling, and
unless it is a bracket its spelling is a word. So is what is printed for the number of a token, and
for a finite number this word starts with a digit.
-/

namespace Scripting

open Decimal Form Scan

/-- No identities and no lines. -/
def Renaming.blank : Renaming :=
  ⟨fun _ => 0, fun _ => 0⟩

@[simp] lemma Renaming.blank_node (id : NodeId) : blank.node id = 0 := rfl

@[simp] lemma Renaming.blank_line (line : Nat) : blank.line line = 0 := rfl

namespace Token

/-- The token of a spelling, on no line: a symbol, a reserved word or an identifier. -/
def ofText (lexeme : String) : Token :=
  ⟨((symbols ++ keywords).lookup lexeme).getD .identifier, lexeme, none, 0⟩

/-- A token that a lexeme was read as. -/
def Scanned (t : Token) : Prop :=
  Lexeme t.kind t.lexeme.toList t.literal

/-- A token is told by its spelling, which is a word. -/
structure IsPlain (t : Token) : Prop where
  isWord : IsWord t.lexeme
  ofText_eq : ofText t.lexeme = t.rename .blank

end Token

/-! ### Words -/

lemma isWord_of_isWordRest {w : String} (hne : w.toList ≠ [])
    (h : ∀ c ∈ w.toList, isWordRest c) : IsWord w := by
  have table : delimiters.all (fun c => !isWordRest c) = true := by
    decide
  refine ⟨hne, fun c hc hd => ?_⟩
  have hrest := List.all_eq_true.mp table c hd
  rw [h c hc] at hrest
  cases hrest

lemma isWordRest_of_isWordStart {c : Char} (h : isWordStart c) : isWordRest c := by
  rw [isWordRest, h, Bool.true_or]

/-- No word that starts like an identifier is a symbol. -/
lemma notMem_symbols_of_isWordStart {w : String} {c : Char} {rest : List Char}
    (h : w.toList = c :: rest) (hc : isWordStart c) : w ∉ symbols.map Prod.fst := by
  intro hmem
  have hsymbol : c :: rest ∈ symbols.map (·.1.toList) := by
    obtain ⟨p, hp, rfl⟩ := List.mem_map.mp hmem
    exact h ▸ List.mem_map_of_mem (f := (·.1.toList)) hp
  rw [(head_of_mem_symbols hsymbol).1] at hc
  cases hc

namespace Token.Scanned

variable {t : Token}

/-- A token is of the table, or it is an identifier, a number or a text. -/
lemma mem_table (h : t.Scanned) (hk : t.kind ∉ [.identifier, .number, .textLiteral]) :
    (t.lexeme, t.kind) ∈ symbols ++ keywords ∧ t.literal = none := by
  obtain ⟨kind, lexeme, literal, line⟩ := t
  dsimp only [Token.Scanned] at h hk ⊢
  generalize hchars : lexeme.toList = chars at h
  cases h with
  | symbol hs =>
    rw [String.toList_inj] at hchars
    exact ⟨List.mem_append_left _ (hchars ▸ hs), rfl⟩
  | keyword hs =>
    rw [String.toList_inj] at hchars
    exact ⟨List.mem_append_right _ (hchars ▸ hs), rfl⟩
  | _ => exact absurd (by decide) hk

/-- What is spelled like an entry of the table is of its kind. -/
lemma ofText_eq_of_mem (hmem : (t.lexeme, t.kind) ∈ symbols ++ keywords)
    (hliteral : t.literal = none) : ofText t.lexeme = t.rename .blank := by
  have table : ∀ p ∈ symbols ++ keywords, (symbols ++ keywords).lookup p.1 = some p.2 := by
    decide
  rw [ofText, table _ hmem, Token.rename, hliteral]
  rfl

/-- A token of a kind of the table has the spelling of the table. -/
lemma eq_ofText (h : t.Scanned) (lexeme : String) {kind : TokenKind}
    (hmem : (lexeme, kind) ∈ symbols ++ keywords) (hk : t.kind = kind) :
    t.lexeme = lexeme ∧ t.rename .blank = ofText lexeme := by
  subst hk
  have hkind : ∀ p ∈ symbols ++ keywords, p.2 ∉ [.identifier, .number, .textLiteral] := by
    decide
  have table : ∀ p ∈ symbols ++ keywords, ∀ q ∈ symbols ++ keywords, p.2 = q.2 → p.1 = q.1 := by
    decide
  obtain ⟨ht, hliteral⟩ := h.mem_table (hkind _ hmem)
  obtain rfl : t.lexeme = lexeme := table _ ht _ hmem rfl
  exact ⟨rfl, (ofText_eq_of_mem ht hliteral).symm⟩

/-- An identifier starts like one, has nothing in it that is not in identifiers, and is no reserved
word. -/
lemma identifier (h : t.Scanned) (hk : t.kind = .identifier) :
    ∃ c rest, t.lexeme.toList = c :: rest ∧ isWordStart c ∧ (∀ d ∈ rest, isWordRest d) ∧
      t.lexeme ∉ keywords.map Prod.fst ∧ t.literal = none := by
  obtain ⟨kind, lexeme, literal, line⟩ := t
  dsimp only [Token.Scanned] at h hk ⊢
  subst hk
  generalize hchars : lexeme.toList = chars at h
  cases h with
  | symbol hs => simp [symbols] at hs
  | keyword hk => simp [keywords] at hk
  | identifier hc hrest hne =>
    rw [← hchars, String.ofList_toList] at hne
    exact ⟨_, _, rfl, hc, hrest, hne, rfl⟩

lemma isPlain_of_identifier (h : t.Scanned) (hk : t.kind = .identifier) : t.IsPlain := by
  obtain ⟨c, rest, hchars, hc, hrest, hkeyword, hliteral⟩ := h.identifier hk
  refine ⟨isWord_of_isWordRest (by simp [hchars]) ?_, ?_⟩
  · rw [hchars, List.forall_mem_cons]
    exact ⟨isWordRest_of_isWordStart hc, hrest⟩
  · have hlookup : (symbols ++ keywords).lookup t.lexeme = none := by
      rw [List.lookup_eq_none_iff]
      intro p hp
      rw [bne_iff_ne]
      rintro heq
      rcases List.mem_append.mp hp with hp | hp
      · exact notMem_symbols_of_isWordStart hchars hc (heq ▸ List.mem_map_of_mem hp)
      · exact hkeyword (heq ▸ List.mem_map_of_mem hp)
    rw [ofText, hlookup, Token.rename, hliteral, hk]
    rfl

/-! ### Numbers -/

/-- The number of a token is not negative, and it is a number. -/
lemma number (h : t.Scanned) (hk : t.kind = .number) :
    ∃ x, t.literal = some (.number x) ∧ isNegative x = false ∧ codeOfFloat x ≤ infinityCode := by
  have hdigits : ∀ whole fraction, isNegative (ofDigits whole fraction) = false ∧
      codeOfFloat (ofDigits whole fraction) ≤ infinityCode := by
    intro whole fraction
    have hle : nearestCode (digitsValue (whole ++ fraction)) (Nat.pow 10 fraction.length) ≤
        infinityCode := Nat.min_le_left _ _
    obtain ⟨hcode, hsign⟩ := codeOfFloat_floatOfCode hle
    exact ⟨hsign, hcode.trans_le hle⟩
  obtain ⟨kind, lexeme, literal, line⟩ := t
  dsimp only [Token.Scanned] at h hk ⊢
  subst hk
  generalize lexeme.toList = chars at h
  cases h with
  | symbol hs => simp [symbols] at hs
  | keyword hk => simp [keywords] at hk
  | whole _ _ => exact ⟨_, rfl, hdigits _ _⟩
  | decimal _ _ _ _ => exact ⟨_, rfl, hdigits _ _⟩

end Token.Scanned

/-- The digits of an integer and its sign. -/
lemma Decimal.mem_toString {power : Int} {c : Char} (h : c ∈ (toString power).toList) :
    c.isDigit ∨ c = '-' := by
  have hdigits : ∀ n : Nat, ∀ c ∈ n.repr.toList, c.isDigit := fun n c hc => by
    rw [Nat.toList_repr] at hc
    exact isDigit_of_mem_toDigits hc
  rw [Int.toString_eq_repr] at h
  cases power with
  | ofNat n => exact .inl (hdigits n c h)
  | negSucc n =>
    have hchars : (Int.repr (.negSucc n)).toList = '-' :: (n + 1).repr.toList := by
      simp [Int.repr]
    rw [hchars] at h
    rcases List.mem_cons.mp h with rfl | h
    · exact .inr rfl
    · exact .inl (hdigits _ c h)

/-- What a written numeral is made of. -/
lemma Decimal.Numeral.WellFormed.mem_characters {n : Numeral} (h : n.WellFormed) {mark c : Char}
    (hc : c ∈ n.characters mark) : c.isDigit ∨ c ∈ ['.', '-', mark] := by
  simp only [Numeral.characters, List.mem_append] at hc
  rcases hc with (hc | hc) | hc
  · exact .inl (h.whole_digits c hc)
  · rw [Numeral.pointed] at hc
    split_ifs at hc
    · cases hc
    · rcases List.mem_cons.mp hc with rfl | hc
      · exact .inr (by simp)
      · exact .inl (h.fraction_digits c hc)
  · cases hpower : n.power with
    | none =>
      rw [hpower] at hc
      cases hc
    | some power =>
      rw [hpower] at hc
      rcases List.mem_cons.mp hc with rfl | hc
      · exact .inr (by simp)
      · rcases mem_toString hc with hc | rfl
        · exact .inl hc
        · exact .inr (by simp)

/-- What is printed for the number of a token is a word, which starts with a digit if the number is
finite. -/
lemma isWord_displayStyle {x : Float} (hsign : isNegative x = false)
    (hcode : codeOfFloat x ≤ infinityCode) : IsWord (Literal.displayStyle.text x) ∧
      (x.isFinite = true → (Literal.displayStyle.text x).toList.head?.any Char.isDigit) := by
  have hchars : (Literal.displayStyle.text x).toList =
      Literal.displayStyle.body (codeOfFloat x) := by
    rw [toList_text hcode, hsign]
    rfl
  obtain ⟨c, rest, hbody, -, -, hdigit⟩ := displayStyle_legible.head_body hcode
  refine ⟨⟨by simp [hchars, hbody], ?_⟩, fun hfinite => ?_⟩
  · rw [hchars, Style.body]
    split_ifs with hinfinite
    · exact (by decide +kernel : IsWord "Infinity").2
    · obtain ⟨n, hn, -, heq⟩ := exists_numeral Literal.displayStyle
        (Nat.lt_of_le_of_ne hcode hinfinite)
      rw [heq]
      have table : delimiters.all (fun c => !c.isDigit && c ∉ ['.', '-', 'E']) = true := by
        decide
      intro c hc hd
      obtain ⟨hdigit, hnone⟩ : c.isDigit = false ∧ c ∉ ['.', '-', 'E'] := by
        simpa using List.all_eq_true.mp table c hd
      rcases hn.mem_characters hc with hc | hc
      · rw [hdigit] at hc
        cases hc
      · exact hnone hc
  · rw [hchars, hbody]
    exact hdigit.mpr ((isFinite_iff x).mp hfinite)

end Scripting
