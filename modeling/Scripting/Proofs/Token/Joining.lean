import Mathlib.Tactic.Common
import Scripting.Proofs.Program.Renaming
import Scripting.Proofs.Token.Spelling
import Scripting.Token.Scan

/-!
# Scanning texts one after the other

`Scans` describes a scan without faults: the items of a text one after the other, with the lines on
which they end. A line break between two texts keeps their items apart, so that the tokens of the
joined text are those of the first text without its end, and those of the second one on later lines.
-/

namespace Scripting

namespace Scan

/-- The characters of an item. -/
def Item.chars : Item → List Char
  | .token _ lexeme _ => lexeme
  | .gap skipped => skipped
  | .fault _ skipped => skipped

/-- The tokens of a text that starts on a line and has no faults. -/
inductive Scans : Nat → List Char → List Token → Prop
  | done (line : Nat) : Scans line [] [.endAt line]
  | token {line : Nat} {c : Char} {rest lexeme after : List Char} {kind : TokenKind}
      {literal : Option Literal} {tokens : List Token} :
    itemAt c rest = (.token kind lexeme literal, after) →
      Scans (line + lineBreaks lexeme) after tokens →
        Scans line (c :: rest)
          (⟨kind, String.ofList lexeme, literal, line + lineBreaks lexeme⟩ :: tokens)
  | gap {line : Nat} {c : Char} {rest skipped after : List Char} {tokens : List Token} :
    itemAt c rest = (.gap skipped, after) → Scans (line + lineBreaks skipped) after tokens →
      Scans line (c :: rest) tokens

/-! ### Items -/

/-- An item is a token that stands for the end of the text. -/
def Item.IsEnd : Item → Prop
  | .token kind _ _ => kind = .endOfText
  | _ => False

/-- No item stands for the end of the text. -/
lemma not_isEnd_itemAt (c : Char) (rest : List Char) : ¬ (itemAt c rest).1.IsEnd := by
  have hOr : ∀ {second long short}, long ≠ .endOfText → short ≠ .endOfText →
      ¬ (symbolOr second long short c rest).1.IsEnd := by
    intro second long short hl hs
    unfold symbolOr
    split
    · exact hs
    · split
      · exact hl
      · exact hs
  have hQuestion : ¬ (question c rest).1.IsEnd := by
    unfold question
    split <;> simp [Item.IsEnd]
  have hSlash : ¬ (slash c rest).1.IsEnd := by
    unfold slash
    split <;> simp [Item.IsEnd]
  have hQuote : ¬ (quote c rest).1.IsEnd := by
    unfold quote
    split <;> simp [Item.IsEnd]
  have hNumber : ¬ (number c rest).1.IsEnd := by
    unfold number
    split
    · split <;> simp [Item.IsEnd]
    · simp [Item.IsEnd]
  have hWord : ¬ (word c rest).1.IsEnd := by
    intro hw
    have hmem := TokenKind.mem_keywords_of_ofWord hw (by decide)
    simp [keywords] at hmem
  unfold itemAt
  split
  case h_12 => exact hQuestion
  case h_13 | h_14 | h_15 | h_16 => exact hOr (by decide) (by decide)
  case h_17 => exact hSlash
  case h_22 => exact hQuote
  case h_23 =>
    split
    · exact hNumber
    · split
      · exact hWord
      · simp [Item.IsEnd]
  all_goals simp [symbol, Item.IsEnd]

/-- An item and what is left make up the text. -/
lemma chars_itemAt (c : Char) (rest : List Char) :
    (itemAt c rest).1.chars ++ (itemAt c rest).2 = c :: rest := by
  have hOr : ∀ second long short,
      (symbolOr second long short c rest).1.chars ++ (symbolOr second long short c rest).2 =
        c :: rest := by
    intro second long short
    unfold symbolOr
    split
    · rfl
    · split <;> rfl
  have hQuestion : (question c rest).1.chars ++ (question c rest).2 = c :: rest := by
    unfold question
    split <;> rfl
  have hSlash : (slash c rest).1.chars ++ (slash c rest).2 = c :: rest := by
    unfold slash
    split
    · simp [Item.chars]
    · rfl
  have hQuote : (quote c rest).1.chars ++ (quote c rest).2 = c :: rest := by
    have hsplit := List.takeWhile_append_dropWhile (p := (· ≠ '"')) (l := rest)
    unfold quote
    split
    · next hd =>
      rw [hd, List.append_nil] at hsplit
      simp only [Item.chars, hsplit, List.append_nil]
    · next close after hd =>
      rw [hd] at hsplit
      simpa [Item.chars] using hsplit
  have hNumber : (number c rest).1.chars ++ (number c rest).2 = c :: rest := by
    have hsplit := List.takeWhile_append_dropWhile (p := Char.isDigit) (l := rest)
    unfold number
    split
    · next d after hd =>
      rw [hd] at hsplit
      split
      · simpa [Item.chars] using hsplit
      · simpa [Item.chars] using hsplit
    · simp [Item.chars]
  have hWord : (word c rest).1.chars ++ (word c rest).2 = c :: rest := by
    simp [word, Item.chars]
  unfold itemAt
  split <;> first
    | rfl
    | exact hOr _ _ _
    | assumption
    | skip
  split
  · exact hNumber
  · split
    · exact hWord
    · rfl

lemma lineBreaks_append (text text' : List Char) :
    lineBreaks (text ++ text') = lineBreaks text + lineBreaks text' :=
  List.count_append

/-- The lines that end in a text end in its first item or behind it. -/
lemma lineBreaks_cons {c : Char} {rest after : List Char} {item : Item}
    (h : itemAt c rest = (item, after)) :
    lineBreaks (c :: rest) = lineBreaks item.chars + lineBreaks after := by
  have hchars := chars_itemAt c rest
  rw [h] at hchars
  rw [← hchars, lineBreaks_append]

section

variable (c : Char) (rest more : List Char)

lemma takeWhile_append_of_head {p : Char → Bool} {d : Char} (hd : p d = false) :
    (rest ++ d :: more).takeWhile p = rest.takeWhile p := by
  induction rest with
  | nil => simp [hd]
  | cons x rest ih => by_cases hx : p x <;> simp [hx, ih]

lemma dropWhile_append_of_head {p : Char → Bool} {d : Char} (hd : p d = false) :
    (rest ++ d :: more).dropWhile p = rest.dropWhile p ++ d :: more := by
  induction rest with
  | nil => simp [hd]
  | cons x rest ih => by_cases hx : p x <;> simp [hx, ih]

lemma symbolOr_append {second : Char} (hs : second ≠ '\n') (long short : TokenKind) :
    symbolOr second long short c (rest ++ '\n' :: more) =
      ((symbolOr second long short c rest).1,
        (symbolOr second long short c rest).2 ++ '\n' :: more) := by
  cases rest with
  | nil => simp [symbolOr, hs.symm]
  | cons d rest =>
    simp only [symbolOr, List.cons_append]
    split <;> rfl

lemma question_append : question c (rest ++ '\n' :: more) =
    ((question c rest).1, (question c rest).2 ++ '\n' :: more) := by
  cases rest with
  | nil => rfl
  | cons d rest =>
    by_cases hcolon : d = ':'
    · subst hcolon
      rfl
    · by_cases hdot : d = '.'
      · subst hdot
        rfl
      · simp [question, hcolon, hdot]

lemma slash_append : slash c (rest ++ '\n' :: more) =
    ((slash c rest).1, (slash c rest).2 ++ '\n' :: more) := by
  cases rest with
  | nil => rfl
  | cons d rest =>
    by_cases hslash : d = '/'
    · subst hslash
      have ht := takeWhile_append_of_head rest more (p := (· ≠ '\n')) (d := '\n') (by decide)
      have hd := dropWhile_append_of_head rest more (p := (· ≠ '\n')) (d := '\n') (by decide)
      simp only [List.cons_append, slash, ht, hd]
    · simp [slash, hslash]

/-- A text that is closed stays what it is. -/
lemma quote_append (hq : ∀ skipped, (quote c rest).1 ≠ .fault .unterminatedText skipped) :
    quote c (rest ++ '\n' :: more) =
      ((quote c rest).1, (quote c rest).2 ++ '\n' :: more) := by
  -- the closing quote is in the first part, so that nothing behind it matters
  have closed : ∀ text : List Char, text.dropWhile (· ≠ '"') ≠ [] →
      (text ++ '\n' :: more).takeWhile (· ≠ '"') = text.takeWhile (· ≠ '"') ∧
        (text ++ '\n' :: more).dropWhile (· ≠ '"') =
          text.dropWhile (· ≠ '"') ++ '\n' :: more := by
    intro text
    induction text with
    | nil => exact fun h => absurd rfl h
    | cons x text ih =>
      intro h
      by_cases hx : x = '"'
      · simp [hx]
      · have := ih (by simpa [hx] using h)
        simpa [hx] using this
  cases hd : rest.dropWhile (· ≠ '"') with
  | nil =>
    refine absurd ?_ (hq (c :: rest.takeWhile (· ≠ '"')))
    simp only [quote, hd]
  | cons close after =>
    obtain ⟨ht, hd'⟩ := closed rest (by rw [hd]; exact List.cons_ne_nil _ _)
    simp only [quote, ht, hd', hd, List.cons_append]

lemma number_append : number c (rest ++ '\n' :: more) =
    ((number c rest).1, (number c rest).2 ++ '\n' :: more) := by
  have ht : ∀ text : List Char,
      (text ++ '\n' :: more).takeWhile Char.isDigit = text.takeWhile Char.isDigit :=
    fun text => takeWhile_append_of_head text more (by decide)
  have hd : ∀ text : List Char,
      (text ++ '\n' :: more).dropWhile Char.isDigit =
        text.dropWhile Char.isDigit ++ '\n' :: more :=
    fun text => dropWhile_append_of_head text more (by decide)
  unfold number
  rw [hd, ht]
  generalize rest.dropWhile Char.isDigit = after
  cases after with
  | nil => rfl
  | cons x after =>
    by_cases hx : x = '.'
    · subst hx
      cases after with
      | nil => rfl
      | cons d after =>
        simp only [List.cons_append]
        by_cases hdigit : d.isDigit
        · simp only [hdigit, if_true, ht, hd]
        · simp only [hdigit, Bool.false_eq_true, if_false, List.cons_append]
    · simp [hx]

lemma word_append : word c (rest ++ '\n' :: more) =
    ((word c rest).1, (word c rest).2 ++ '\n' :: more) := by
  have ht := takeWhile_append_of_head rest more (p := isWordRest) (d := '\n') (by decide)
  have hd := dropWhile_append_of_head rest more (p := isWordRest) (d := '\n') (by decide)
  simp only [word, ht, hd]

/-- An item of a text is an item of the text with another one on the lines behind it, unless it is a
text that is never closed. -/
lemma itemAt_append (h : ∀ skipped, (itemAt c rest).1 ≠ .fault .unterminatedText skipped) :
    itemAt c (rest ++ '\n' :: more) =
      ((itemAt c rest).1, (itemAt c rest).2 ++ '\n' :: more) := by
  unfold itemAt at h ⊢
  split at h
  case h_12 => exact question_append _ rest more
  case h_13 => exact symbolOr_append _ rest more (by decide) _ _
  case h_14 => exact symbolOr_append _ rest more (by decide) _ _
  case h_15 => exact symbolOr_append _ rest more (by decide) _ _
  case h_16 => exact symbolOr_append _ rest more (by decide) _ _
  case h_17 => exact slash_append _ rest more
  case h_22 => exact quote_append _ rest more h
  case h_23 =>
    split
    · exact number_append c rest more
    · split
      · exact word_append c rest more
      · rfl
  all_goals rfl

lemma itemAt_append_of_eq {c : Char} {rest after : List Char} {item : Item}
    (h : itemAt c rest = (item, after)) (hi : ∀ skipped, item ≠ .fault .unterminatedText skipped) :
    itemAt c (rest ++ '\n' :: more) = (item, after ++ '\n' :: more) := by
  rw [itemAt_append c rest more (by rw [h]; exact hi), h]

end

/-! ### Scans -/

section

variable {line : Nat} {c : Char} {rest after : List Char} {before : Array Token}
  {errors : Array ScanError}

lemma scanFrom_token {kind : TokenKind} {lexeme : List Char} {literal : Option Literal}
    (h : itemAt c rest = (.token kind lexeme literal, after)) :
    scanFrom line (c :: rest) before errors =
      scanFrom (line + lineBreaks lexeme) after
        (before.push ⟨kind, String.ofList lexeme, literal, line + lineBreaks lexeme⟩) errors := by
  rw [scanFrom]
  split
  · next he =>
    cases h.symm.trans he
    rfl
  · next he => cases h.symm.trans he
  · next he => cases h.symm.trans he

lemma scanFrom_gap {skipped : List Char} (h : itemAt c rest = (.gap skipped, after)) :
    scanFrom line (c :: rest) before errors =
      scanFrom (line + lineBreaks skipped) after before errors := by
  rw [scanFrom]
  split
  · next he => cases h.symm.trans he
  · next he =>
    cases h.symm.trans he
    rfl
  · next he => cases h.symm.trans he

lemma scanFrom_fault {fault : ScanFault} {skipped : List Char}
    (h : itemAt c rest = (.fault fault skipped, after)) :
    scanFrom line (c :: rest) before errors =
      scanFrom (line + lineBreaks skipped) after before
        (errors.push ⟨fault, line + lineBreaks skipped⟩) := by
  rw [scanFrom]
  split
  · next he => cases h.symm.trans he
  · next he => cases h.symm.trans he
  · next he =>
    cases h.symm.trans he
    rfl

end

namespace Scans

variable {line : Nat} {text text' : List Char} {tokens tokens' : List Token}

/-- The tokens that a scan adds to those before. -/
lemma scanFrom_eq (h : Scans line text tokens) (before : Array Token)
    (errors : Array ScanError) :
    scanFrom line text before errors = (before ++ tokens.toArray, errors) := by
  induction h generalizing before with
  | done line =>
    rw [scanFrom]
    rfl
  | token hitem _ ih =>
    rw [scanFrom_token hitem, ih]
    simp
  | gap hitem _ ih =>
    rw [scanFrom_gap hitem]
    exact ih before

/-- The last token is the end of the text, which stands on the last line. -/
lemma exists_eq_append (h : Scans line text tokens) :
    ∃ front, tokens = front ++ [Token.endAt (line + lineBreaks text)] := by
  induction h with
  | done line => exact ⟨[], rfl⟩
  | token hitem _ ih =>
    obtain ⟨front, rfl⟩ := ih
    rw [lineBreaks_cons hitem, ← Nat.add_assoc]
    exact ⟨_ :: front, rfl⟩
  | gap hitem _ ih =>
    obtain ⟨front, rfl⟩ := ih
    rw [lineBreaks_cons hitem, ← Nat.add_assoc]
    exact ⟨front, rfl⟩

/-- Only the last token is the end of the text. -/
lemma kind_ne_of_mem_dropLast (h : Scans line text tokens) :
    ∀ t ∈ tokens.dropLast, t.kind ≠ .endOfText := by
  induction h with
  | done line => exact List.forall_mem_nil _
  | @token _ c rest _ _ _ _ tokens hitem hrest ih =>
    obtain ⟨front, rfl⟩ := hrest.exists_eq_append
    have hfirst := not_isEnd_itemAt c rest
    rw [hitem] at hfirst
    rw [← List.cons_append, List.dropLast_concat, List.forall_mem_cons]
    rw [List.dropLast_concat] at ih
    exact ⟨hfirst, ih⟩
  | gap _ _ ih => exact ih

/-- On later lines, the same is found. -/
lemma shift (h : Scans line text tokens) (count : Nat) :
    Scans (line + count) text (tokens.map (Token.rename ⟨id, (· + count)⟩)) := by
  induction h with
  | done line => exact .done (line + count)
  | token hitem _ ih =>
    rw [Nat.add_right_comm] at ih
    have h := Scans.token hitem ih
    rwa [Nat.add_right_comm] at h
  | gap hitem _ ih =>
    rw [Nat.add_right_comm] at ih
    exact .gap hitem ih

/-- Between two texts stands a line break. -/
lemma append (h : Scans line text tokens)
    (h' : Scans (line + (lineBreaks text + 1)) text' tokens') :
    Scans line (text ++ '\n' :: text') (tokens.dropLast ++ tokens') := by
  induction h with
  | done line =>
    have hbreak : itemAt '\n' text' = (.gap ['\n'], text') := rfl
    exact .gap hbreak h'
  | @token line c rest lexeme after kind literal tokens hitem hrest ih =>
    have hjoined := itemAt_append_of_eq text' hitem (by simp)
    rw [lineBreaks_cons hitem, Nat.add_assoc, ← Nat.add_assoc] at h'
    have hne : tokens ≠ [] := by
      obtain ⟨front, rfl⟩ := hrest.exists_eq_append
      simp
    rw [List.dropLast_cons_of_ne_nil hne]
    exact .token hjoined (ih h')
  | gap hitem _ ih =>
    have hjoined := itemAt_append_of_eq text' hitem (by simp)
    rw [lineBreaks_cons hitem, Nat.add_assoc, ← Nat.add_assoc] at h'
    exact .gap hjoined (ih h')

end Scans

/-- A scan that finds no faults is described by `Scans`. -/
lemma scans_of_scanFrom (line : Nat) (text : List Char) (before : Array Token)
    (errors : Array ScanError) (h : (scanFrom line text before errors).2 = #[]) :
    errors = #[] ∧ ∃ tokens, Scans line text tokens ∧
      (scanFrom line text before errors).1 = before ++ tokens.toArray := by
  fun_induction scanFrom line text before errors with
  | case1 line before errors => exact ⟨h, _, .done line, rfl⟩
  | case2 line before errors c rest kind lexeme literal after hitem line' ih =>
    obtain ⟨he, tokens, hs, ht⟩ := ih h
    refine ⟨he, _, .token hitem hs, ?_⟩
    rw [ht]
    simp
    rfl
  | case3 line before errors c rest skipped after hitem ih =>
    obtain ⟨he, tokens, hs, ht⟩ := ih h
    exact ⟨he, tokens, .gap hitem hs, ht⟩
  | case4 line before errors c rest fault skipped after hitem line' ih =>
    obtain ⟨he, -⟩ := ih h
    simp at he

end Scan

open Scan

/-- The scripts without faults are those that `Scans` describes. -/
theorem scan_eq_ok_iff {source : String} {tokens : List Token} :
    scan source = .ok tokens ↔ Scans 1 source.toList tokens := by
  constructor
  · intro h
    simp only [scan] at h
    split at h
    · next he =>
      obtain ⟨-, found, hs, ht⟩ := scans_of_scanFrom 1 source.toList #[] #[]
        (Array.isEmpty_iff.mp he)
      rw [ht] at h
      obtain rfl : found = tokens := by simpa using h
      exact hs
    · cases h
  · intro h
    simp only [scan, h.scanFrom_eq]
    simp

/-- A script ends with the end of the text. -/
lemma exists_end_of_scan {source : String} {tokens : List Token} (h : scan source = .ok tokens) :
    ∃ front line, tokens = front ++ [Token.endAt line] := by
  obtain ⟨front, hf⟩ := (scan_eq_ok_iff.mp h).exists_eq_append
  exact ⟨front, _, hf⟩

/-- The tokens of two scripts with a line break between them. Those of the second one are as many
lines later as the first one and the line break take. -/
theorem scan_append {first second : String} {front tokens : List Token} {stop : Token}
    (h : scan first = .ok (front ++ [stop])) (h' : scan second = .ok tokens) :
    scan (first ++ "\n" ++ second) =
      .ok (front ++ tokens.map (Token.rename ⟨id, (· + (lineBreaks first.toList + 1))⟩)) := by
  have hs := (scan_eq_ok_iff.mp h').shift (lineBreaks first.toList + 1)
  have hjoined := (scan_eq_ok_iff.mp h).append hs
  rw [List.dropLast_concat] at hjoined
  rw [scan_eq_ok_iff]
  simpa using hjoined

end Scripting
