import Scripting.Store.Text
import Scripting.Proofs.Decimal.Legibility
import Scripting.Proofs.Token.Respacing

/-!
# Printed numbers in scripts

A numeral without a power is a lexeme of a number, and its literal is the double that the numeral
reads as. Printed numbers of moderate size are such numerals, so a script can have them back.
-/

namespace Scripting

open Decimal Scan

/-- A numeral without a power is the lexeme of the double it reads as. -/
lemma Decimal.Numeral.WellFormed.lexeme {n : Numeral} (h : n.WellFormed) (hpower : n.power = none)
    {x : Float} (hsign : isNegative x = false) (hreads : n.ReadsAs (codeOfFloat x))
    (hfinite : codeOfFloat x ≤ infinityCode) (mark : Char) :
    Lexeme .number (n.characters mark) (some (.number x)) := by
  obtain ⟨whole, fraction, power⟩ := n
  obtain rfl : power = none := hpower
  have hcode : nearestCode (digitsValue (whole ++ fraction)) (10 ^ fraction.length) =
      codeOfFloat x := by
    simpa [Numeral.ReadsAs, Numeral.exponent] using hreads
  have hvalue : ofDigits whole fraction = x := by
    rw [ofDigits, Nat.pow_eq, hcode]
    obtain ⟨hsame, hpositive⟩ := codeOfFloat_floatOfCode hfinite
    exact eq_of_code_eq (hpositive.trans hsign.symm) hsame
  simp only [Numeral.characters, Numeral.pointed, Numeral.marked, List.append_nil]
  split_ifs with hnone
  · subst hnone
    rw [← hvalue, List.append_nil]
    exact .whole h.whole_ne_nil h.whole_digits
  · rw [← hvalue]
    exact .decimal h.whole_ne_nil h.whole_digits hnone h.fraction_digits

/-- A text that is one lexeme without line breaks is scanned as one token. -/
lemma scan_of_lexeme {kind : TokenKind} {text : String} {literal : Option Literal}
    (h : Lexeme kind text.toList literal) (hline : '\n' ∉ text.toList) :
    scan text = .ok [⟨kind, text, literal, 1⟩, .endAt 1] := by
  obtain ⟨c, rest, hchars, hread⟩ := h.read_back
  have hitem := hread [] separated_nil
  rw [List.append_nil] at hitem
  have hcount : lineBreaks text.toList = 0 := List.count_eq_zero.mpr hline
  have hscans := Scans.token hitem (.done (1 + lineBreaks text.toList))
  rw [hcount, String.ofList_toList, ← hchars] at hscans
  exact scan_eq_ok_iff.mpr hscans

/-- The code of the double nearest to a thousandth, which is a little more than that. -/
lemma codeOfFloat_thousandth : codeOfFloat 1e-3 = 0x3f50624dd2f1a9fc := by
  decide +kernel

lemma codeOfFloat_tenMillion : codeOfFloat 1e7 = 0x416312d000000000 := by
  decide +kernel

/-- The doubles from a thousandth up to below ten million are positive, and those are the codes that
the display form writes positionally. -/
lemma displayStyle_range {x : Float} (hlow : (1e-3 : Float) ≤ x) (hhigh : x < 1e7) :
    isNegative x = false ∧ codeOfFloat x < infinityCode ∧
      Literal.displayStyle.positionalFrom ≤ (written (codeOfFloat x)).leadingPower ∧
      (written (codeOfFloat x)).leadingPower < Literal.displayStyle.positionalBelow := by
  obtain ⟨hsign, hleast⟩ := code_le_of_le (by decide +kernel) (by decide +kernel)
    (by decide +kernel) hlow
  have hmost := code_lt_of_lt (by decide +kernel) (by decide +kernel) (by decide +kernel) hsign
    hhigh
  rw [codeOfFloat_thousandth] at hleast
  rw [codeOfFloat_tenMillion] at hmost
  have hpos : 0 < codeOfFloat x := (by decide : 0 < 0x3f50624dd2f1a9fc).trans_le hleast
  refine ⟨hsign, hmost.trans (by decide), ?_, leadingPower_lt hpos hmost (by decide +kernel)⟩
  rcases hleast.eq_or_lt with heq | hlt
  · rw [← heq]
    decide +kernel
  · have hthousandth : unitsPerOne ≤ units 0x3f50624dd2f1a9fc * 10 ^ 3 := by decide +kernel
    have hle := le_leadingPower hlt hthousandth
    exact hle

/-- What is printed for zero or for a number of moderate size is one lexeme without line breaks. -/
lemma lexeme_display {x : Float} (h : x.toBits = 0 ∨ (1e-3 : Float) ≤ x ∧ x < 1e7) :
    Lexeme .number (Literal.displayStyle.text x).toList (some (.number x)) := by
  have hrange : isNegative x = false ∧ codeOfFloat x < infinityCode ∧ (codeOfFloat x = 0 ∨
      Literal.displayStyle.positionalFrom ≤ (written (codeOfFloat x)).leadingPower ∧
        (written (codeOfFloat x)).leadingPower < Literal.displayStyle.positionalBelow) := by
    rcases h with hzero | ⟨hlow, hhigh⟩
    · have hcode : codeOfFloat x = 0 := by
        rw [codeOfFloat, hzero]
        rfl
      refine ⟨?_, hcode ▸ by decide, .inl hcode⟩
      rw [isNegative, hzero]
      rfl
    · obtain ⟨hsign, hfinite, hpower⟩ := displayStyle_range hlow hhigh
      exact ⟨hsign, hfinite, .inr hpower⟩
  obtain ⟨hsign, hfinite, hpower⟩ := hrange
  obtain ⟨n, hn, hplain, hreads, heq⟩ := exists_plain_numeral Literal.displayStyle hfinite hpower
  have hchars : (Literal.displayStyle.text x).toList =
      n.characters Literal.displayStyle.powerMark := by
    rw [toList_text hfinite.le, hsign, Style.body, if_neg hfinite.ne, heq]
    rfl
  rw [hchars]
  exact hn.lexeme hplain hsign hreads hfinite.le _

/-- The text of a number has no line breaks. -/
lemma Scan.Lexeme.no_lineBreak_of_number {chars : List Char} {literal : Option Literal}
    (h : Lexeme .number chars literal) : '\n' ∉ chars := by
  have hdigit : ¬ Char.isDigit '\n' := by decide
  have hsymbols : ∀ p ∈ symbols, p.2 ≠ .number := by decide
  have hkeywords : ∀ p ∈ keywords, p.2 ≠ .number := by decide
  cases h with
  | symbol hs => exact absurd rfl (hsymbols _ hs)
  | keyword hk => exact absurd rfl (hkeywords _ hk)
  | whole _ hdigits => exact fun hmem => hdigit (hdigits _ hmem)
  | decimal _ hwhole _ hfraction =>
    intro hmem
    rcases List.mem_append.mp hmem with hmem | hmem
    · exact hdigit (hwhole _ hmem)
    · rcases List.mem_cons.mp hmem with heq | hmem
      · exact absurd heq (by decide)
      · exact hdigit (hfraction _ hmem)

/-- **Printed numbers are literals.** Whatever is in the store, the text that is printed for zero or
for a double from a thousandth up to below ten million is scanned as one number, which is this
double, and the end of the text. -/
theorem scan_display_of_number {x : Float} (h : x.toBits = 0 ∨ (1e-3 : Float) ≤ x ∧ x < 1e7)
    (s : Store) : scan (s.display (.number x)) =
      .ok [⟨.number, s.display (.number x), some (.number x), 1⟩, .endAt 1] :=
  scan_of_lexeme (lexeme_display h) (lexeme_display h).no_lineBreak_of_number

/-- The double after a thousandth has seventeen digits. -/
theorem scan_display_of_number_seventeen :
    let x := Float.ofBits 0x3f50624dd2f1a9fd
    let text := Store.empty.display (.number x)
    (1e-3 : Float) ≤ x ∧ x < 1e7 ∧ text = "0.0010000000000000002" ∧
      scan text = .ok [⟨.number, text, some (.number x), 1⟩, .endAt 1] := by
  intro x text
  have hrange : (1e-3 : Float) ≤ x ∧ x < 1e7 := by decide +kernel
  exact ⟨hrange.1, hrange.2, by decide +kernel, scan_display_of_number (.inr hrange) Store.empty⟩

end Scripting
