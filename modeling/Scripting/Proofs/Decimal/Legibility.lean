import Scripting.Literal
import Scripting.Proofs.Decimal.Doubles
import Scripting.Proofs.Decimal.Numerals

/-!
# Legible styles

A style is legible if neither its mark nor its infinity can be taken for digits. In a legible style
the text of a number gives the number away: its first character tells what is no number, the
negative numbers, infinity and the digits apart, and the digits tell the code.
-/

namespace Scripting.Decimal

/-- Nothing but digits and points looks like digits and points. -/
structure Style.Legible (style : Style) : Prop where
  mark_not_digit : style.powerMark.isDigit = false
  mark_ne_point : style.powerMark ≠ '.'
  infinity_head : ∃ c rest, style.infinity.toList = c :: rest ∧
    c.isDigit = false ∧ c ≠ '-' ∧ c ≠ 'N'

section

variable {style : Style}

/-- The characters of a magnitude up to infinity. -/
def Style.body (style : Style) (code : Nat) : List Char :=
  if code = infinityCode then style.infinity.toList else style.magnitude code

lemma Numeral.WellFormed.exists_head {n : Numeral} (h : n.WellFormed) (mark : Char) :
    ∃ c rest, n.characters mark = c :: rest ∧ c.isDigit = true := by
  obtain ⟨c, rest, hwhole⟩ := List.exists_cons_of_ne_nil h.whole_ne_nil
  refine ⟨c, rest ++ Numeral.pointed n.fraction ++ Numeral.marked mark n.power, ?_, ?_⟩
  · rw [Numeral.characters, hwhole, List.cons_append, List.cons_append]
  · exact h.whole_digits c (by simp [hwhole])

/-- No magnitude starts like a negative number or like what is no number. -/
lemma Style.Legible.head_body (hs : style.Legible) {code : Nat} (h : code ≤ infinityCode) :
    ∃ c rest, style.body code = c :: rest ∧ c ≠ '-' ∧ c ≠ 'N' ∧
      (c.isDigit = true ↔ code < infinityCode) := by
  rw [Style.body]
  split_ifs with hinfinite
  · obtain ⟨c, rest, heq, hdigit, hminus, hnan⟩ := hs.infinity_head
    exact ⟨c, rest, heq, hminus, hnan, by simp [hdigit, hinfinite]⟩
  · have hfinite := Nat.lt_of_le_of_ne h hinfinite
    obtain ⟨n, hn, -, heq⟩ := exists_numeral style hfinite
    obtain ⟨c, rest, hhead, hdigit⟩ := hn.exists_head style.powerMark
    refine ⟨c, rest, heq.trans hhead, ?_, ?_, by simp [hdigit, hfinite]⟩
    · rintro rfl
      exact absurd hdigit (by decide)
    · rintro rfl
      exact absurd hdigit (by decide)

/-- Magnitudes up to infinity are written differently. -/
lemma Style.Legible.body_injective (hs : style.Legible) {code code' : Nat}
    (h : code ≤ infinityCode) (h' : code' ≤ infinityCode)
    (heq : style.body code = style.body code') : code = code' := by
  obtain ⟨c, rest, hbody, -, -, hdigit⟩ := hs.head_body h
  obtain ⟨c', rest', hbody', -, -, hdigit'⟩ := hs.head_body h'
  obtain ⟨rfl, rfl⟩ : c = c' ∧ rest = rest' := by
    rw [hbody, hbody'] at heq
    exact List.cons.inj heq
  by_cases hfinite : code < infinityCode
  · have hfinite' := hdigit'.mp (hdigit.mpr hfinite)
    rw [Style.body, Style.body, if_neg hfinite.ne, if_neg hfinite'.ne] at heq
    exact magnitude_injective hs.mark_not_digit hs.mark_ne_point hfinite hfinite' heq
  · have hinfinite' : ¬ code' < infinityCode := fun hlt => hfinite (hdigit.mp (hdigit'.mpr hlt))
    omega

/-- The text of what is no number. -/
lemma text_of_nan {x : Float} (h : infinityCode < codeOfFloat x) : style.text x = "NaN" :=
  if_pos h

/-- The characters of any other number. -/
lemma toList_text {x : Float} (h : codeOfFloat x ≤ infinityCode) : (style.text x).toList =
    (if isNegative x then ['-'] else []) ++ style.body (codeOfFloat x) := by
  rw [Style.text, if_neg h.not_gt, String.toList_ofList]
  rfl

/-- No number has the text of what is none. -/
lemma Style.Legible.text_ne_nan (hs : style.Legible) {x : Float}
    (h : codeOfFloat x ≤ infinityCode) : style.text x ≠ "NaN" := by
  intro heq
  obtain ⟨c, rest, hbody, -, hnan, -⟩ := hs.head_body h
  have hchars : (style.text x).toList = _ := toList_text h
  rw [heq, hbody] at hchars
  cases hsign : isNegative x with
  | true => simp [hsign] at hchars
  | false => exact hnan (by simp [hsign] at hchars; exact hchars.1.symm)

/-- In a legible style different numbers have different texts. -/
theorem Style.Legible.text_injective (hs : style.Legible) : Function.Injective style.text := by
  intro x y h
  rcases Nat.lt_or_ge infinityCode (codeOfFloat x) with hx | hx
  · rcases Nat.lt_or_ge infinityCode (codeOfFloat y) with hy | hy
    · rw [(eq_nan_iff x).mpr hx, (eq_nan_iff y).mpr hy]
    · exact absurd (h.symm.trans (text_of_nan hx)) (hs.text_ne_nan hy)
  rcases Nat.lt_or_ge infinityCode (codeOfFloat y) with hy | hy
  · exact absurd (h.trans (text_of_nan hy)) (hs.text_ne_nan hx)
  have hchars := congrArg String.toList h
  rw [toList_text hx, toList_text hy] at hchars
  obtain ⟨c, rest, hbody, hminus, -, -⟩ := hs.head_body hx
  obtain ⟨c', rest', hbody', hminus', -, -⟩ := hs.head_body hy
  -- the sign is there exactly if the first character is a minus
  have hsign : isNegative x = isNegative y := by
    rw [hbody, hbody'] at hchars
    cases hx' : isNegative x <;> cases hy' : isNegative y
    · rfl
    · simp [hx', hy', hminus] at hchars
    · simp [hx', hy', hminus'.symm] at hchars
    · rfl
  rw [hsign] at hchars
  exact eq_of_code_eq hsign (hs.body_injective hx hy (List.append_cancel_left hchars))

end

/-! ### The styles of literals -/

theorem displayStyle_legible : Literal.displayStyle.Legible :=
  ⟨by decide, by decide, 'I', "nfinity".toList, by decide, by decide, by decide, by decide⟩

end Scripting.Decimal
