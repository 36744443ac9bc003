import Mathlib.Tactic.Common
import Mathlib.Tactic.Linarith
import Mathlib.Tactic.Ring
import Scripting.Decimal.Binary

/-!
# Rounding to the nearest double

The fractions that a code is nearest to form an interval around its magnitude. Its ends are halfway
to the neighbours and belong to it if the code is even. Every fraction in the interval of a finite
code is rounded to this code, so no fraction is in the intervals of two of them.
-/

namespace Scripting.Decimal

lemma hiddenBit_eq : hiddenBit = 4503599627370496 := rfl

lemma unitsPerOne_pos : 0 < unitsPerOne := by
  decide +kernel

/-! ### Magnitudes -/

/-- The units of a code whose significand is a number of `2 ^ shift` units. The largest significand
with one more is the least one with the next shift. -/
lemma units_of_shift {shift m : Nat} (hm : m ≤ 2 * hiddenBit) (hs : shift = 0 ∨ hiddenBit ≤ m) :
    units (shift * hiddenBit + m) = m * 2 ^ shift := by
  have hbit : 0 < hiddenBit := by decide
  rcases hm.lt_or_eq with hlt | rfl
  · rcases Nat.lt_or_ge m hiddenBit with hsmall | hlarge
    · obtain rfl := hs.resolve_right hsmall.not_ge
      simp [units, significand, hsmall, Nat.div_eq_of_lt hsmall]
    · obtain ⟨f, rfl⟩ := Nat.exists_eq_add_of_le hlarge
      have hf : f < hiddenBit := by omega
      have hcode : shift * hiddenBit + (hiddenBit + f) = f + hiddenBit * (shift + 1) := by ring
      have hnot : ¬ f + hiddenBit * (shift + 1) < hiddenBit := by
        rw [Nat.mul_succ]
        omega
      rw [hcode]
      simp [units, significand, hnot, Nat.add_mul_mod_self_left, Nat.mod_eq_of_lt hf,
        Nat.add_mul_div_left f _ hbit, Nat.div_eq_of_lt hf]
  · have hcode : shift * hiddenBit + 2 * hiddenBit = hiddenBit * (shift + 2) := by ring
    have hnot : ¬ hiddenBit * (shift + 2) < hiddenBit := by
      rw [Nat.mul_succ]
      omega
    rw [hcode]
    simp only [units, significand, hnot, if_false, Nat.mul_mod_right,
      Nat.mul_div_cancel_left _ hbit]
    show (hiddenBit + 0) * 2 ^ (shift + 1) = 2 * hiddenBit * 2 ^ shift
    rw [Nat.add_zero, Nat.pow_succ]
    ring

/-- Every code has a shift and a significand; the hidden bit of the significand is missing only
without a shift. -/
lemma exists_shift (code : Nat) :
    ∃ shift m, code = shift * hiddenBit + m ∧ m < 2 * hiddenBit ∧
      (shift = 0 ∨ hiddenBit ≤ m) := by
  have hbit : 0 < hiddenBit := by decide
  have hmod := Nat.mod_lt code hbit
  have hdiv := Nat.div_add_mod code hiddenBit
  rcases Nat.eq_zero_or_pos (code / hiddenBit) with h | h
  · rw [h] at hdiv
    exact ⟨0, code, by simp, by omega, .inl rfl⟩
  · obtain ⟨shift, hshift⟩ := Nat.exists_eq_add_of_lt h
    refine ⟨shift, hiddenBit + code % hiddenBit, ?_, by omega, .inr (by omega)⟩
    rw [Nat.zero_add] at hshift
    rw [hshift, Nat.mul_succ, Nat.mul_comm] at hdiv
    omega

/-! ### Intervals -/

/-- A fraction is in the interval of a code. Everything is doubled, since the ends of the interval
are halfway between magnitudes. -/
structure RoundsTo (code num den : Nat) : Prop where
  low : (units (code - 1) + units code) * den ≤ 2 * num * unitsPerOne
  high : 2 * num * unitsPerOne ≤ (units code + units (code + 1)) * den
  /-- The ends of the interval of an odd code do not belong to it. -/
  inside : code % 2 = 1 → (units (code - 1) + units code) * den < 2 * num * unitsPerOne ∧
    2 * num * unitsPerOne < (units code + units (code + 1)) * den

section

variable {code num den num' den' : Nat}

/-- The same fraction with another numerator and denominator. -/
lemma RoundsTo.congr (h : RoundsTo code num den) (hden : 0 < den) (hden' : 0 < den')
    (heq : num * den' = num' * den) : RoundsTo code num' den' := by
  have htwice : 2 * num' * unitsPerOne * den = 2 * num * unitsPerOne * den' := by
    calc 2 * num' * unitsPerOne * den = 2 * (num' * den) * unitsPerOne := by ring
      _ = 2 * (num * den') * unitsPerOne := by rw [heq]
      _ = 2 * num * unitsPerOne * den' := by ring
  have hside : ∀ bound : Nat, bound * den' * den = bound * den * den' := fun bound => by ring
  have below : ∀ bound : Nat, bound * den' ≤ 2 * num' * unitsPerOne ↔
      bound * den ≤ 2 * num * unitsPerOne := by
    intro bound
    rw [← Nat.mul_le_mul_right_iff hden, hside, htwice, Nat.mul_le_mul_right_iff hden']
  have above : ∀ bound : Nat, 2 * num' * unitsPerOne ≤ bound * den' ↔
      2 * num * unitsPerOne ≤ bound * den := by
    intro bound
    rw [← Nat.mul_le_mul_right_iff hden, hside, htwice, Nat.mul_le_mul_right_iff hden']
  refine ⟨(below _).mpr h.low, (above _).mpr h.high, fun hodd => ?_⟩
  simp only [← Nat.not_le, above, below]
  simpa only [← Nat.not_le] using h.inside hodd

/-! ### Rounding -/

/-- A fraction that is within a half of a natural number is rounded to it; if it is halfway, the
number has to be even. -/
lemma roundHalfEven_eq {m : Nat} (hden : 0 < den) (hlow : 2 * (m * den) ≤ 2 * num + den)
    (hhigh : 2 * num ≤ 2 * (m * den) + den)
    (hinside : m % 2 = 1 → 2 * (m * den) < 2 * num + den ∧ 2 * num < 2 * (m * den) + den) :
    roundHalfEven num den = m := by
  have hr := Nat.mod_lt num hden
  have hnum := Nat.div_add_mod num den
  generalize hq : num / den = q at hnum
  generalize hrest : num % den = r at hr hnum
  rw [← hnum] at hlow hhigh hinside
  -- the number is the whole part or the next one
  have hge : q ≤ m := by
    by_contra hlt
    have := Nat.mul_le_mul_right den (Nat.succ_le_of_lt (Nat.not_le.mp hlt))
    rw [Nat.succ_mul, Nat.mul_comm q den] at this
    omega
  have hle : m ≤ q + 1 := by
    by_contra hlt
    have := Nat.mul_le_mul_right den (Nat.succ_le_of_lt (Nat.not_le.mp hlt))
    rw [Nat.succ_mul, Nat.succ_mul, Nat.mul_comm q den] at this
    omega
  unfold roundHalfEven
  rw [hq, hrest]
  rcases hge.lt_or_eq with hlt | rfl
  · obtain rfl : m = q + 1 := by omega
    have hnext : (q + 1) * den = den * q + den := by ring
    rw [hnext] at hlow hinside
    simp only
    split_ifs with hdown hup
    · omega
    · rfl
    · have : (q + 1) % 2 = 0 := by
        by_contra hodd
        have := hinside (by omega)
        omega
      omega
  · rw [Nat.mul_comm q den] at hhigh hinside
    simp only
    split_ifs with hdown hup
    · rfl
    · omega
    · have : q % 2 = 0 := by
        by_contra hodd
        have := hinside (by omega)
        omega
      omega

/-- How far the significand of a rounded fraction is shifted, if it has its hidden bit. -/
lemma log2_sub_eq {shift n : Nat} (hlt : n < 2 * hiddenBit * 2 ^ shift)
    (hge : shift = 0 ∨ hiddenBit * 2 ^ shift ≤ n) : n.log2 - 52 = shift := by
  have hpow : ∀ k, 2 ^ (52 + k) = hiddenBit * 2 ^ k := fun k => Nat.pow_add 2 52 k
  have htop : 2 * hiddenBit * 2 ^ shift = 2 ^ (52 + shift + 1) := by
    rw [Nat.pow_succ, hpow]
    ring
  rw [htop] at hlt
  rcases Nat.eq_zero_or_pos n with rfl | hn
  · rcases hge with rfl | hge
    · rfl
    · exact absurd (Nat.le_zero.mp hge) (Nat.mul_pos (by decide) (Nat.two_pow_pos _)).ne'
  · have hlog := (Nat.log2_lt hn.ne').mpr hlt
    rcases hge with rfl | hge
    · omega
    · rw [← hpow] at hge
      have := (Nat.le_log2 hn.ne').mpr hge
      omega

/-- A fraction that rounds to a significand at the shift of its own magnitude rounds to the code
that has this shift and this significand. -/
lemma nearestCode_of_shift {shift m : Nat} (hden : 0 < den)
    (hlt : num * unitsPerOne < 2 * hiddenBit * 2 ^ shift * den)
    (hge : shift = 0 ∨ hiddenBit * 2 ^ shift * den ≤ num * unitsPerOne)
    (hlow : 2 * (m * (2 ^ shift * den)) ≤ 2 * (num * unitsPerOne) + 2 ^ shift * den)
    (hhigh : 2 * (num * unitsPerOne) ≤ 2 * (m * (2 ^ shift * den)) + 2 ^ shift * den)
    (hinside : m % 2 = 1 →
      2 * (m * (2 ^ shift * den)) < 2 * (num * unitsPerOne) + 2 ^ shift * den ∧
        2 * (num * unitsPerOne) < 2 * (m * (2 ^ shift * den)) + 2 ^ shift * den) :
    nearestCode num den = min infinityCode (shift * hiddenBit + m) := by
  have hshift : (num * unitsPerOne / den).log2 - 52 = shift := by
    refine log2_sub_eq ((Nat.div_lt_iff_lt_mul hden).mpr hlt) (hge.imp_right fun h => ?_)
    exact (Nat.le_div_iff_mul_le hden).mpr h
  have hround : roundHalfEven (num * unitsPerOne) (den * 2 ^ shift) = m := by
    rw [Nat.mul_comm den]
    exact roundHalfEven_eq (Nat.mul_pos (Nat.two_pow_pos _) hden) hlow hhigh hinside
  rw [nearestCode, hshift, Nat.pow_eq, hround]

/-- The interval of a code with a significand above the least one of its shift is of the same width
on both sides. -/
lemma RoundsTo.nearestCode_eq_of_within {shift p : Nat}
    (h : RoundsTo (shift * hiddenBit + (p + 1)) num den) (hden : 0 < den)
    (hp : p + 1 < 2 * hiddenBit) (hs : shift = 0 ∨ hiddenBit ≤ p) :
    nearestCode num den = min infinityCode (shift * hiddenBit + (p + 1)) := by
  have hprev : units (shift * hiddenBit + (p + 1) - 1) = p * 2 ^ shift := by
    rw [← Nat.add_assoc, Nat.add_sub_cancel]
    exact units_of_shift (by omega) hs
  have hcode : units (shift * hiddenBit + (p + 1)) = (p + 1) * 2 ^ shift :=
    units_of_shift (by omega) (hs.imp_right (by omega))
  have hnext : units (shift * hiddenBit + (p + 1) + 1) = (p + 2) * 2 ^ shift := by
    rw [Nat.add_assoc, Nat.add_assoc]
    exact units_of_shift (by omega) (hs.imp_right (by omega))
  obtain ⟨hlow, hhigh, hinside⟩ := h
  rw [hprev, hcode] at hlow
  rw [hcode, hnext] at hhigh
  rw [hprev, hcode, hnext] at hinside
  have hodd : (shift * hiddenBit + (p + 1)) % 2 = (p + 1) % 2 := by
    rw [hiddenBit_eq]
    omega
  rw [hodd] at hinside
  have hwidth : 0 < 2 ^ shift * den := Nat.mul_pos (Nat.two_pow_pos _) hden
  have hbelow : (p * 2 ^ shift + (p + 1) * 2 ^ shift) * den =
      2 * ((p + 1) * (2 ^ shift * den)) - 2 ^ shift * den := by
    refine (Nat.sub_eq_of_eq_add ?_).symm
    ring
  have habove : ((p + 1) * 2 ^ shift + (p + 2) * 2 ^ shift) * den =
      2 * ((p + 1) * (2 ^ shift * den)) + 2 ^ shift * den := by
    ring
  have htwice : 2 * num * unitsPerOne = 2 * (num * unitsPerOne) := by ring
  rw [hbelow, htwice] at hlow
  rw [habove, htwice] at hhigh
  rw [hbelow, habove, htwice] at hinside
  refine nearestCode_of_shift hden ?_ ?_ (by omega) hhigh fun hm => ?_
  · have := Nat.mul_le_mul_right (2 ^ shift * den) (Nat.succ_le_of_lt hp)
    rw [Nat.succ_mul, ← Nat.mul_assoc (2 * hiddenBit)] at this
    omega
  · refine hs.imp_right fun hbit => ?_
    have := Nat.mul_le_mul_right (2 ^ shift * den) hbit
    rw [← Nat.mul_assoc hiddenBit] at this
    have hstep : (p + 1) * (2 ^ shift * den) = p * (2 ^ shift * den) + 2 ^ shift * den :=
      Nat.succ_mul _ _
    omega
  · have := hinside hm
    omega

/-- The magnitudes below the least significand of a shift are half as far from each other. -/
lemma RoundsTo.nearestCode_eq_of_least {shift : Nat}
    (h : RoundsTo ((shift + 1) * hiddenBit + hiddenBit) num den) (hden : 0 < den) :
    nearestCode num den = min infinityCode ((shift + 1) * hiddenBit + hiddenBit) := by
  have hbit : 0 < hiddenBit := by decide
  have heven : hiddenBit % 2 = 0 := by decide
  have hprev : units ((shift + 1) * hiddenBit + hiddenBit - 1) =
      (2 * hiddenBit - 1) * 2 ^ shift := by
    have hcode : (shift + 1) * hiddenBit + hiddenBit - 1 =
        shift * hiddenBit + (2 * hiddenBit - 1) := by
      rw [Nat.succ_mul]
      omega
    rw [hcode]
    exact units_of_shift (by omega) (.inr (by omega))
  have hcode : units ((shift + 1) * hiddenBit + hiddenBit) = hiddenBit * 2 ^ (shift + 1) :=
    units_of_shift (by omega) (.inr le_rfl)
  have hnext : units ((shift + 1) * hiddenBit + hiddenBit + 1) =
      (hiddenBit + 1) * 2 ^ (shift + 1) := by
    rw [Nat.add_assoc]
    exact units_of_shift (by omega) (.inr (by omega))
  obtain ⟨hlow, hhigh, -⟩ := h
  rw [hprev, hcode] at hlow
  rw [hcode, hnext] at hhigh
  have hdouble : 2 ^ (shift + 1) = 2 * 2 ^ shift := by ring
  have hwidth : 0 < 2 ^ shift * den := Nat.mul_pos (Nat.two_pow_pos _) hden
  have hbelow : ((2 * hiddenBit - 1) * 2 ^ shift + hiddenBit * 2 ^ (shift + 1)) * den =
      4 * (hiddenBit * (2 ^ shift * den)) - 2 ^ shift * den := by
    rw [Nat.sub_mul, hdouble]
    refine (Nat.sub_eq_of_eq_add ?_).symm
    have := Nat.mul_le_mul_right (2 ^ shift) hbit
    zify [show 1 * 2 ^ shift ≤ 2 * hiddenBit * 2 ^ shift by nlinarith]
    ring
  have habove : (hiddenBit * 2 ^ (shift + 1) + (hiddenBit + 1) * 2 ^ (shift + 1)) * den =
      4 * (hiddenBit * (2 ^ shift * den)) + 2 * (2 ^ shift * den) := by
    rw [hdouble]
    ring
  have htwice : 2 * num * unitsPerOne = 2 * (num * unitsPerOne) := by ring
  rw [hbelow, htwice] at hlow
  rw [habove, htwice] at hhigh
  have hmany := Nat.mul_le_mul_right (2 ^ shift * den) (Nat.succ_le_of_lt hbit)
  rw [Nat.one_mul] at hmany
  have hwide : 2 ^ (shift + 1) * den = 2 * (2 ^ shift * den) := by
    rw [hdouble, Nat.mul_assoc]
  by_cases hreach : 2 * (hiddenBit * (2 ^ shift * den)) ≤ num * unitsPerOne
  · have hfull : hiddenBit * (2 ^ (shift + 1) * den) = 2 * (hiddenBit * (2 ^ shift * den)) := by
      rw [hwide]
      ring
    refine nearestCode_of_shift hden ?_ (.inr ?_) ?_ ?_ fun hodd => ?_
    · rw [Nat.mul_assoc, Nat.mul_assoc, hfull]
      omega
    · rw [Nat.mul_assoc, hfull]
      exact hreach
    · rw [hfull]
      omega
    · rw [hfull, hwide]
      omega
    · omega
  · have hcarry : (shift + 1) * hiddenBit + hiddenBit = shift * hiddenBit + 2 * hiddenBit := by
      ring
    rw [hcarry]
    refine nearestCode_of_shift hden ?_ (.inr ?_) ?_ ?_ fun hodd => ?_
    · rw [Nat.mul_assoc, Nat.mul_assoc]
      omega
    · rw [Nat.mul_assoc]
      omega
    · rw [Nat.mul_assoc]
      omega
    · rw [Nat.mul_assoc]
      omega
    · omega

/-- A fraction in the interval of a finite code rounds to it. -/
theorem RoundsTo.nearestCode_eq (h : RoundsTo code num den) (hden : 0 < den)
    (hfinite : code < infinityCode) : nearestCode num den = code := by
  have hbit : 0 < hiddenBit := by decide
  obtain ⟨shift, m, rfl, hm, hs⟩ := exists_shift code
  rw [← Nat.min_eq_right hfinite.le]
  rcases m with _ | p
  · -- only the code of zero has no significand
    obtain rfl : shift = 0 := hs.resolve_right (by omega)
    have hnum := h.high
    have hzero : units 0 = 0 := rfl
    have hone : units 1 = 1 := rfl
    simp only [Nat.zero_mul, Nat.add_zero, Nat.zero_add, hzero, hone, Nat.one_mul] at hnum
    have htwice : 2 * num * unitsPerOne = 2 * (num * unitsPerOne) := by ring
    rw [htwice] at hnum
    refine nearestCode_of_shift hden ?_ (.inl rfl) (by omega) (by omega) (by omega)
    have := Nat.mul_le_mul_right den (Nat.succ_le_of_lt hbit)
    rw [Nat.pow_zero, Nat.mul_one, Nat.mul_assoc]
    omega
  · by_cases hleast : shift ≠ 0 ∧ p + 1 = hiddenBit
    · obtain ⟨hpos, hp⟩ := hleast
      obtain ⟨below, rfl⟩ := Nat.exists_eq_succ_of_ne_zero hpos
      rw [hp] at h ⊢
      exact h.nearestCode_eq_of_least hden
    · exact h.nearestCode_eq_of_within hden hm (by omega)

end

end Scripting.Decimal
