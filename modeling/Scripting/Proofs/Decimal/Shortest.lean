import Mathlib.Data.Nat.Digits.Defs
import Mathlib.Order.Monotone.Basic
import Mathlib.Tactic.Linarith
import Mathlib.Tactic.Ring
import Scripting.Decimal.Shortest
import Scripting.Proofs.Decimal.Rounding

/-!
# Shortest decimals round to their codes

Seventeen digits are enough: the place of the seventeenth digit is closer together than the doubles
are, so one of the two multiples around a magnitude is in its interval. The decimal that is found is
therefore in the interval of its code, whether it has fewer digits or zeros at its end.
-/

namespace Scripting.Decimal

/-! ### Gaps between magnitudes -/

/-- The gap below a magnitude is not smaller than its share of two hidden bits. -/
lemma units_le_gap_below (code : Nat) (h : 0 < code) :
    2 * hiddenBit * units (code - 1) + units code ≤ 2 * hiddenBit * units code := by
  have hbit : 0 < hiddenBit := by decide
  obtain ⟨shift, m, rfl, hm, hs⟩ := exists_shift code
  rw [units_of_shift hm.le hs]
  by_cases hleast : shift ≠ 0 ∧ m = hiddenBit
  · obtain ⟨hpos, rfl⟩ := hleast
    obtain ⟨below, rfl⟩ := Nat.exists_eq_succ_of_ne_zero hpos
    have hprev : (below + 1) * hiddenBit + hiddenBit - 1 =
        below * hiddenBit + (2 * hiddenBit - 1) := by
      rw [Nat.succ_mul]
      omega
    rw [hprev, units_of_shift (by omega) (.inr (by omega)), Nat.pow_succ]
    obtain ⟨b, hb, htwo⟩ : ∃ b, 2 * hiddenBit - 1 = b ∧ 2 * hiddenBit = b + 1 :=
      ⟨_, rfl, by omega⟩
    have hunits : hiddenBit * (2 ^ below * 2) = (b + 1) * 2 ^ below := by
      rw [← htwo]
      ring
    rw [hb, htwo, hunits]
    exact le_of_eq (by ring)
  · obtain ⟨p, rfl⟩ : ∃ p, m = p + 1 := Nat.exists_eq_succ_of_ne_zero fun hzero => by
      subst hzero
      obtain rfl := hs.resolve_right (by omega)
      simp at h
    rw [← Nat.add_assoc, Nat.add_sub_cancel, units_of_shift (by omega) (by omega)]
    nlinarith [Nat.two_pow_pos shift]

/-- The gap above a magnitude is greater than its share of two hidden bits. -/
lemma units_lt_gap_above (code : Nat) :
    2 * hiddenBit * units code + units code < 2 * hiddenBit * units (code + 1) := by
  have hbit : 0 < hiddenBit := by decide
  obtain ⟨shift, m, rfl, hm, hs⟩ := exists_shift code
  rw [Nat.add_assoc, units_of_shift hm.le hs, units_of_shift (by omega) (hs.imp_right (by omega))]
  nlinarith [Nat.two_pow_pos shift]

lemma units_pos {code : Nat} (h : 0 < code) : 0 < units code := by
  have := units_lt_gap_above (code - 1)
  rw [Nat.sub_add_cancel h] at this
  exact Nat.pos_of_ne_zero fun hzero => by simp [hzero] at this

lemma units_strictMono : StrictMono units :=
  strictMono_nat_of_lt_succ fun code => by
    have := units_lt_gap_above code
    exact Nat.lt_of_mul_lt_mul_left (Nat.lt_of_le_of_lt (Nat.le_add_right _ _) this)

/-! ### Decimals as fractions -/

/-- The numerator of a decimal. -/
def numerator (d : Decimal) : Nat :=
  d.digits * 10 ^ d.place.toNat

/-- The denominator of a decimal. -/
def denominator (d : Decimal) : Nat :=
  10 ^ (-d.place).toNat

lemma denominator_pos (d : Decimal) : 0 < d.denominator :=
  Nat.pow_pos (by decide)

lemma readsBack_iff (code : Nat) (d : Decimal) :
    readsBack code d = true ↔ RoundsTo code d.numerator d.denominator := by
  have htwice : 2 * d.digits * 10 ^ d.place.toNat * unitsPerOne =
      2 * d.numerator * unitsPerOne := by
    rw [numerator, Nat.mul_assoc 2]
  simp only [readsBack, placeValue, Nat.pow_eq, htwice]
  rw [← denominator]
  split_ifs with heven
  · simp only [Bool.and_eq_true, decide_eq_true_eq]
    exact ⟨fun h => ⟨h.1, h.2, by omega⟩, fun h => ⟨h.low, h.high⟩⟩
  · simp only [Bool.and_eq_true, decide_eq_true_eq]
    exact ⟨fun h => ⟨h.1.le, h.2.le, fun _ => h⟩, fun h => h.inside (by omega)⟩

/-- A decimal with one zero less at its end is the same fraction. -/
lemma RoundsTo.dropZero {code : Nat} {d : Decimal}
    (h : RoundsTo code d.numerator d.denominator) (hzero : d.digits % 10 = 0) :
    RoundsTo code (numerator ⟨d.digits / 10, d.place + 1⟩)
      (denominator ⟨d.digits / 10, d.place + 1⟩) := by
  refine h.congr (denominator_pos _) (denominator_pos _) ?_
  obtain ⟨tens, htens⟩ : ∃ tens, d.digits = 10 * tens := Nat.dvd_of_mod_eq_zero hzero
  simp only [numerator, denominator, htens, Nat.mul_div_cancel_left tens (by decide : 0 < 10)]
  rcases Int.lt_or_le d.place 0 with hneg | hnonneg
  · have hplace : d.place.toNat = 0 := by omega
    have hnext : (d.place + 1).toNat = 0 := by omega
    have hden : (-d.place).toNat = (-(d.place + 1)).toNat + 1 := by omega
    rw [hplace, hnext, hden]
    ring
  · have hplace : (-d.place).toNat = 0 := by omega
    have hnext : (-(d.place + 1)).toNat = 0 := by omega
    have hnum : (d.place + 1).toNat = d.place.toNat + 1 := by omega
    rw [hplace, hnext, hnum]
    ring

lemma RoundsTo.dropZeros {code : Nat} (fuel : Nat) {d : Decimal}
    (h : RoundsTo code d.numerator d.denominator) :
    RoundsTo code (Decimal.dropZeros fuel d).numerator (Decimal.dropZeros fuel d).denominator := by
  induction fuel generalizing d with
  | zero => exact h
  | succ fuel ih =>
    rw [Decimal.dropZeros]
    split_ifs with hzero
    · exact ih (h.dropZero hzero.2)
    · exact h

/-! ### The place of the leading digit -/

/-- The factors that raise a fraction to one are enough. -/
lemma le_raiseToOne (num den fuel count : Nat) (h : den ≤ num * 10 ^ fuel) :
    ∃ k, raiseToOne num den fuel count = count + k ∧ den ≤ num * 10 ^ k := by
  induction fuel generalizing num count with
  | zero => exact ⟨0, rfl, h⟩
  | succ fuel ih =>
    rw [raiseToOne]
    split_ifs with hdone
    · exact ⟨0, rfl, by simpa using hdone⟩
    · obtain ⟨k, hk, hle⟩ := ih (10 * num) (count + 1) (h.trans (by rw [Nat.pow_succ]; linarith))
      exact ⟨k + 1, by omega, hle.trans (by rw [Nat.pow_succ]; linarith)⟩

lemma unitsPerOne_le : unitsPerOne ≤ 10 ^ 325 := by
  decide +kernel

/-- The magnitude of a code has a digit other than zero at its leading place. -/
lemma leadingPlace_le {code : Nat} (h : 0 < code) :
    unitsPerOne * 10 ^ (leadingPlace code).toNat ≤
      units code * 10 ^ (-leadingPlace code).toNat := by
  unfold leadingPlace
  dsimp only
  split_ifs with hwhole
  · have hone : unitsPerOne ≤ units code * 10 ^ 325 :=
      unitsPerOne_le.trans (Nat.le_mul_of_pos_left _ (units_pos h))
    obtain ⟨k, hk, hle⟩ := le_raiseToOne (units code) unitsPerOne 325 0 hone
    rw [hk]
    simpa using hle
  · generalize hdigits : (Nat.toDigits 10 (units code / unitsPerOne)).length = length
    have hlength : 10 ^ (length - 1) ≤ units code / unitsPerOne := by
      by_contra hless
      rcases Nat.eq_zero_or_pos (length - 1) with hzero | hpos
      · rw [hzero] at hless
        exact hless (Nat.one_le_iff_ne_zero.mpr hwhole)
      · have := (Nat.length_toDigits_le_iff (by decide) hpos).mpr (Nat.not_le.mp hless)
        omega
    have hle := (Nat.le_div_iff_mul_le unitsPerOne_pos).mp hlength
    rw [Nat.mul_comm] at hle
    simpa using hle

/-! ### Seventeen digits -/

lemma RoundsTo.of_inside {code num den : Nat}
    (hlow : (units (code - 1) + units code) * den < 2 * num * unitsPerOne)
    (hhigh : 2 * num * unitsPerOne < (units code + units (code + 1)) * den) :
    RoundsTo code num den :=
  ⟨hlow.le, hhigh.le, fun _ => ⟨hlow, hhigh⟩⟩

/-- At a place that is closer together than the doubles around a code, one of the two multiples
around its magnitude is in its interval. -/
lemma roundsTo_multiple {code num den : Nat} (hnum : 0 < num)
    (hbelow : units (code - 1) * den + unitsPerOne * num < units code * den)
    (habove : units code * den + unitsPerOne * num < units (code + 1) * den) :
    RoundsTo code (units code * den / (unitsPerOne * num) * num) den ∨
      RoundsTo code ((units code * den / (unitsPerOne * num) + 1) * num) den := by
  have hstep : 0 < unitsPerOne * num := Nat.mul_pos unitsPerOne_pos hnum
  have hrest := Nat.mod_lt (units code * den) hstep
  have hvalue := Nat.div_add_mod (units code * den) (unitsPerOne * num)
  generalize units code * den / (unitsPerOne * num) = q at hvalue
  generalize units code * den % (unitsPerOne * num) = r at hvalue hrest
  have hdown : 2 * (q * num) * unitsPerOne = 2 * (unitsPerOne * num * q) := by ring
  have hup : 2 * ((q + 1) * num) * unitsPerOne =
      2 * (unitsPerOne * num * q) + 2 * (unitsPerOne * num) := by ring
  rcases Nat.lt_or_ge (unitsPerOne * num) (2 * r) with hnear | hnear
  · refine .inr (.of_inside ?_ ?_) <;> rw [hup, Nat.add_mul] <;> omega
  · refine .inl (.of_inside ?_ ?_) <;> rw [hdown, Nat.add_mul] <;> omega

lemma exists_atPlace {code : Nat} {place : Int}
    (hbelow : units (code - 1) * 10 ^ (-place).toNat + unitsPerOne * 10 ^ place.toNat <
      units code * 10 ^ (-place).toNat)
    (habove : units code * 10 ^ (-place).toNat + unitsPerOne * 10 ^ place.toNat <
      units (code + 1) * 10 ^ (-place).toNat) :
    ∃ d, atPlace code place = some d := by
  have hit := roundsTo_multiple (Nat.pow_pos (by decide)) hbelow habove
  simp only [atPlace, placeValue, Nat.pow_eq]
  generalize units code * 10 ^ (-place).toNat / (unitsPerOne * 10 ^ place.toNat) = q at hit ⊢
  have hreads : readsBack code ⟨q, place⟩ = true ∨ readsBack code ⟨q + 1, place⟩ = true :=
    hit.imp (readsBack_iff code ⟨q, place⟩).mpr (readsBack_iff code ⟨q + 1, place⟩).mpr
  split
  · exact ⟨_, (apply_ite some _ _ _).symm⟩
  · exact ⟨_, rfl⟩
  · exact ⟨_, rfl⟩
  · rename_i hfirst hsecond
    simp [hfirst, hsecond] at hreads

lemma readsBack_of_atPlace {code : Nat} {place : Int} {d : Decimal}
    (h : atPlace code place = some d) : readsBack code d = true := by
  unfold atPlace at h
  generalize placeValue place = fraction at h
  obtain ⟨num, den⟩ := fraction
  dsimp only at h
  generalize unitsPerOne * num = step at h
  generalize units code * den / step = q at h
  split at h
  · rename_i hfirst hsecond
    split_ifs at h
    · rw [← Option.some.inj h]
      exact hfirst
    · rw [← Option.some.inj h]
      exact hsecond
  · rename_i hfirst hsecond
    rw [← Option.some.inj h]
    exact hfirst
  · rename_i hfirst hsecond
    rw [← Option.some.inj h]
    exact hsecond
  · cases h

/-- The seventeenth place is closer together than the doubles are. -/
lemma exists_seventeenth {code : Nat} (h : 0 < code) :
    ∃ d, atPlace code (leadingPlace code - 16) = some d := by
  have hlead := leadingPlace_le h
  generalize leadingPlace code = lead at hlead
  -- both sides of the fraction for the place differ from those for the leading one by `10 ^ 16`
  have hpow : 10 ^ (lead - 16).toNat * 10 ^ (-lead).toNat * 10 ^ 16 =
      10 ^ lead.toNat * 10 ^ (-(lead - 16)).toNat := by
    rw [← Nat.pow_add, ← Nat.pow_add, ← Nat.pow_add]
    congr 1
    omega
  have hstep : unitsPerOne * 10 ^ (lead - 16).toNat * 10 ^ 16 ≤
      units code * 10 ^ (-(lead - 16)).toNat := by
    refine Nat.le_of_mul_le_mul_right ?_ (Nat.pow_pos (n := (-lead).toNat) (by decide : 0 < 10))
    calc unitsPerOne * 10 ^ (lead - 16).toNat * 10 ^ 16 * 10 ^ (-lead).toNat
        = unitsPerOne * (10 ^ (lead - 16).toNat * 10 ^ (-lead).toNat * 10 ^ 16) := by ring
      _ = unitsPerOne * 10 ^ lead.toNat * 10 ^ (-(lead - 16)).toNat := by rw [hpow]; ring
      _ ≤ units code * 10 ^ (-lead).toNat * 10 ^ (-(lead - 16)).toNat :=
        Nat.mul_le_mul_right _ hlead
      _ = units code * 10 ^ (-(lead - 16)).toNat * 10 ^ (-lead).toNat := by ring
  have hden : 0 < 10 ^ (-(lead - 16)).toNat := Nat.pow_pos (by decide)
  have hpos := Nat.mul_pos (units_pos h) hden
  have hbelow := Nat.mul_le_mul_right (10 ^ (-(lead - 16)).toNat) (units_le_gap_below code h)
  have habove := Nat.mul_lt_mul_of_pos_right (units_lt_gap_above code) hden
  simp only [hiddenBit_eq, Nat.add_mul, Nat.mul_assoc] at hbelow habove
  exact exists_atPlace (by omega) (by omega)

/-- The decimal with the fewest digits is in the interval of its code. -/
theorem shortest_roundsTo {code : Nat} (h : 0 < code) :
    RoundsTo code (shortest code).numerator (shortest code).denominator := by
  obtain ⟨d, hd⟩ := exists_seventeenth h
  unfold shortest
  dsimp only
  generalize hfound : ((List.range maxDigits).map fun (k : Nat) =>
    leadingPlace code - (k : Int)).findSome? (atPlace code) = found
  cases found with
  | none =>
    rw [List.findSome?_eq_none_iff] at hfound
    have := hfound (leadingPlace code - 16)
      (List.mem_map.mpr ⟨16, List.mem_range.mpr (by decide), rfl⟩)
    simp [hd] at this
  | some best =>
    obtain ⟨place, -, hplace⟩ := List.exists_of_findSome?_eq_some hfound
    exact RoundsTo.dropZeros maxDigits ((readsBack_iff code best).mp (readsBack_of_atPlace hplace))

end Scripting.Decimal
