import Mathlib
import Scripting.Proofs.Decimal.Rounding

/-!
# Doubles and their codes

A double is known by its sign and its code. All bits that stand for no number make the same double,
and all other bits are kept. The order of doubles that are not negative is the order of their codes.
-/

namespace Scripting.Decimal

open Float.Model

lemma signBit_eq : signBit = 9223372036854775808 := rfl

lemma infinityCode_eq : infinityCode = 9218868437227405312 := rfl

/-! ### Sign and code -/

/-- The bits of a double are its code, with the sign bit on top of it if it is negative. -/
lemma toNat_toBits (x : Float) :
    x.toBits.toNat = (if isNegative x then signBit else 0) + codeOfFloat x := by
  have hlt := x.toBits.toNat_lt
  unfold codeOfFloat
  split_ifs with hsign
  · have := of_decide_eq_true hsign
    rw [signBit_eq] at this ⊢
    omega
  · have := of_decide_eq_false (Bool.eq_false_of_not_eq_true hsign)
    rw [signBit_eq] at this ⊢
    omega

/-- Two doubles with the same sign and the same code are the same. -/
theorem eq_of_code_eq {x y : Float} (hsign : isNegative x = isNegative y)
    (hcode : codeOfFloat x = codeOfFloat y) : x = y := by
  refine Float.toBits_inj.mp (UInt64.toNat_inj.mp ?_)
  rw [toNat_toBits, toNat_toBits, hsign, hcode]

/-! ### The fields of the bits -/

section

variable (bits : UInt64)

lemma toNat_unpackExponent :
    (@UnpackedFloat.unpackExponent Format.binary64 bits.toBitVec).toNat =
      bits.toNat % signBit / hiddenBit := by
  rw [UnpackedFloat.unpackExponent_def, BitVec.extractLsb'_toNat, Nat.shiftRight_eq_div_pow]
  show bits.toNat / 2 ^ 52 % 2 ^ 11 = _
  rw [signBit_eq, hiddenBit_eq]
  omega

lemma toNat_unpackMantissa :
    (@UnpackedFloat.unpackMantissa Format.binary64 bits.toBitVec).toNat =
      bits.toNat % signBit % hiddenBit := by
  rw [UnpackedFloat.unpackMantissa_def, BitVec.extractLsb'_toNat, Nat.shiftRight_eq_div_pow]
  show bits.toNat / 2 ^ 0 % 2 ^ 52 = _
  rw [signBit_eq, hiddenBit_eq]
  omega

/-- The exponent of infinity and of what is no number has all its bits set. -/
lemma unpackExponent_eq_iff :
    @UnpackedFloat.unpackExponent Format.binary64 bits.toBitVec = -1#11 ↔
      infinityCode ≤ bits.toNat % signBit := by
  rw [← BitVec.toNat_inj, toNat_unpackExponent, signBit_eq, hiddenBit_eq, infinityCode_eq]
  show _ = 2047 ↔ _
  omega

/-- The mantissa of infinity is zero. -/
lemma unpackMantissa_ne_iff (h : infinityCode ≤ bits.toNat % signBit) :
    @UnpackedFloat.unpackMantissa Format.binary64 bits.toBitVec ≠ 0#52 ↔
      infinityCode < bits.toNat % signBit := by
  have hlt : bits.toNat % signBit < signBit := Nat.mod_lt _ (by decide)
  rw [Ne, ← BitVec.toNat_inj, toNat_unpackMantissa]
  rw [signBit_eq, infinityCode_eq] at *
  rw [hiddenBit_eq]
  show ¬ _ = 0 ↔ _
  omega

/-! ### Bits that stand for no number -/

/-- All bits beyond infinity make the double that is no number. -/
lemma ofBits_eq_nan (h : infinityCode < bits.toNat % signBit) : Float.ofBits bits = Float.nan := by
  have hunpack : UnpackedFloat.unpack Format.binary64 bits.toBitVec = .notANumber := by
    rw [UnpackedFloat.unpack]
    simp only
    rw [if_pos ((unpackExponent_eq_iff bits).mpr h.le),
      if_neg ((unpackMantissa_ne_iff bits h.le).mpr h)]
  refine Float.toBits_inj.mp ?_
  show (Float.Model.pack (UnpackedFloat.unpack Format.binary64 bits.toBitVec)).toBits = _
  rw [hunpack]
  decide +kernel

/-- All other bits are the bits of the double that is made of them. -/
lemma toBits_ofBits (h : bits.toNat % signBit ≤ infinityCode) :
    (Float.ofBits bits).toBits = bits := by
  have hvalid : Format.binary64.Valid bits.toBitVec := by
    refine ⟨fun hexponent hmantissa => ?_⟩
    have hle := (unpackExponent_eq_iff bits).mp hexponent
    exact absurd ((unpackMantissa_ne_iff bits hle).mp hmantissa) h.not_gt
  exact congrArg Float.toBits (Float.ofBits_toBits ⟨⟨bits, hvalid⟩⟩)

lemma eq_nan_iff (x : Float) : x = Float.nan ↔ infinityCode < codeOfFloat x := by
  constructor
  · rintro rfl
    decide +kernel
  · intro h
    rw [← Float.ofBits_toBits x]
    exact ofBits_eq_nan x.toBits h

/-- The code of the double that is made of a code up to infinity. -/
lemma codeOfFloat_floatOfCode {code : Nat} (h : code ≤ infinityCode) :
    codeOfFloat (floatOfCode code) = code ∧ isNegative (floatOfCode code) = false := by
  have hbits : (UInt64.ofNat code).toNat = code :=
    UInt64.toNat_ofNat_of_lt' (h.trans_lt (by decide))
  have hmod : code % signBit = code := Nat.mod_eq_of_lt (h.trans_lt (by decide))
  have hsame : (floatOfCode code).toBits = UInt64.ofNat code :=
    toBits_ofBits _ (by rw [hbits, hmod]; exact h)
  refine ⟨?_, ?_⟩
  · rw [codeOfFloat, hsame, hbits, hmod]
  · rw [isNegative, hsame, hbits]
    exact decide_eq_false (h.trans_lt (by decide)).not_ge

end

/-! ### Order -/

/-- The significand of a code and how far it is shifted make up the code. -/
lemma code_eq (code : Nat) :
    (code / hiddenBit - 1) * hiddenBit + significand code = code := by
  rw [significand, hiddenBit_eq]
  split_ifs <;> omega

lemma significand_pos {code : Nat} (h : 0 < code) : 0 < significand code := by
  rw [significand, hiddenBit_eq]
  split_ifs <;> omega

/-- The sign of a double. -/
def signOf (x : Float) : UnpackedFloat.Sign :=
  if isNegative x then .negative else .positive

lemma signOf_of_negative {x : Float} (h : isNegative x = true) : signOf x = .negative :=
  if_pos h

lemma signOf_of_positive {x : Float} (h : isNegative x = false) : signOf x = .positive :=
  if_neg (by simp [h])

lemma unpackSign_eq (x : Float) : UnpackedFloat.Sign.ofBitVec
    (@UnpackedFloat.unpackSign Format.binary64 x.toBits.toBitVec) = signOf x := by
  have hlt := x.toBits.toNat_lt
  have hfield : (@UnpackedFloat.unpackSign Format.binary64 x.toBits.toBitVec).toNat =
      x.toBits.toNat / signBit := by
    rw [UnpackedFloat.unpackSign_def, BitVec.extractLsb'_toNat, Nat.shiftRight_eq_div_pow]
    show x.toBits.toNat / 2 ^ 63 % 2 ^ 1 = _
    rw [signBit_eq]
    omega
  have hzero : @UnpackedFloat.unpackSign Format.binary64 x.toBits.toBitVec = 0#1 ↔
      isNegative x = false := by
    rw [← BitVec.toNat_inj, hfield, isNegative, decide_eq_false_iff_not, signBit_eq]
    show _ = 0 ↔ _
    omega
  rw [UnpackedFloat.Sign.ofBitVec]
  cases hsign : isNegative x with
  | false => rw [if_pos (hzero.mpr hsign), signOf_of_positive hsign]
  | true =>
    rw [if_neg fun h => Bool.false_ne_true ((hzero.mp h).symm.trans hsign),
      signOf_of_negative hsign]

lemma toNat_one_append (mantissa : BitVec 52) :
    (1#1 ++ mantissa).toNat = hiddenBit + mantissa.toNat := by
  rw [BitVec.toNat_append, ← Nat.shiftLeft_add_eq_or_of_lt mantissa.isLt]
  rfl

lemma finite_congr {sign : UnpackedFloat.Sign} {m m' : Nat} {e e' : Int} {hm : 0 < m}
    {hm' : 0 < m'} (hmantissa : m = m') (hexponent : e = e') :
    UnpackedFloat.finite sign m e hm = .finite sign m' e' hm' := by
  subst hmantissa hexponent
  rfl

/-- What a double unpacks to, told from its sign and its code. -/
lemma unpack_eq (x : Float) : x.toModel.unpack =
    if infinityCode < codeOfFloat x then .notANumber
    else if codeOfFloat x = infinityCode then .infinity (signOf x)
    else if h : codeOfFloat x = 0 then .zero (signOf x)
    else .finite (signOf x) (significand (codeOfFloat x))
      ((codeOfFloat x / hiddenBit - 1 : Nat) - 1074 : Int)
      (significand_pos (Nat.pos_of_ne_zero h)) := by
  have hexponent := toNat_unpackExponent x.toBits
  have hmantissa := toNat_unpackMantissa x.toBits
  have hinfinite := unpackExponent_eq_iff x.toBits
  have hnan := unpackMantissa_ne_iff x.toBits
  have hsign := unpackSign_eq x
  change _ = codeOfFloat x / hiddenBit at hexponent
  change _ = codeOfFloat x % hiddenBit at hmantissa
  change _ ↔ infinityCode ≤ codeOfFloat x at hinfinite
  change infinityCode ≤ codeOfFloat x → (_ ↔ infinityCode < codeOfFloat x) at hnan
  have hbias : Format.binary64.exponentBias = 1023 := by decide
  have hzeroExponent : @UnpackedFloat.unpackExponent Format.binary64 x.toBits.toBitVec =
      0#11 ↔ codeOfFloat x < hiddenBit := by
    rw [← BitVec.toNat_inj, hexponent]
    exact Nat.div_eq_zero_iff.trans (or_iff_right (by decide))
  have hzeroMantissa : @UnpackedFloat.unpackMantissa Format.binary64 x.toBits.toBitVec =
      0#52 ↔ codeOfFloat x % hiddenBit = 0 := by
    rw [← BitVec.toNat_inj, hmantissa]
    rfl
  show UnpackedFloat.unpack Format.binary64 x.toBits.toBitVec = _
  unfold UnpackedFloat.unpack
  simp only [hsign]
  rcases Nat.lt_trichotomy (codeOfFloat x) infinityCode with hlt | heq | hgt
  · rw [if_neg (hinfinite.not.mpr hlt.not_ge), if_neg hlt.not_gt, if_neg hlt.ne]
    rcases Nat.lt_or_ge (codeOfFloat x) hiddenBit with hsmall | hlarge
    · rw [if_pos (hzeroExponent.mpr hsmall)]
      rw [Nat.mod_eq_of_lt hsmall] at hzeroMantissa hmantissa
      by_cases hzero : codeOfFloat x = 0
      · rw [dif_pos (hzeroMantissa.mpr hzero), dif_pos hzero]
      · rw [dif_neg (hzeroMantissa.not.mpr hzero), dif_neg hzero]
        refine finite_congr ?_ ?_
        · rw [hmantissa, significand, if_pos hsmall]
        · rw [hexponent, hbias, Nat.div_eq_of_lt hsmall]
          rfl
    · have hone : 0 < codeOfFloat x / hiddenBit := Nat.div_pos hlarge (by decide)
      have hpos : 0 < codeOfFloat x := (by decide : 0 < hiddenBit).trans_le hlarge
      rw [if_neg (hzeroExponent.not.mpr hlarge.not_gt), dif_neg hpos.ne']
      refine finite_congr ?_ ?_
      · rw [significand, if_neg hlarge.not_gt, ← hmantissa]
        exact toNat_one_append _
      · rw [hexponent, hbias]
        show _ - ((1023 : Nat) + (52 : Nat) : Int) = _
        omega
  · rw [if_pos (hinfinite.mpr heq.ge), if_neg heq.le.not_gt, if_pos heq, if_pos]
    exact not_not.mp ((hnan heq.ge).not.mpr heq.le.not_gt)
  · rw [if_pos (hinfinite.mpr hgt.le), if_pos hgt, if_neg ((hnan hgt.le).mpr hgt)]

lemma isFinite_iff (x : Float) : x.isFinite = true ↔ codeOfFloat x < infinityCode := by
  change x.toModel.unpack.isFinite = true ↔ _
  rw [unpack_eq]
  split_ifs <;> simp [UnpackedFloat.isFinite] <;> omega

/-- Shifts and significands are in the order of the codes. -/
lemma compare_codes (code code' : Nat) :
    (compare ((code / hiddenBit - 1 : Nat) - 1074 : Int)
      ((code' / hiddenBit - 1 : Nat) - 1074)).then
        (compare (significand code) (significand code')) = compare code code' := by
  have h := code_eq code
  have h' := code_eq code'
  have hlt : ∀ c, significand c < 2 * hiddenBit ∧
      (c / hiddenBit - 1 = 0 ∨ hiddenBit ≤ significand c) := by
    intro c
    rw [significand, hiddenBit_eq]
    split_ifs <;> omega
  obtain ⟨hbound, hbit⟩ := hlt code
  obtain ⟨hbound', hbit'⟩ := hlt code'
  rw [hiddenBit_eq] at *
  rcases Nat.lt_trichotomy (code / 4503599627370496 - 1) (code' / 4503599627370496 - 1) with
    hshift | hshift | hshift
  · rw [compare_lt_iff_lt.mpr (by omega : ((code / 4503599627370496 - 1 : Nat) - 1074 : Int) < _),
      compare_lt_iff_lt.mpr (by omega : code < code')]
    rfl
  · rw [hshift] at h ⊢
    rw [compare_eq_iff_eq.mpr rfl]
    show compare (significand code) (significand code') = _
    rcases Nat.lt_trichotomy (significand code) (significand code') with hless | heq | hmore
    · rw [compare_lt_iff_lt.mpr hless, compare_lt_iff_lt.mpr (by omega : code < code')]
    · rw [compare_eq_iff_eq.mpr heq, compare_eq_iff_eq.mpr (by omega : code = code')]
    · rw [compare_gt_iff_gt.mpr hmore, compare_gt_iff_gt.mpr (by omega : code > code')]
  · rw [compare_gt_iff_gt.mpr (by omega : ((code / 4503599627370496 - 1 : Nat) - 1074 : Int) > _),
      compare_gt_iff_gt.mpr (by omega : code > code')]
    rfl

/-- A positive finite double unpacks to its shift and its significand. -/
lemma unpack_of_positive {x : Float} (hpos : 0 < codeOfFloat x)
    (hfinite : codeOfFloat x < infinityCode) (hsign : isNegative x = false) :
    x.toModel.unpack = .finite .positive (significand (codeOfFloat x))
      ((codeOfFloat x / hiddenBit - 1 : Nat) - 1074 : Int) (significand_pos hpos) := by
  rw [unpack_eq, if_neg hfinite.not_gt, if_neg hfinite.ne, dif_neg hpos.ne',
    signOf_of_positive hsign]

/-- What is at least a positive finite double is positive, and its code is at least as large. -/
theorem code_le_of_le {x y : Float} (hpos : 0 < codeOfFloat y)
    (hfinite : codeOfFloat y < infinityCode) (hsign : isNegative y = false) (h : y ≤ x) :
    isNegative x = false ∧ codeOfFloat y ≤ codeOfFloat x := by
  have hle : Option.any (·.isLE) (y.toModel.unpack.compare x.toModel.unpack) = true :=
    of_decide_eq_true h
  rw [unpack_of_positive hpos hfinite hsign, unpack_eq x] at hle
  cases hx : isNegative x with
  | true =>
    rw [signOf_of_negative hx] at hle
    split_ifs at hle <;> cases hle
  | false =>
    refine ⟨rfl, ?_⟩
    rw [signOf_of_positive hx] at hle
    split_ifs at hle with hnan hinfinity hzero
    · cases hle
    · exact (hinfinity ▸ hfinite).le
    · cases hle
    · have hcodes : (compare (codeOfFloat y) (codeOfFloat x)).isLE = true := by
        rw [← compare_codes]
        exact hle
      exact Nat.isLE_compare.mp hcodes

/-- What is less than a positive finite double, and not negative, has a smaller code. -/
theorem code_lt_of_lt {x y : Float} (hpos : 0 < codeOfFloat y)
    (hfinite : codeOfFloat y < infinityCode) (hsign : isNegative y = false)
    (hx : isNegative x = false) (h : x < y) : codeOfFloat x < codeOfFloat y := by
  have hlt : (x.toModel.unpack.compare y.toModel.unpack == some .lt) = true :=
    of_decide_eq_true h
  rw [unpack_of_positive hpos hfinite hsign, unpack_eq x,
    signOf_of_positive hx] at hlt
  split_ifs at hlt with hnan hinfinity hzero
  · cases hlt
  · cases hlt
  · rw [hzero]
    exact hpos
  · have hcodes : compare (codeOfFloat x) (codeOfFloat y) = .lt := by
      rw [← compare_codes]
      exact Option.some.inj (beq_iff_eq.mp hlt)
    exact compare_lt_iff_lt.mp hcodes

end Scripting.Decimal
