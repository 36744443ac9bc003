import Scripting.Eval
import Scripting.Proofs.Decimal.Legibility

/-!
# Equality

Two values are equal if they are the same value; bits that stand for no number all make the same
one, and the zeros have different bits. So equal values look alike, and since the display form of
numbers is legible, numbers that look alike are equal.
-/

namespace Scripting

open Decimal

namespace Decimal

/-- The bits stand for no number: they are beyond those of infinity, whatever their sign. -/
def NoNumber (bits : UInt64) : Prop :=
  infinityCode < bits.toNat % signBit

instance (bits : UInt64) : Decidable (NoNumber bits) :=
  inferInstanceAs (Decidable (_ < _))

/-- Bits make the same double exactly if they are the same or stand for no number. -/
lemma ofBits_eq_iff (bits bits' : UInt64) : Float.ofBits bits = Float.ofBits bits' ↔
    NoNumber bits ∧ NoNumber bits' ∨ bits = bits' := by
  constructor
  · intro h
    by_cases hbits : NoNumber bits
    · by_cases hbits' : NoNumber bits'
      · exact .inl ⟨hbits, hbits'⟩
      · have hcode := (eq_nan_iff _).mp (h.symm.trans (ofBits_eq_nan bits hbits))
        rw [codeOfFloat, toBits_ofBits bits' (Nat.not_lt.mp hbits')] at hcode
        exact absurd hcode hbits'
    · by_cases hbits' : NoNumber bits'
      · have hcode := (eq_nan_iff _).mp (h.trans (ofBits_eq_nan bits' hbits'))
        rw [codeOfFloat, toBits_ofBits bits (Nat.not_lt.mp hbits)] at hcode
        exact absurd hcode hbits
      · have hsame := congrArg Float.toBits h
        rw [toBits_ofBits bits (Nat.not_lt.mp hbits),
          toBits_ofBits bits' (Nat.not_lt.mp hbits')] at hsame
        exact .inr hsame
  · rintro (⟨hbits, hbits'⟩ | rfl)
    · rw [ofBits_eq_nan bits hbits, ofBits_eq_nan bits' hbits']
    · rfl

/-- Doubles are the same exactly if none of them is a number, or if they are the same number with
the same sign. -/
lemma eq_iff_beq (x y : Float) : x = y ↔
    x.isNaN ∧ y.isNaN ∨ (x == y) = true ∧ isNegative x = isNegative y := by
  have hzero : isNegative 0 = false := by decide +kernel
  have hzero' : isNegative (-0) = true := by decide +kernel
  simp only [Float.isNaN_eq_decide_eq_nan, decide_eq_true_eq, Float.beq_iff_ne_nan_and_eq]
  constructor
  · rintro rfl
    by_cases hnan : x = Float.nan
    · exact .inl ⟨hnan, hnan⟩
    · exact .inr ⟨⟨hnan, hnan, .inl rfl⟩, rfl⟩
  · rintro (⟨rfl, rfl⟩ | ⟨⟨-, -, rfl | ⟨rfl, rfl⟩ | ⟨rfl, rfl⟩⟩, hsign⟩)
    · rfl
    · rfl
    · exact absurd (hzero.symm.trans (hsign.trans hzero')) (by decide)
    · exact absurd (hzero'.symm.trans (hsign.trans hzero)) (by decide)

end Decimal

namespace Value

/-- Two values are the same in the language exactly if they are the same. -/
lemma same_iff (v w : Value) : v.same w = true ↔ v = w := by
  cases v <;> cases w <;> simp [same, Float.toBits_inj]

/-- The operator `==` finds two values equal. -/
def Equal (s : Store) (v w : Value) : Prop :=
  applyBinary s .equalEqual v w = .ok (.bool true)

lemma equal_iff (s : Store) (v w : Value) : Equal s v w ↔ v = w := by
  rw [← same_iff]
  simp [Equal, applyBinary]

end Value

open Value

/-- What `==` and `!=` answer: equality is an equivalence and `!=` denies it. Equal values look
alike, and numbers that look alike are equal. Numbers are equal if their bits are the same or none
of them is a number; otherwise the same number has to have the same sign. Other values are equal
only to themselves. -/
theorem equality_agrees_with_display (s : Store) :
    Equivalence (Equal s) ∧
    (∀ v w, ∃ answer, applyBinary s .equalEqual v w = .ok (.bool answer) ∧
      applyBinary s .bangEqual v w = .ok (.bool !answer)) ∧
    (∀ v w, Equal s v w → s.display v = s.display w) ∧
    (∀ x y : Float, Equal s (.number x) (.number y) ↔
      s.display (.number x) = s.display (.number y)) ∧
    (∀ bits bits' : UInt64,
      Equal s (.number (Float.ofBits bits)) (.number (Float.ofBits bits')) ↔
        NoNumber bits ∧ NoNumber bits' ∨ bits = bits') ∧
    (∀ x y : Float, Equal s (.number x) (.number y) ↔
      x.isNaN ∧ y.isNaN ∨ (x == y) = true ∧ isNegative x = isNegative y) ∧
    (∀ v w, (∀ x, v ≠ .number x) → (Equal s v w ↔ v = w)) := by
  refine ⟨⟨fun v => ?_, fun h => ?_, fun h h' => ?_⟩, fun v w => ⟨v.same w, rfl, rfl⟩,
    fun v w h => ?_, fun x y => ?_, fun bits bits' => ?_, fun x y => ?_,
    fun v w _ => equal_iff s v w⟩
  · exact (equal_iff s v v).mpr rfl
  · exact (equal_iff s _ _).mpr ((equal_iff s _ _).mp h).symm
  · exact (equal_iff s _ _).mpr (((equal_iff s _ _).mp h).trans ((equal_iff s _ _).mp h'))
  · rw [(equal_iff s v w).mp h]
  · rw [equal_iff, Value.number.injEq]
    exact displayStyle_legible.text_injective.eq_iff.symm
  · rw [equal_iff, Value.number.injEq, ofBits_eq_iff]
  · rw [equal_iff, Value.number.injEq, eq_iff_beq]

end Scripting
