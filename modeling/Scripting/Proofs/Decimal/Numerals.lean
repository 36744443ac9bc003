import Mathlib
import Scripting.Decimal.Style
import Scripting.Proofs.Decimal.Shortest
import Scripting.Proofs.Text.Quoted

/-!
# What a written number stands for

A written number is read as digits before and after a point, with a power of ten if there is one.
Both forms of a decimal stand for the same fraction as the decimal does, whatever the style. So a
written magnitude rounds to the code it was written for, and two magnitudes are written alike only
if they are the same.
-/

namespace Scripting.Decimal

/-- The parts of a written number. -/
structure Numeral where
  whole : List Char
  fraction : List Char
  power : Option Int

namespace Numeral

/-- The fraction with the point before it, if there is one. -/
def pointed (fraction : List Char) : List Char :=
  if fraction = [] then [] else '.' :: fraction

/-- The power with its mark before it, if there is one. -/
def marked (mark : Char) : Option Int → List Char
  | none => []
  | some power => mark :: (toString power).toList

/-- How a numeral is written. -/
def characters (mark : Char) (n : Numeral) : List Char :=
  n.whole ++ pointed n.fraction ++ marked mark n.power

/-- A numeral starts with a digit, and has only digits next to its point. -/
structure WellFormed (n : Numeral) : Prop where
  whole_ne_nil : n.whole ≠ []
  whole_digits : ∀ c ∈ n.whole, c.isDigit
  fraction_digits : ∀ c ∈ n.fraction, c.isDigit

/-- The power of ten that a numeral is multiplied with. -/
def exponent (n : Numeral) : Int :=
  n.power.getD 0

/-- A numeral and a decimal are the same fraction. -/
def Represents (n : Numeral) (d : Decimal) : Prop :=
  digitsValue (n.whole ++ n.fraction) * 10 ^ n.exponent.toNat * d.denominator =
    d.numerator * (10 ^ n.fraction.length * 10 ^ (-n.exponent).toNat)

end Numeral

/-! ### Reading the parts -/

namespace Numeral

variable {mark : Char} {n n' : Numeral}

lemma marked_injective : Function.Injective (marked mark) := by
  rintro (_ | power) (_ | power') h
  · rfl
  · cases h
  · cases h
  · have htext := (List.cons.inj h).2
    rw [String.toList_inj, Int.toString_eq_repr, Int.toString_eq_repr, Int.repr_inj] at htext
    rw [htext]

lemma head?_marked {power : Option Int} {c : Char} (h : c ∈ (marked mark power).head?) :
    c = mark := by
  cases power with
  | none => cases h
  | some power => exact (Option.some.inj h).symm

/-- What follows the whole digits starts with the point or with the mark. -/
lemma head?_pointed {fraction : List Char} {power : Option Int} {c : Char}
    (h : c ∈ (pointed fraction ++ marked mark power).head?) : c = '.' ∨ c = mark := by
  rw [pointed] at h
  split_ifs at h
  · exact .inr (head?_marked h)
  · exact .inl (Option.some.inj h).symm

/-- The parts of a numeral can be told apart by a mark that is no digit and no point. -/
theorem characters_injective (hdigit : mark.isDigit = false) (hpoint : mark ≠ '.')
    (hn : n.WellFormed) (hn' : n'.WellFormed) (h : n.characters mark = n'.characters mark) :
    n = n' := by
  have hstop : ∀ c, c = '.' ∨ c = mark → c.isDigit = false := by
    rintro c (rfl | rfl)
    · decide
    · exact hdigit
  simp only [characters, List.append_assoc] at h
  obtain ⟨hwhole, hrest⟩ := Text.stretch_append_inj hn.whole_digits hn'.whole_digits
    (fun c hc => hstop c (head?_pointed hc)) (fun c hc => hstop c (head?_pointed hc)) h
  obtain ⟨whole, fraction, power⟩ := n
  obtain ⟨whole', fraction', power'⟩ := n'
  obtain rfl : whole = whole' := hwhole
  -- either both numerals have a point or none of them
  by_cases hnone : fraction = []
  · by_cases hnone' : fraction' = []
    · subst hnone hnone'
      obtain rfl := marked_injective hrest
      rfl
    · have hhead : '.' ∈ (marked mark power).head? := by
        simp only [pointed, hnone, hnone', if_true, if_false, List.nil_append] at hrest
        rw [hrest]
        rfl
      exact absurd (head?_marked hhead).symm hpoint
  · by_cases hnone' : fraction' = []
    · have hhead : '.' ∈ (marked mark power').head? := by
        simp only [pointed, hnone, hnone', if_true, if_false, List.nil_append] at hrest
        rw [← hrest]
        rfl
      exact absurd (head?_marked hhead).symm hpoint
    · simp only [pointed, hnone, hnone', if_false, List.cons_append, List.cons.injEq,
        true_and] at hrest
      obtain ⟨rfl, hpower⟩ := Text.stretch_append_inj hn.fraction_digits hn'.fraction_digits
        (fun c hc => hstop c (.inr (head?_marked hc)))
        (fun c hc => hstop c (.inr (head?_marked hc))) hrest
      obtain rfl := marked_injective hpower
      rfl

end Numeral

/-! ### Values of digits -/

lemma digitsValue_append (digits more : List Char) :
    digitsValue (digits ++ more) = 10 ^ more.length * digitsValue digits + digitsValue more := by
  show Nat.ofDigitChars 10 (digits ++ more) 0 = _
  rw [Nat.ofDigitChars_append, Nat.ofDigitChars_eq_ofDigitChars_zero]
  rfl

lemma digitsValue_zeros (count : Nat) : digitsValue (List.replicate count '0') = 0 :=
  Nat.ofDigitChars_replicate_zero

lemma digitsValue_toDigits (n : Nat) : digitsValue (Nat.toDigits 10 n) = n :=
  Nat.ofDigitChars_ten_toDigits

/-! ### Both forms -/

/-- The power of ten of the leading digit of a decimal. -/
def leadingPower (d : Decimal) : Int :=
  d.place + ((Nat.toDigits 10 d.digits).length - 1 : Nat)

lemma isDigit_of_mem_toDigits {n : Nat} {c : Char} (h : c ∈ Nat.toDigits 10 n) : c.isDigit :=
  Nat.isDigit_of_mem_toDigits (by decide) (by decide) h

lemma isDigit_of_mem_zeros {count : Nat} {c : Char} (h : c ∈ List.replicate count '0') :
    c.isDigit := by
  obtain rfl := List.eq_of_mem_replicate h
  decide

section

variable (style : Style) (d : Decimal)

/-- A decimal below one has nothing but zeros between the point and its digits. -/
lemma exists_positional_of_neg (h : d.leadingPower < 0) :
    ∃ n : Numeral, n.WellFormed ∧ n.power = none ∧ n.Represents d ∧
      positional style (Nat.toDigits 10 d.digits) d.leadingPower =
        n.characters style.powerMark := by
  have hlength := Nat.length_toDigits_pos (b := 10) (n := d.digits)
  have hne := Nat.toDigits_ne_nil (b := 10) (n := d.digits)
  refine ⟨⟨['0'], List.replicate ((-d.leadingPower).toNat - 1) '0' ++ Nat.toDigits 10 d.digits,
    none⟩, ⟨by simp, by simp, ?_⟩, rfl, ?_, ?_⟩
  · intro c hc
    exact (List.mem_append.mp hc).elim isDigit_of_mem_zeros isDigit_of_mem_toDigits
  · have hplace : d.place.toNat = 0 := by
      unfold leadingPower at h
      omega
    have hcount : (-d.leadingPower).toNat - 1 + (Nat.toDigits 10 d.digits).length =
        (-d.place).toNat := by
      unfold leadingPower at h ⊢
      omega
    have hvalue : digitsValue (['0'] ++ (List.replicate ((-d.leadingPower).toNat - 1) '0' ++
        Nat.toDigits 10 d.digits)) = d.digits := by
      rw [digitsValue_append, digitsValue_append, digitsValue_zeros, digitsValue_toDigits]
      exact Nat.zero_add _ |>.trans (Nat.zero_add _)
    simp only [Numeral.Represents, Numeral.exponent, hvalue, List.length_append,
      List.length_replicate, hcount, denominator, numerator, hplace]
    simp
  · simp [positional, h, Numeral.characters, Numeral.pointed, Numeral.marked, hne]

/-- A decimal whose digits end before the point is filled with zeros up to it. -/
lemma exists_positional_of_whole (h : 0 ≤ d.leadingPower) (hwhole : 0 ≤ d.place) :
    ∃ n : Numeral, n.WellFormed ∧ n.power = none ∧ n.Represents d ∧
      positional style (Nat.toDigits 10 d.digits) d.leadingPower =
        n.characters style.powerMark := by
  have hlength := Nat.length_toDigits_pos (b := 10) (n := d.digits)
  have hcount : d.leadingPower.toNat + 1 - (Nat.toDigits 10 d.digits).length = d.place.toNat := by
    unfold leadingPower
    omega
  have hle : (Nat.toDigits 10 d.digits).length ≤ d.leadingPower.toNat + 1 := by
    unfold leadingPower
    omega
  have hden : (-d.place).toNat = 0 := by omega
  refine ⟨⟨Nat.toDigits 10 d.digits ++ List.replicate d.place.toNat '0',
    if style.wholeFraction then ['0'] else [], none⟩, ⟨by simp, ?_, ?_⟩, rfl, ?_, ?_⟩
  · intro c hc
    exact (List.mem_append.mp hc).elim isDigit_of_mem_toDigits isDigit_of_mem_zeros
  · split <;> simp
  · simp only [Numeral.Represents, Numeral.exponent, denominator, numerator, hden]
    split
    · have hzero : digitsValue ['0'] = 0 := rfl
      simp only [digitsValue_append, digitsValue_zeros, digitsValue_toDigits, hzero,
        List.length_replicate, List.length_singleton, Option.getD_none]
      simp only [Int.toNat_zero, Int.neg_zero]
      ring
    · simp [digitsValue_append, digitsValue_zeros, digitsValue_toDigits, Nat.mul_comm]
  · simp only [positional, not_lt.mpr h, if_false, hcount, List.drop_eq_nil_of_le hle,
      List.take_of_length_le hle, Numeral.characters, Numeral.pointed, Numeral.marked]
    split <;> simp

/-- The point of any other decimal is between its digits. -/
lemma exists_positional_of_point (h : 0 ≤ d.leadingPower) (hpoint : d.place < 0) :
    ∃ n : Numeral, n.WellFormed ∧ n.power = none ∧ n.Represents d ∧
      positional style (Nat.toDigits 10 d.digits) d.leadingPower =
        n.characters style.powerMark := by
  have hlength := Nat.length_toDigits_pos (b := 10) (n := d.digits)
  have hcount : (Nat.toDigits 10 d.digits).length - (d.leadingPower.toNat + 1) =
      (-d.place).toNat := by
    unfold leadingPower at h ⊢
    omega
  have hlt : d.leadingPower.toNat + 1 < (Nat.toDigits 10 d.digits).length := by
    unfold leadingPower at h ⊢
    omega
  have hnum : d.place.toNat = 0 := by omega
  refine ⟨⟨(Nat.toDigits 10 d.digits).take (d.leadingPower.toNat + 1),
    (Nat.toDigits 10 d.digits).drop (d.leadingPower.toNat + 1), none⟩, ⟨?_, ?_, ?_⟩, rfl, ?_, ?_⟩
  · simp
  · exact fun c hc => isDigit_of_mem_toDigits (List.mem_of_mem_take hc)
  · exact fun c hc => isDigit_of_mem_toDigits (List.mem_of_mem_drop hc)
  · simp [Numeral.Represents, Numeral.exponent, denominator, numerator, hnum, hcount,
      List.take_append_drop, digitsValue_toDigits]
  · obtain ⟨c, rest, hrest⟩ := List.exists_cons_of_ne_nil
      (List.drop_eq_nil_iff.not.mpr (Nat.not_le.mpr hlt))
    simp [positional, not_lt.mpr h, hrest, Nat.sub_eq_zero_of_le hlt.le, Numeral.characters,
      Numeral.pointed, Numeral.marked]

/-- The positional form of a decimal is a numeral without a power. -/
lemma exists_positional : ∃ n : Numeral, n.WellFormed ∧ n.power = none ∧ n.Represents d ∧
    positional style (Nat.toDigits 10 d.digits) d.leadingPower = n.characters style.powerMark := by
  rcases Int.lt_or_le d.leadingPower 0 with hneg | hnonneg
  · exact exists_positional_of_neg style d hneg
  rcases Int.lt_or_le d.place 0 with hpoint | hwhole
  · exact exists_positional_of_point style d hnonneg hpoint
  · exact exists_positional_of_whole style d hnonneg hwhole

/-- The other form of a decimal is a numeral with a power. -/
lemma exists_withPower : ∃ n : Numeral, n.WellFormed ∧ n.Represents d ∧
    withPower style (Nat.toDigits 10 d.digits) d.leadingPower = n.characters style.powerMark := by
  obtain ⟨c, rest, hdigits⟩ :=
    List.exists_cons_of_ne_nil (Nat.toDigits_ne_nil (b := 10) (n := d.digits))
  have hvalue := digitsValue_toDigits d.digits
  have hall : ∀ x ∈ Nat.toDigits 10 d.digits, x.isDigit := fun x hx => isDigit_of_mem_toDigits hx
  have hpower : d.leadingPower = d.place + (rest.length : Int) := by
    rw [leadingPower, hdigits, List.length_cons, Nat.add_sub_cancel]
  rw [hdigits] at hvalue hall
  rw [List.forall_mem_cons] at hall
  rw [hdigits]
  by_cases hone : rest = [] ∧ style.powerFraction
  · -- the only digit gets a zero behind the point
    obtain ⟨rfl, hfraction⟩ := hone
    have hzero : digitsValue [c, '0'] = 10 * digitsValue [c] + 0 := digitsValue_append [c] ['0']
    refine ⟨⟨[c], ['0'], some d.leadingPower⟩, ⟨by simp, by simpa using hall.1, by simp⟩, ?_, ?_⟩
    · simp only [Numeral.Represents, Numeral.exponent, denominator, numerator, hpower, hvalue,
        List.singleton_append, hzero, Option.getD_some, List.length_nil, List.length_singleton]
      simp only [Nat.cast_zero, Int.add_zero]
      ring
    · simp [withPower, hfraction, Numeral.characters, Numeral.pointed, Numeral.marked]
  · refine ⟨⟨[c], rest, some d.leadingPower⟩, ⟨by simp, by simpa using hall.1, hall.2⟩, ?_, ?_⟩
    · have hexponent : d.leadingPower.toNat + (-d.place).toNat =
          d.place.toNat + (rest.length + (-d.leadingPower).toNat) := by
        omega
      simp only [Numeral.Represents, Numeral.exponent, denominator, numerator, Option.getD_some,
        List.singleton_append, hvalue, Nat.mul_assoc, ← Nat.pow_add, hexponent]
    · have hpoint : (if rest = [] then (if style.powerFraction then ['.', '0'] else [])
          else '.' :: rest) = Numeral.pointed rest := by
        rw [Numeral.pointed]
        split_ifs <;> simp_all
      simp [withPower, hpoint, Numeral.characters, Numeral.marked]

end

/-! ### Written magnitudes -/

/-- The decimal that a magnitude is written with. -/
def written (code : Nat) : Decimal :=
  if code = 0 then ⟨0, 0⟩ else shortest code

lemma written_roundsTo (code : Nat) :
    RoundsTo code (written code).numerator (written code).denominator := by
  rw [written]
  split_ifs with hzero
  · subst hzero
    have hunits : units 0 = 0 := rfl
    exact ⟨by simp [hunits], by simp [numerator], by simp⟩
  · exact shortest_roundsTo (Nat.pos_of_ne_zero hzero)

/-- A numeral has the value of a code if it stands for a fraction that rounds to it. -/
def Numeral.ReadsAs (n : Numeral) (code : Nat) : Prop :=
  nearestCode (digitsValue (n.whole ++ n.fraction) * 10 ^ n.exponent.toNat)
    (10 ^ n.fraction.length * 10 ^ (-n.exponent).toNat) = code

lemma Numeral.Represents.readsAs {n : Numeral} {code : Nat} (h : n.Represents (written code))
    (hfinite : code < infinityCode) : n.ReadsAs code := by
  have hpos : ∀ k, 0 < 10 ^ k := fun k => Nat.pow_pos (by decide)
  have hden := Nat.mul_pos (hpos n.fraction.length) (hpos (-n.exponent).toNat)
  exact ((written_roundsTo code).congr (denominator_pos _) hden h.symm).nearestCode_eq hden hfinite

lemma magnitude_eq (style : Style) (code : Nat) : style.magnitude code =
    if code = 0 ∨ style.positionalFrom ≤ (written code).leadingPower ∧
        (written code).leadingPower < style.positionalBelow then
      positional style (Nat.toDigits 10 (written code).digits) (written code).leadingPower
    else withPower style (Nat.toDigits 10 (written code).digits) (written code).leadingPower := by
  rw [Style.magnitude]
  by_cases hzero : code = 0
  · rw [if_pos hzero, if_pos (.inl hzero), written, if_pos hzero]
    rfl
  · simp only [hzero, if_false, false_or, written]
    rfl

/-- A finite magnitude is written as a numeral that reads as it. -/
theorem exists_numeral (style : Style) {code : Nat} (hfinite : code < infinityCode) :
    ∃ n : Numeral, n.WellFormed ∧ n.ReadsAs code ∧
      style.magnitude code = n.characters style.powerMark := by
  rw [magnitude_eq]
  split_ifs
  · obtain ⟨n, hn, -, hvalue, heq⟩ := exists_positional style (written code)
    exact ⟨n, hn, hvalue.readsAs hfinite, heq⟩
  · obtain ⟨n, hn, hvalue, heq⟩ := exists_withPower style (written code)
    exact ⟨n, hn, hvalue.readsAs hfinite, heq⟩

/-- In the positional range of the style the numeral has no power. -/
theorem exists_plain_numeral (style : Style) {code : Nat} (hfinite : code < infinityCode)
    (hrange : code = 0 ∨ style.positionalFrom ≤ (written code).leadingPower ∧
      (written code).leadingPower < style.positionalBelow) :
    ∃ n : Numeral, n.WellFormed ∧ n.power = none ∧ n.ReadsAs code ∧
      style.magnitude code = n.characters style.powerMark := by
  rw [magnitude_eq, if_pos hrange]
  obtain ⟨n, hn, hpower, hvalue, heq⟩ := exists_positional style (written code)
  exact ⟨n, hn, hpower, hvalue.readsAs hfinite, heq⟩

/-! ### Magnitudes between two powers of ten -/

/-- A decimal is less than the power of ten above its leading digit. -/
lemma numerator_lt (d : Decimal) : d.numerator * 10 ^ (-(d.leadingPower + 1)).toNat <
    10 ^ (d.leadingPower + 1).toNat * d.denominator := by
  have hlength := Nat.length_toDigits_pos (b := 10) (n := d.digits)
  have hdigits : d.digits < 10 ^ (Nat.toDigits 10 d.digits).length :=
    (Nat.length_toDigits_le_iff (by decide) hlength).mp le_rfl
  have hexponents : (Nat.toDigits 10 d.digits).length + d.place.toNat +
      (-(d.leadingPower + 1)).toNat = (d.leadingPower + 1).toNat + (-d.place).toNat := by
    unfold leadingPower
    omega
  rw [numerator, denominator, ← Nat.pow_add, ← hexponents, Nat.pow_add, Nat.pow_add]
  exact Nat.mul_lt_mul_of_pos_right
    (Nat.mul_lt_mul_of_pos_right hdigits (Nat.pow_pos (by decide))) (Nat.pow_pos (by decide))

/-- A decimal other than zero is at least the power of ten of its leading digit. -/
lemma le_numerator {d : Decimal} (h : 0 < d.digits) :
    10 ^ d.leadingPower.toNat * d.denominator ≤ d.numerator * 10 ^ (-d.leadingPower).toNat := by
  have hlength := Nat.length_toDigits_pos (b := 10) (n := d.digits)
  have hdigits : 10 ^ ((Nat.toDigits 10 d.digits).length - 1) ≤ d.digits := by
    rcases Nat.eq_zero_or_pos ((Nat.toDigits 10 d.digits).length - 1) with hone | hmore
    · rw [hone]
      exact h
    · by_contra hlt
      have := (Nat.length_toDigits_le_iff (by decide) hmore).mpr (Nat.not_le.mp hlt)
      omega
  have hexponents : d.leadingPower.toNat + (-d.place).toNat =
      (Nat.toDigits 10 d.digits).length - 1 + d.place.toNat + (-d.leadingPower).toNat := by
    unfold leadingPower
    omega
  rw [numerator, denominator, ← Nat.pow_add, hexponents, Nat.pow_add, Nat.pow_add]
  exact Nat.mul_le_mul_right _ (Nat.mul_le_mul_right _ hdigits)

/-- Above a magnitude that reaches a power of ten, the leading digit is not behind that power. -/
lemma le_leadingPower {least code power : Nat} (hlt : least < code)
    (hleast : unitsPerOne ≤ units least * 10 ^ power) :
    -(power : Int) ≤ (written code).leadingPower := by
  by_contra hless
  have hbound := numerator_lt (written code)
  have hden := denominator_pos (written code)
  have hlow := (written_roundsTo code).low
  have hmono := units_strictMono.monotone (Nat.le_sub_one_of_lt hlt)
  have hsum : 2 * units least < units (code - 1) + units code := by
    have := units_strictMono hlt
    omega
  generalize written code = d at *
  have habove : units least * d.denominator < d.numerator * unitsPerOne := by
    have := (Nat.mul_lt_mul_of_pos_right hsum hden).trans_le hlow
    rw [Nat.mul_assoc, Nat.mul_assoc] at this
    omega
  have hreach : d.denominator < d.numerator * 10 ^ power := by
    refine Nat.lt_of_mul_lt_mul_left (a := unitsPerOne) ?_
    calc unitsPerOne * d.denominator ≤ units least * 10 ^ power * d.denominator :=
          Nat.mul_le_mul_right _ hleast
      _ = units least * d.denominator * 10 ^ power := by ring
      _ < d.numerator * unitsPerOne * 10 ^ power :=
          Nat.mul_lt_mul_of_pos_right habove (Nat.pow_pos (by decide))
      _ = unitsPerOne * (d.numerator * 10 ^ power) := by ring
  have hexponent : (d.leadingPower + 1).toNat = 0 := by omega
  rw [hexponent, Nat.pow_zero, Nat.one_mul] at hbound
  have hpower : 10 ^ power ≤ 10 ^ (-(d.leadingPower + 1)).toNat :=
    Nat.pow_le_pow_right (by decide) (by omega)
  exact absurd (hreach.trans_le (Nat.mul_le_mul_left _ hpower)) hbound.not_gt

/-- Below a magnitude that does not exceed a power of ten, the leading digit is behind that
power. -/
lemma leadingPower_lt {most code power : Nat} (hpos : 0 < code) (hlt : code < most)
    (hmost : units most ≤ unitsPerOne * 10 ^ power) :
    (written code).leadingPower < power := by
  by_contra hless
  have hden := denominator_pos (written code)
  have hlow := (written_roundsTo code).low
  have hhigh := (written_roundsTo code).high
  have hunits := units_pos hpos
  have hmono := units_strictMono.monotone (Nat.succ_le_of_lt hlt)
  have hsum : units code + units (code + 1) < 2 * units most := by
    have := units_strictMono hlt
    exact (Nat.add_lt_add_of_lt_of_le this hmono).trans_eq (Nat.two_mul _).symm
  have hdigits : 0 < (written code).digits := by
    refine Nat.pos_of_ne_zero fun hzero => ?_
    rw [numerator, hzero, Nat.zero_mul, Nat.mul_zero, Nat.zero_mul, Nat.add_mul] at hlow
    have := Nat.mul_pos hunits hden
    omega
  have hbound := le_numerator hdigits
  generalize written code = d at *
  have hbelow : d.numerator * unitsPerOne < units most * d.denominator := by
    have := hhigh.trans_lt (Nat.mul_lt_mul_of_pos_right hsum hden)
    rw [Nat.mul_assoc, Nat.mul_assoc] at this
    omega
  have hreach : d.numerator < 10 ^ power * d.denominator := by
    refine Nat.lt_of_mul_lt_mul_left (a := unitsPerOne) ?_
    calc unitsPerOne * d.numerator = d.numerator * unitsPerOne := Nat.mul_comm ..
      _ < units most * d.denominator := hbelow
      _ ≤ unitsPerOne * 10 ^ power * d.denominator := Nat.mul_le_mul_right _ hmost
      _ = unitsPerOne * (10 ^ power * d.denominator) := Nat.mul_assoc ..
  have hexponent : (-d.leadingPower).toNat = 0 := by omega
  rw [hexponent, Nat.pow_zero, Nat.mul_one] at hbound
  have hpower : 10 ^ power ≤ 10 ^ d.leadingPower.toNat :=
    Nat.pow_le_pow_right (by decide) (by omega)
  exact absurd (hreach.trans_le (Nat.mul_le_mul_right _ hpower)) hbound.not_gt

/-! ### Different magnitudes -/

/-- Finite magnitudes that are written alike are the same. -/
theorem magnitude_injective {style : Style} (hdigit : style.powerMark.isDigit = false)
    (hpoint : style.powerMark ≠ '.') {code code' : Nat} (hfinite : code < infinityCode)
    (hfinite' : code' < infinityCode) (h : style.magnitude code = style.magnitude code') :
    code = code' := by
  obtain ⟨n, hn, hvalue, heq⟩ := exists_numeral style hfinite
  obtain ⟨n', hn', hvalue', heq'⟩ := exists_numeral style hfinite'
  rw [heq, heq'] at h
  obtain rfl := n.characters_injective hdigit hpoint hn hn' h
  exact hvalue.symm.trans hvalue'

end Scripting.Decimal
