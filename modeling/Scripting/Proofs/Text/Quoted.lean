import Mathlib.Data.List.TakeWhile
import Mathlib.Data.Nat.Digits.Defs
import Mathlib.Tactic.Common
import Scripting.Text.Quoted

/-!
# Reading quoted texts

A quoted text has one reading: the escapes of different characters are no beginnings of each other,
and none of them starts with a quote. A line feed is always escaped, so that a quoted text takes one
line.
-/

namespace Scripting.Text

/-! ### Stretches of characters -/

/-- Characters of a kind end where the first one of another kind stands. -/
lemma stretch_append_inj {p : Char → Bool} {chars chars' rest rest' : List Char}
    (hchars : ∀ c ∈ chars, p c) (hchars' : ∀ c ∈ chars', p c)
    (hrest : ∀ c ∈ rest.head?, p c = false) (hrest' : ∀ c ∈ rest'.head?, p c = false)
    (h : chars ++ rest = chars' ++ rest') : chars = chars' ∧ rest = rest' := by
  have stops : ∀ text : List Char, (∀ c ∈ text.head?, p c = false) → text.takeWhile p = [] := by
    rintro (_ | ⟨c, text⟩) hhead
    · rfl
    · exact List.takeWhile_cons_of_neg (by simp [hhead c rfl])
  have htake := congrArg (List.takeWhile p) h
  rw [List.takeWhile_append_of_pos hchars, List.takeWhile_append_of_pos hchars', stops _ hrest,
    stops _ hrest', List.append_nil, List.append_nil] at htake
  subst htake
  exact ⟨rfl, List.append_cancel_left h⟩

/-! ### Hexadecimal digits -/

/-- The hexadecimal digits. -/
def isHexDigit (c : Char) : Bool :=
  c ∈ "0123456789abcdef".toList

lemma digitChar_injective {m n : Nat} (hm : m < 16) (hn : n < 16)
    (h : m.digitChar = n.digitChar) : m = n := by
  have table : ∀ m < 16, ∀ n < 16, m.digitChar = n.digitChar → m = n := by
    decide
  exact table m hm n hn h

lemma isHexDigit_digitChar {n : Nat} (h : n < 16) : isHexDigit n.digitChar := by
  have table : ∀ n < 16, isHexDigit n.digitChar := by
    decide
  exact table n h

lemma isHexDigit_of_mem_hexDigits {n : Nat} : ∀ c ∈ hexDigits n, isHexDigit c := by
  induction n using Nat.strongRecOn with
  | ind n ih =>
    unfold hexDigits at ih ⊢
    rw [Nat.toDigits_eq_if (by decide)]
    split_ifs with hsmall
    · rw [List.forall_mem_singleton]
      exact isHexDigit_digitChar hsmall
    · rw [List.forall_mem_append, List.forall_mem_singleton]
      exact ⟨ih _ (Nat.div_lt_self (by omega) (by decide)),
        isHexDigit_digitChar (Nat.mod_lt _ (by decide))⟩

lemma hexDigits_injective : Function.Injective hexDigits := by
  intro m
  induction m using Nat.strongRecOn with
  | ind m ih =>
    intro n h
    unfold hexDigits at ih h
    have hne : ∀ k, Nat.toDigits 16 k ≠ [] := fun _ => Nat.toDigits_ne_nil
    rw [Nat.toDigits_eq_if (by decide), Nat.toDigits_eq_if (n := n) (by decide)] at h
    split_ifs at h with hm hn hn
    · exact digitChar_injective hm hn (List.cons.inj h).1
    · simp [List.singleton_eq_append_iff, hne] at h
    · simp [List.append_eq_singleton_iff, hne] at h
    · obtain ⟨hfront, hlast⟩ := List.append_inj' h rfl
      have hdiv := ih _ (Nat.div_lt_self (by omega) (by decide)) hfront
      have hmod := digitChar_injective (Nat.mod_lt m (by decide)) (Nat.mod_lt n (by decide))
        (List.cons.inj hlast).1
      omega

/-! ### Escapes -/

/-- The characters with short escapes, each with the letter that stands for it. -/
def shortEscapes : List (Char × Char) :=
  [('"', '"'), ('\\', '\\'), ('\t', 't'), ('\n', 'n'), ('\r', 'r'), ('\x00', '0')]

/-- A character stands for itself, or it has a short escape, or its number is written. -/
lemma escapeChar_cases (c : Char) :
    escapeChar c = [c] ∧ c ≠ '\\' ∧ c ≠ '"' ∧ c ≠ '\n' ∨
      (∃ letter, (c, letter) ∈ shortEscapes ∧ escapeChar c = ['\\', letter]) ∨
      escapeChar c = '\\' :: 'u' :: '{' :: (hexDigits c.toNat ++ ['}']) := by
  unfold escapeChar
  split_ifs with hquote hslash htab hbreak hreturn hzero hprint
  · exact .inr (.inl ⟨'"', by simp [shortEscapes, hquote], rfl⟩)
  · exact .inr (.inl ⟨'\\', by simp [shortEscapes, hslash], rfl⟩)
  · exact .inr (.inl ⟨'t', by simp [shortEscapes, htab], rfl⟩)
  · exact .inr (.inl ⟨'n', by simp [shortEscapes, hbreak], rfl⟩)
  · exact .inr (.inl ⟨'r', by simp [shortEscapes, hreturn], rfl⟩)
  · have hnul : c = '\x00' := Char.toNat_inj.mp hzero
    exact .inr (.inl ⟨'0', by simp [shortEscapes, hnul], rfl⟩)
  · exact .inl ⟨rfl, hslash, hquote, hbreak⟩
  · exact .inr (.inr rfl)

/-- The escape of a character is no beginning of the escape of another one. -/
lemma escapeChar_append_inj {c c' : Char} {rest rest' : List Char}
    (h : escapeChar c ++ rest = escapeChar c' ++ rest') : c = c' ∧ rest = rest' := by
  have hletters : ∀ p ∈ shortEscapes, ∀ q ∈ shortEscapes, p.2 = q.2 → p.1 = q.1 := by
    decide
  have hnumber : ∀ p ∈ shortEscapes, p.2 ≠ 'u' := by
    decide
  rcases escapeChar_cases c with ⟨hc, hslash, -⟩ | ⟨letter, hmem, hc⟩ | hc <;>
    rcases escapeChar_cases c' with ⟨hc', hslash', -⟩ | ⟨letter', hmem', hc'⟩ | hc' <;>
      rw [hc, hc'] at h <;>
        simp only [List.cons_append, List.nil_append, List.append_assoc, List.cons.injEq] at h
  case inl.inl => exact h
  case inl.inr.inl => exact absurd h.1 hslash
  case inl.inr.inr => exact absurd h.1 hslash
  case inr.inl.inl => exact absurd h.1.symm hslash'
  case inr.inl.inr.inl => exact ⟨hletters _ hmem _ hmem' h.2.1, h.2.2⟩
  case inr.inl.inr.inr => exact absurd h.2.1 (hnumber _ hmem)
  case inr.inr.inl => exact absurd h.1.symm hslash'
  case inr.inr.inr.inl => exact absurd h.2.1.symm (hnumber _ hmem')
  case inr.inr.inr.inr =>
    have hclose : ∀ rest : List Char, ∀ x ∈ ('}' :: rest).head?, isHexDigit x = false := by
      rintro rest x ⟨⟩
      decide
    obtain ⟨hdigits, hrest⟩ := stretch_append_inj isHexDigit_of_mem_hexDigits
      isHexDigit_of_mem_hexDigits (hclose rest) (hclose rest') h.2.2.2
    exact ⟨Char.toNat_inj.mp (hexDigits_injective hdigits), (List.cons.inj hrest).2⟩

lemma head_escapeChar (c : Char) (rest : List Char) :
    ∃ d after, escapeChar c ++ rest = d :: after ∧ d ≠ '"' := by
  rcases escapeChar_cases c with ⟨hc, -, hquote, -⟩ | ⟨letter, -, hc⟩ | hc
  · exact ⟨c, rest, by rw [hc]; rfl, hquote⟩
  · exact ⟨'\\', letter :: rest, by rw [hc]; rfl, by decide⟩
  · exact ⟨'\\', _, by rw [hc]; rfl, by decide⟩

/-- What is escaped ends at the first quote that belongs to no escape. -/
lemma escape_append_inj {text text' rest rest' : List Char}
    (h : escape text ++ '"' :: rest = escape text' ++ '"' :: rest') :
    text = text' ∧ rest = rest' := by
  unfold escape at h
  induction text generalizing text' with
  | nil =>
    cases text' with
    | nil => exact ⟨rfl, (List.cons.inj h).2⟩
    | cons c' text' =>
      rw [List.flatMap_cons, List.append_assoc] at h
      obtain ⟨d, after, he, hd⟩ := head_escapeChar c' (text'.flatMap escapeChar ++ '"' :: rest')
      rw [he] at h
      exact absurd (List.cons.inj h).1.symm hd
  | cons c text ih =>
    cases text' with
    | nil =>
      rw [List.flatMap_cons, List.append_assoc] at h
      obtain ⟨d, after, he, hd⟩ := head_escapeChar c (text.flatMap escapeChar ++ '"' :: rest)
      rw [he] at h
      exact absurd (List.cons.inj h).1 hd
    | cons c' text' =>
      simp only [List.flatMap_cons, List.append_assoc] at h
      obtain ⟨rfl, hrest⟩ := escapeChar_append_inj h
      obtain ⟨rfl, rfl⟩ := ih hrest
      exact ⟨rfl, rfl⟩

lemma toList_quoted (text : String) :
    (quoted text).toList = '"' :: (escape text.toList ++ ['"']) := by
  rw [quoted, String.toList_ofList]

/-- A quoted text is read in one way, whatever follows it. -/
theorem quoted_append_inj {text text' : String} {rest rest' : List Char}
    (h : (quoted text).toList ++ rest = (quoted text').toList ++ rest') :
    text = text' ∧ rest = rest' := by
  simp only [toList_quoted, List.cons_append, List.append_assoc, List.nil_append,
    List.cons.injEq, true_and] at h
  obtain ⟨htext, hrest⟩ := escape_append_inj h
  exact ⟨String.toList_inj.mp htext, hrest⟩

/-- A quoted text has no line feeds. -/
theorem lineFeed_notMem_quoted (text : String) : '\n' ∉ (quoted text).toList := by
  have hshort : ∀ p ∈ shortEscapes, p.2 ≠ '\n' := by
    decide
  have hescape : ∀ c, '\n' ∉ escapeChar c := by
    intro c
    rcases escapeChar_cases c with ⟨hc, -, -, hbreak⟩ | ⟨letter, hmem, hc⟩ | hc <;> rw [hc]
    · simpa using hbreak.symm
    · simpa using (hshort _ hmem).symm
    · intro h
      have hdigit : '\n' ∈ hexDigits c.toNat := by simpa using h
      exact absurd (isHexDigit_of_mem_hexDigits _ hdigit) (by decide)
  rw [toList_quoted]
  intro h
  rcases List.mem_cons.mp h with h | h
  · exact absurd h (by decide)
  rcases List.mem_append.mp h with h | h
  · obtain ⟨c, -, hc⟩ := List.mem_flatMap.mp h
    exact hescape c hc
  · exact absurd h (by decide)

end Scripting.Text
