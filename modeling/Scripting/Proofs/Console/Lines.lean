import Mathlib.Data.List.Basic
import Mathlib.Tactic.Common
import Scripting.Console

/-!
# Lines of input

Bytes fall into raw lines, each of which but the last one ends with its only line feed. Reading
takes them one after the other. A raw line can be decoded before or after its end is taken off:
a byte that is a character by itself is never a part of another one.
-/

namespace Scripting

/-! ### Raw lines -/

/-- The lines that bytes consist of, with their ends. -/
def rawLines : List UInt8 → List (List UInt8)
  | [] => []
  | b :: bytes =>
    if b = lineFeed then [b] :: rawLines bytes
    else
      match rawLines bytes with
      | [] => [[b]]
      | line :: rest => (b :: line) :: rest

section

variable {bytes : List UInt8}

/-- No byte is lost. -/
@[simp] lemma flatten_rawLines (bytes : List UInt8) : (rawLines bytes).flatten = bytes := by
  induction bytes with
  | nil => rfl
  | cons b bytes ih =>
    rw [rawLines]
    split_ifs
    · rw [List.flatten_cons, ih, List.singleton_append]
    · cases h : rawLines bytes with
      | nil =>
        rw [h] at ih
        rw [← ih]
        rfl
      | cons line rest =>
        rw [h] at ih
        rw [← ih]
        rfl

/-- Only the last line may lack its line feed, and none has another one. -/
lemma rawLines_spec {before after : List (List UInt8)} {line : List UInt8}
    (h : rawLines bytes = before ++ line :: after) :
    line ≠ [] ∧ lineFeed ∉ line.dropLast ∧ (after ≠ [] → line.getLast? = some lineFeed) := by
  induction bytes generalizing before line with
  | nil => simp [rawLines] at h
  | cons b bytes ih =>
    rw [rawLines] at h
    split_ifs at h with hb
    · cases before with
      | nil =>
        obtain ⟨rfl, rfl⟩ := List.cons.inj h
        exact ⟨List.cons_ne_nil _ _, List.not_mem_nil, fun _ => congrArg some hb⟩
      | cons first before => exact ih (List.cons.inj h).2
    · cases hrest : rawLines bytes with
      | nil =>
        rw [hrest] at h
        obtain ⟨rfl, rfl, rfl⟩ := by simpa [List.singleton_eq_append_iff] using h
        simp
      | cons first rest =>
        rw [hrest] at h ih
        cases before with
        | nil =>
          obtain ⟨rfl, rfl⟩ := List.cons.inj h
          -- the line that the byte was put in front of
          obtain ⟨hne, hmem, hlast⟩ := ih (List.nil_append _).symm
          refine ⟨List.cons_ne_nil _ _, ?_, fun hafter => ?_⟩
          · rw [List.dropLast_cons_of_ne_nil hne, List.mem_cons, not_or]
            exact ⟨Ne.symm hb, hmem⟩
          · rw [List.getLast?_cons_of_ne_nil hne]
            exact hlast hafter
        | cons first' before =>
          obtain ⟨-, rfl⟩ := List.cons.inj h
          exact @ih (first :: before) line rfl

/-- The first raw line is what is split off. -/
lemma rawLines_of_ne_nil (h : bytes ≠ []) :
    rawLines bytes = (splitLine bytes).1 :: rawLines (splitLine bytes).2 := by
  induction bytes with
  | nil => exact absurd rfl h
  | cons b bytes ih =>
    rw [rawLines]
    split_ifs with hb
    · simp [splitLine, hb]
    · have hsplit : splitLine (b :: bytes) = (b :: (splitLine bytes).1, (splitLine bytes).2) := by
        simp only [splitLine, List.takeWhile_cons, List.dropWhile_cons, hb, ne_eq,
          not_false_eq_true, decide_true, if_true]
        split <;> rfl
      rw [hsplit]
      cases bytes with
      | nil => rfl
      | cons b' bytes => rw [ih (List.cons_ne_nil _ _)]

/-- What is left behind some lines falls into the other lines. -/
lemma rawLines_flatten_drop (bytes : List UInt8) (k : Nat) :
    rawLines ((rawLines bytes).drop k).flatten = (rawLines bytes).drop k := by
  induction k generalizing bytes with
  | zero => rw [List.drop_zero, flatten_rawLines]
  | succ k ih =>
    cases bytes with
    | nil => rfl
    | cons b bytes =>
      rw [rawLines_of_ne_nil (List.cons_ne_nil _ _), List.drop_succ_cons]
      exact ih _

end

/-! ### Decoding -/

/-- A text without its final line feed and without one carriage return right before that. -/
def withoutLineEnd (text : String) : String :=
  match text.toList.reverse with
  | '\n' :: '\r' :: before => String.ofList before.reverse
  | '\n' :: before => String.ofList before.reverse
  | _ => text

section

variable {text : String}

lemma eq_push_of_toList_reverse {c : Char} {before : List Char}
    (h : text.toList.reverse = c :: before) : text = (String.ofList before.reverse).push c := by
  rw [← String.toList_inj, String.toList_push, String.toList_ofList, ← List.reverse_cons, ← h,
    List.reverse_reverse]

lemma withoutLineEnd_of_ne (h : ∀ front, text ≠ String.push front '\n') :
    withoutLineEnd text = text := by
  unfold withoutLineEnd
  split
  · next he => exact absurd (eq_push_of_toList_reverse he) (h _)
  · next he => exact absurd (eq_push_of_toList_reverse he) (h _)
  · rfl

lemma withoutLineEnd_push (h : ∀ front, text ≠ String.push front '\r') :
    withoutLineEnd (text.push '\n') = text := by
  unfold withoutLineEnd
  rw [String.toList_push, List.reverse_append, List.reverse_singleton, List.singleton_append]
  split
  · next he => exact absurd (eq_push_of_toList_reverse (List.cons.inj he).2) (h _)
  · next he =>
    rw [← (List.cons.inj he).2, List.reverse_reverse, String.ofList_toList]
  · next he => exact absurd rfl (he _)

lemma withoutLineEnd_push_push (text : String) :
    withoutLineEnd ((text.push '\r').push '\n') = text := by
  simp [withoutLineEnd]

end

section

variable {bytes : List UInt8} {text : String} {b : UInt8} {c : Char}

lemma fromUTF8?_eq_some_iff :
    String.fromUTF8? bytes.toByteArray = some text ↔ text.toByteArray.data.toList = bytes := by
  have hbytes : text.toByteArray.data.toList = bytes ↔ text.toByteArray = bytes.toByteArray := by
    rw [ByteArray.ext_iff, List.data_toByteArray, ← Array.toList_inj]
  rw [hbytes]
  unfold String.fromUTF8?
  constructor
  · intro h
    split at h
    · obtain rfl := Option.some.inj h
      rfl
    · cases h
  · intro h
    rw [← h]
    exact dif_pos text.isValidUTF8

lemma bytes_push (text : String) (c : Char) : (text.push c).toByteArray.data.toList =
    text.toByteArray.data.toList ++ String.utf8EncodeChar c := by
  simp [List.utf8Encode_singleton]

/-- A byte that is a character by itself is decoded by itself at the end of bytes. -/
lemma fromUTF8?_concat (bytes : List UInt8) (hc : String.utf8EncodeChar c = [b]) :
    String.fromUTF8? (bytes ++ [b]).toByteArray =
      (String.fromUTF8? bytes.toByteArray).map (·.push c) := by
  ext text
  rw [fromUTF8?_eq_some_iff, Option.map_eq_some_iff]
  constructor
  · intro h
    obtain rfl | ⟨front, d, rfl⟩ : text = "" ∨ ∃ front d, text = String.push front d := by
      cases hlist : text.toList.reverse with
      | nil => exact .inl (by simpa using hlist)
      | cons d before => exact .inr ⟨_, d, eq_push_of_toList_reverse hlist⟩
    · simp at h
    · rw [bytes_push] at h
      -- the byte ends the last character, and only the first byte of one is one by itself
      obtain ⟨start, last, hd⟩ :=
        (List.eq_nil_or_concat' (String.utf8EncodeChar d)).resolve_left String.utf8EncodeChar_ne_nil
      rw [hd, ← List.append_assoc] at h
      obtain ⟨hfront, hlast⟩ := List.append_inj' h rfl
      obtain rfl := List.singleton_inj.mp hlast
      have hfirst : last.IsUTF8FirstByte := by
        have hzero : 0 < (String.utf8EncodeChar c).length := by simp [hc]
        simpa [hc] using @UInt8.isUTF8FirstByte_getElem_utf8EncodeChar c 0 hzero
      have hstart : start.length = 0 := by
        have hindex : start.length < (String.utf8EncodeChar d).length := by simp [hd]
        rw [← @UInt8.isUTF8FirstByte_getElem_utf8EncodeChar d start.length hindex]
        simpa [hd] using hfirst
      obtain rfl := List.eq_nil_of_length_eq_zero hstart
      rw [List.append_nil] at hfront
      refine ⟨front, fromUTF8?_eq_some_iff.mpr hfront, ?_⟩
      rw [← String.toByteArray_inj, ByteArray.ext_iff, ← Array.toList_inj, bytes_push, bytes_push,
        hd, hc]
      rfl
  · rintro ⟨front, hfront, rfl⟩
    rw [bytes_push, fromUTF8?_eq_some_iff.mp hfront, hc]

/-- A text ends with such a character only if its bytes end with that byte. -/
lemma ne_push_of_fromUTF8? (hc : String.utf8EncodeChar c = [b])
    (hb : ∀ front, bytes ≠ front ++ [b]) (h : String.fromUTF8? bytes.toByteArray = some text)
    (front : String) : text ≠ front.push c := by
  rintro rfl
  rw [fromUTF8?_eq_some_iff, bytes_push, hc] at h
  exact hb _ h.symm

end

/-- To take the end off a line and decode what is left is to decode the line and to take the end
off the text. -/
theorem lineText?_eq (line : List UInt8) :
    lineText? line = (String.fromUTF8? line.toByteArray).map withoutLineEnd := by
  have hfeed : String.utf8EncodeChar '\n' = [lineFeed] := by decide
  have hreturn : String.utf8EncodeChar '\r' = [carriageReturn] := by decide
  have keep : ∀ {bytes : List UInt8} {change : String → String},
      (∀ text, String.fromUTF8? bytes.toByteArray = some text → change text = text) →
        (String.fromUTF8? bytes.toByteArray).map change = String.fromUTF8? bytes.toByteArray := by
    intro bytes change h
    cases ho : String.fromUTF8? bytes.toByteArray with
    | none => rfl
    | some text => rw [Option.map_some, h text ho]
  by_cases hline : ∃ front, line = front ++ [lineFeed]
  · obtain ⟨front, rfl⟩ := hline
    rw [fromUTF8?_concat front hfeed, Option.map_map]
    by_cases hfront : ∃ before, front = before ++ [carriageReturn]
    · obtain ⟨before, rfl⟩ := hfront
      have hstrip : stripLineEnd (before ++ [carriageReturn] ++ [lineFeed]) = before := by
        simp [stripLineEnd]
      rw [lineText?, hstrip, fromUTF8?_concat before hreturn, Option.map_map, keep]
      exact fun text _ => withoutLineEnd_push_push text
    · push Not at hfront
      have hstrip : stripLineEnd (front ++ [lineFeed]) = front := by
        rcases List.eq_nil_or_concat' front with rfl | ⟨before, b, rfl⟩
        · rfl
        · have hb : b ≠ carriageReturn := fun hb => hfront before (by rw [hb])
          simp [stripLineEnd, hb]
      rw [lineText?, hstrip, keep]
      exact fun text h => withoutLineEnd_push (ne_push_of_fromUTF8? hreturn hfront h)
  · push Not at hline
    have hstrip : stripLineEnd line = line := by
      rcases List.eq_nil_or_concat' line with rfl | ⟨front, b, rfl⟩
      · rfl
      · have hb : b ≠ lineFeed := fun hb => hline front (by rw [hb])
        simp [stripLineEnd, hb]
    rw [lineText?, hstrip, keep]
    exact fun text h => withoutLineEnd_of_ne (ne_push_of_fromUTF8? hfeed hline h)

/-- Reading goes from each raw line to the next one. -/
lemma readLine_flatten_drop (bytes : List UInt8) (k : Nat) :
    readLine ((rawLines bytes).drop k).flatten =
      (match (rawLines bytes)[k]? with
        | none => .ended
        | some line =>
          match (String.fromUTF8? line.toByteArray).map withoutLineEnd with
          | some text => .text text
          | none => .undecodable,
        ((rawLines bytes).drop (k + 1)).flatten) := by
  have hlines := rawLines_flatten_drop bytes k
  generalize ((rawLines bytes).drop k).flatten = rest at hlines
  rw [← List.head?_drop, ← List.tail_drop, ← hlines]
  cases rest with
  | nil => rfl
  | cons b rest =>
    rw [rawLines_of_ne_nil (List.cons_ne_nil b rest)]
    simp only [List.head?_cons, List.tail_cons, flatten_rawLines, readLine, ← lineText?_eq]
    cases lineText? (splitLine (b :: rest)).1 <;> rfl

end Scripting
