import Mathlib.Data.List.Basic
import Scripting.CommandLine
import Scripting.Proofs.Console.Lines

/-!
# Texts that are sent as lines

A text that is sent as a line makes as many lines as there are line feeds in it, and one more. Their
characters are sent as bytes, and none of these bytes but the line feeds themselves looks like one.
So the bytes fall into the lines again, and each of them is read as a text.
-/

namespace Scripting

/-! ### Characters as bytes -/

/-- The bytes of characters. -/
def bytesOf (chars : List Char) : List UInt8 :=
  chars.flatMap String.utf8EncodeChar

lemma bytesOf_cons (c : Char) (chars : List Char) :
    bytesOf (c :: chars) = String.utf8EncodeChar c ++ bytesOf chars :=
  List.flatMap_cons

lemma data_toByteArray (text : String) :
    text.toByteArray.data.toList = bytesOf text.toList := by
  rw [← String.ofList_toList (s := text), String.toByteArray_ofList, List.utf8Encode,
    List.data_toByteArray, String.toList_ofList]
  rfl

/-- The bytes of an array from some place on are put in front of those that were taken before. -/
lemma toList_loop (bytes : ByteArray) (i : Nat) (taken : List UInt8) :
    ByteArray.toList.loop bytes i taken = taken.reverse ++ bytes.data.toList.drop i := by
  fun_induction ByteArray.toList.loop bytes i taken with
  | case1 i taken h ih =>
    have hi : i < bytes.data.toList.length := h
    rw [ih, List.drop_eq_getElem_cons hi, List.reverse_cons, List.append_assoc,
      List.singleton_append]
    congr 2
    exact getElem!_pos bytes.data i h
  | case2 i taken h =>
    have hi : bytes.data.toList.length ≤ i := Nat.le_of_not_lt h
    rw [List.drop_eq_nil_of_le hi, List.append_nil]

lemma toUTF8_toList (text : String) : text.toUTF8.toList = bytesOf text.toList := by
  rw [← data_toByteArray, ByteArray.toList, toList_loop]
  rfl

/-- Only the line feed has its byte. -/
lemma eq_of_lineFeed_mem {c : Char} (h : lineFeed ∈ String.utf8EncodeChar c) : c = '\n' := by
  have hval : c.val.toNat = 10 := by
    have hbyte : ∀ n : Nat, lineFeed = UInt8.ofNat n ↔ n % 256 = 10 := by
      intro n
      rw [← UInt8.toNat_inj, UInt8.toNat_ofNat', eq_comm]
      rfl
    unfold String.utf8EncodeChar at h
    dsimp only at h
    split_ifs at h <;>
      simp only [List.mem_cons, List.not_mem_nil, or_false, hbyte] at h <;> omega
  exact Char.ext (UInt32.toNat_inj.mp hval)

lemma lineFeed_notMem_bytesOf {chars : List Char} (h : '\n' ∉ chars) :
    lineFeed ∉ bytesOf chars := by
  intro hmem
  obtain ⟨c, hc, hmem⟩ := List.mem_flatMap.mp hmem
  obtain rfl := eq_of_lineFeed_mem hmem
  exact h hc

/-! ### Lines of texts -/

namespace Text

open CommandLine (joinLines)

/-- The text of a line without one carriage return at its end. -/
def withoutReturn (line : List Char) : String :=
  String.ofList (if line.getLast? = some '\r' then line.dropLast else line)

/-- The lines of a text: what stands before each line feed, without one carriage return there. What
stands behind the last line feed is no line. -/
def lines (text : String) : List String :=
  (text.toList.splitOn '\n').dropLast.map withoutReturn

/-- The lines of texts that are sent as lines, with their carriage returns. -/
def pieces (texts : List String) : List (List Char) :=
  texts.flatMap fun text => text.toList.splitOn '\n'

lemma pieces_append (texts texts' : List String) :
    pieces (texts ++ texts') = pieces texts ++ pieces texts' :=
  List.flatMap_append

lemma newline_notMem_pieces {texts : List String} :
    ∀ line ∈ pieces texts, '\n' ∉ line := by
  have hsplit : ∀ chars : List Char, ∀ line ∈ chars.splitOn '\n', '\n' ∉ line := by
    intro chars
    induction chars with
    | nil => simp
    | cons c chars ih =>
      obtain ⟨first, rest, hlines⟩ := List.exists_cons_of_ne_nil (List.splitOn_ne_nil '\n' chars)
      rw [List.splitOn_cons_eq_if_modifyHead]
      rw [hlines, List.forall_mem_cons] at ih
      split_ifs with hc
      · rw [hlines]
        simpa using ih
      · rw [hlines, List.modifyHead_cons, List.forall_mem_cons, List.mem_cons, not_or]
        exact ⟨⟨fun he => hc (beq_iff_eq.mpr he.symm), ih.1⟩, ih.2⟩
  intro line h
  obtain ⟨text, -, hline⟩ := List.mem_flatMap.mp h
  exact hsplit _ line hline

/-- Sending a text after the others adds its lines. -/
lemma lines_joinLines (texts : List String) :
    lines (joinLines texts) = (pieces texts).map withoutReturn := by
  unfold lines
  congr 1
  induction texts with
  | nil => rfl
  | cons text rest ih =>
    have htext : (joinLines (text :: rest)).toList =
        text.toList ++ '\n' :: (joinLines rest).toList := by
      simp [joinLines]
    rw [htext, List.splitOn_append_cons_self,
      List.dropLast_append_of_ne_nil (List.splitOn_ne_nil _ _), ih, pieces, pieces,
      List.flatMap_cons]

/-- Texts without line feeds that do not end in a carriage return are the lines themselves. -/
lemma lines_joinLines_eq {texts : List String}
    (h : ∀ text ∈ texts, '\n' ∉ text.toList ∧ text.toList.getLast? ≠ some '\r') :
    lines (joinLines texts) = texts := by
  rw [lines_joinLines]
  induction texts with
  | nil => rfl
  | cons text rest ih =>
    rw [List.forall_mem_cons] at h
    have hpieces : pieces (text :: rest) = text.toList :: pieces rest := by
      rw [pieces, pieces, List.flatMap_cons, List.splitOn_eq_singleton h.1.1,
        List.singleton_append]
    rw [hpieces, List.map_cons, ih h.2, withoutReturn, if_neg h.1.2, String.ofList_toList]

end Text

/-! ### Lines of bytes -/

/-- The bytes of lines, each with a line feed behind it. -/
def bytesOfLines (lines : List (List Char)) : List UInt8 :=
  lines.flatMap fun line => bytesOf line ++ [lineFeed]

lemma bytesOfLines_append (lines lines' : List (List Char)) :
    bytesOfLines (lines ++ lines') = bytesOfLines lines ++ bytesOfLines lines' :=
  List.flatMap_append

/-- There is a line feed among the bytes of lines if there is a line at all. -/
lemma lineFeed_mem_bytesOfLines {lines : List (List Char)} :
    lineFeed ∈ bytesOfLines lines ↔ lines ≠ [] := by
  cases lines with
  | nil => simp [bytesOfLines]
  | cons line rest => simp [bytesOfLines]

/-- What is sent for a text is the bytes of its lines. -/
lemma bytesOfLines_splitOn (chars : List Char) :
    bytesOfLines (chars.splitOn '\n') = bytesOf chars ++ [lineFeed] := by
  induction chars with
  | nil => rfl
  | cons c chars ih =>
    rw [List.splitOn_cons_eq_if_modifyHead]
    split_ifs with hc
    · obtain rfl := beq_iff_eq.mp hc
      rw [bytesOfLines, List.flatMap_cons, ← bytesOfLines, ih]
      rfl
    · obtain ⟨line, rest, hlines⟩ := List.exists_cons_of_ne_nil (List.splitOn_ne_nil '\n' chars)
      rw [hlines] at ih ⊢
      rw [List.modifyHead_cons, bytesOf_cons, List.append_assoc, ← ih]
      simp [bytesOfLines, bytesOf_cons]

/-- Bytes are split behind the first line feed. -/
lemma splitLine_of_notMem {line : List UInt8} (h : lineFeed ∉ line) (rest : List UInt8) :
    splitLine (line ++ lineFeed :: rest) = (line ++ [lineFeed], rest) := by
  have hne : ∀ b ∈ line, decide (b ≠ lineFeed) = true := by
    rintro b hb
    exact decide_eq_true fun he => h (he ▸ hb)
  simp only [splitLine, List.takeWhile_append_of_pos hne, List.dropWhile_append_of_pos hne]
  simp

/-- The bytes of a line are a text, and its carriage return is taken off. -/
lemma lineText?_bytesOf (line : List Char) :
    lineText? (bytesOf line ++ [lineFeed]) = some (Text.withoutReturn line) := by
  have hbytes : String.fromUTF8? (bytesOf line ++ [lineFeed]).toByteArray =
      some ((String.ofList line).push '\n') := by
    rw [fromUTF8?_eq_some_iff, bytes_push, data_toByteArray, String.toList_ofList]
    rfl
  rw [lineText?_eq, hbytes, Option.map_some]
  unfold Text.withoutReturn
  split_ifs with hreturn
  · obtain ⟨front, rfl⟩ := List.getLast?_eq_some_iff.mp hreturn
    have hpush : String.ofList (front ++ ['\r']) = (String.ofList front).push '\r' := by
      simp [← String.toList_inj]
    rw [List.dropLast_concat, hpush, withoutLineEnd_push_push]
  · rw [withoutLineEnd_push]
    intro front he
    rw [← String.toList_inj, String.toList_ofList, String.toList_push] at he
    exact hreturn (by rw [he, List.getLast?_concat])

/-- The first of some lines is read, and the others are left. -/
lemma readLine_bytesOfLines {line : List Char} (h : '\n' ∉ line) (rest : List (List Char)) :
    readLine (bytesOfLines (line :: rest)) =
      (.text (Text.withoutReturn line), bytesOfLines rest) := by
  have hbytes : bytesOfLines (line :: rest) = bytesOf line ++ lineFeed :: bytesOfLines rest := by
    rw [bytesOfLines, List.flatMap_cons, List.append_assoc, List.singleton_append]
    rfl
  rw [hbytes, readLine, splitLine_of_notMem (lineFeed_notMem_bytesOf h)]
  · simp only [lineText?_bytesOf]
  · simp

end Scripting
