import Scripting.Proofs.Token.Joining

/-!
# Scanning over a line break

Outside of a text in quotes, a line break ends whatever was begun: what is found before it, tokens
and faults, is found as if the script ended there, and what is found behind it as if the script
began there, on a later line. So the findings of two scripts with a line break between them are
those of the first and then those of the second.
-/

namespace Scripting

/-- The same token, a number of lines later. -/
abbrev Token.later (count : Nat) : Token → Token :=
  Token.rename ⟨id, (· + count)⟩

/-- The same fault, a number of lines later. -/
def ScanError.later (count : Nat) (e : ScanError) : ScanError :=
  { e with line := e.line + count }

/-- What is wrong with a script that was scanned. -/
def Scan.faults : Except (List ScanError) (List Token) → List ScanError
  | .ok _ => []
  | .error errors => errors

namespace Scan

section

variable (line : Nat) (text : List Char) (tokens : Array Token) (errors : Array ScanError)

/-- What was found before does not matter. -/
lemma scanFrom_behind (before : Array Token) (faults : Array ScanError) :
    scanFrom line text (before ++ tokens) (faults ++ errors) =
      (before ++ (scanFrom line text tokens errors).1,
        faults ++ (scanFrom line text tokens errors).2) := by
  fun_induction scanFrom line text tokens errors with
  | case1 line tokens errors => simp [scanFrom]
  | case2 line tokens errors c rest kind lexeme literal after hitem line' ih =>
    rw [scanFrom_token hitem, ← Array.append_push, ih]
  | case3 line tokens errors c rest skipped after hitem ih => rw [scanFrom_gap hitem, ih]
  | case4 line tokens errors c rest fault skipped after hitem line' ih =>
    rw [scanFrom_fault hitem, ← Array.append_push, ih]

/-- On later lines, the same is found. -/
lemma scanFrom_later (count : Nat) :
    scanFrom (line + count) text (tokens.map (Token.later count))
        (errors.map (ScanError.later count)) =
      ((scanFrom line text tokens errors).1.map (Token.later count),
        (scanFrom line text tokens errors).2.map (ScanError.later count)) := by
  fun_induction scanFrom line text tokens errors with
  | case1 line tokens errors =>
    rw [scanFrom, Array.map_push]
    rfl
  | case2 line tokens errors c rest kind lexeme literal after hitem line' ih =>
    rw [scanFrom_token hitem, ← ih, Array.map_push, Nat.add_right_comm]
    rfl
  | case3 line tokens errors c rest skipped after hitem ih =>
    rw [scanFrom_gap hitem, ← ih, Nat.add_right_comm]
  | case4 line tokens errors c rest fault skipped after hitem line' ih =>
    rw [scanFrom_fault hitem, ← ih, Array.map_push, Nat.add_right_comm]
    rfl

end

variable {line : Nat} {text : List Char} {tokens : Array Token} {errors : Array ScanError}

/-- Faults that were found stay found. -/
lemma mem_scanFrom {e : ScanError} (h : e ∈ errors) : e ∈ (scanFrom line text tokens errors).2 := by
  have hsplit := scanFrom_behind line text tokens #[] #[] errors
  simp only [Array.empty_append, Array.append_empty] at hsplit
  rw [hsplit]
  exact Array.mem_append_left _ h

/-- Behind a line break, the scan of the first text has come to its end. -/
lemma scanFrom_append (more : List Char)
    (h : ∀ e ∈ (scanFrom line text tokens errors).2, e.fault ≠ .unterminatedText) :
    scanFrom line (text ++ '\n' :: more) tokens errors =
      scanFrom (line + (lineBreaks text + 1)) more (scanFrom line text tokens errors).1.pop
        (scanFrom line text tokens errors).2 := by
  fun_induction scanFrom line text tokens errors with
  | case1 line tokens errors =>
    have hbreak : itemAt '\n' more = (.gap ['\n'], more) := rfl
    rw [List.nil_append, scanFrom_gap hbreak, Array.pop_push]
    rfl
  | case2 line tokens errors c rest kind lexeme literal after hitem line' ih =>
    rw [List.cons_append, scanFrom_token (itemAt_append_of_eq more hitem (by simp)), ih h,
      lineBreaks_cons hitem, Nat.add_assoc, ← Nat.add_assoc (lineBreaks _)]
    rfl
  | case3 line tokens errors c rest skipped after hitem ih =>
    rw [List.cons_append, scanFrom_gap (itemAt_append_of_eq more hitem (by simp)), ih h,
      lineBreaks_cons hitem, Nat.add_assoc, ← Nat.add_assoc (lineBreaks _)]
    rfl
  | case4 line tokens errors c rest fault skipped after hitem line' ih =>
    have hfault : fault ≠ .unterminatedText :=
      h ⟨fault, line'⟩ (mem_scanFrom (Array.mem_push_self ..))
    have hjoined := itemAt_append_of_eq more hitem (by rintro _ ⟨⟩; exact hfault rfl)
    rw [List.cons_append, scanFrom_fault hjoined, ih h, lineBreaks_cons hitem, Nat.add_assoc,
      ← Nat.add_assoc (lineBreaks _)]
    rfl

/-- What is found in a script that starts on a line: its tokens up to the end, and its faults. -/
def findings (line : Nat) (text : List Char) : Array Token × Array ScanError :=
  scanFrom line text #[] #[]

/-- The findings of two texts with a line break between them. -/
lemma findings_append (line : Nat) (text more : List Char)
    (h : ∀ e ∈ (findings line text).2, e.fault ≠ .unterminatedText) :
    findings line (text ++ '\n' :: more) =
      ((findings line text).1.pop ++
          (findings line more).1.map (Token.later (lineBreaks text + 1)),
        (findings line text).2 ++
          (findings line more).2.map (ScanError.later (lineBreaks text + 1))) := by
  have hlater := scanFrom_later line more #[] #[] (lineBreaks text + 1)
  have hbehind := scanFrom_behind (line + (lineBreaks text + 1)) more #[] #[]
    (findings line text).1.pop (findings line text).2
  simp only [Array.map_empty] at hlater
  rw [hlater, Array.append_empty, Array.append_empty] at hbehind
  exact (scanFrom_append more h).trans hbehind

/-- A script has tokens if nothing is wrong with it. -/
lemma scan_eq (source : String) : scan source =
    if (findings 1 source.toList).2 = #[] then .ok (findings 1 source.toList).1.toList
    else .error (findings 1 source.toList).2.toList := by
  simp only [scan, Array.isEmpty_iff]
  rfl

lemma faults_scan (source : String) :
    faults (scan source) = (findings 1 source.toList).2.toList := by
  rw [scan_eq]
  split
  · next he => simp [faults, he]
  · rfl

lemma eq_error_of_faults {found : Except (List ScanError) (List Token)} {e : ScanError}
    {errors : List ScanError} (h : faults found = e :: errors) : found = .error (e :: errors) := by
  cases found with
  | ok tokens => cases h
  | error errors' => exact congrArg Except.error h

end Scan

open Scan

/-- **A line break keeps what is before it and what is behind it apart.** Unless the first script
leaves a text open, two scripts with a line break between them have the tokens of the first up to
its end and then those of the second, if there is nothing wrong with either, and else the faults of
the first and then those of the second. What belongs to the second one is as many lines later as
the first one and the line break take. -/
theorem scan_over_line_break {first second : String}
    (h : ∀ errors, scan first = .error errors → ∀ e ∈ errors, e.fault ≠ .unterminatedText) :
    scan (first ++ "\n" ++ second) =
      match scan first, scan second with
      | .ok tokens, .ok tokens' =>
        .ok (tokens.dropLast ++ tokens'.map (Token.later (1 + lineBreaks first.toList)))
      | found, found' =>
        .error (faults found ++
          (faults found').map (ScanError.later (1 + lineBreaks first.toList))) := by
  have hopen : ∀ e ∈ (findings 1 first.toList).2, e.fault ≠ .unterminatedText := by
    intro e he
    have he' : e ∈ faults (scan first) := by
      rw [faults_scan]
      exact Array.mem_toList_iff.mpr he
    cases hscan : scan first with
    | ok tokens =>
      rw [hscan] at he'
      cases he'
    | error errors =>
      rw [hscan] at he'
      exact h errors hscan e he'
  have hjoined := findings_append 1 first.toList second.toList hopen
  have htext : (first ++ "\n" ++ second).toList = first.toList ++ '\n' :: second.toList := by
    simp
  rw [Nat.add_comm 1, scan_eq, htext, hjoined, scan_eq first, scan_eq second]
  by_cases hf : (findings 1 first.toList).2 = #[]
  · by_cases hs : (findings 1 second.toList).2 = #[]
    · simp [hf, hs]
    · simp [hf, hs, faults]
  · by_cases hs : (findings 1 second.toList).2 = #[]
    · simp [hf, hs, faults]
    · simp [hf, hs, faults]

/-- Half of an operator, a comment and a bad character before the line break, and behind it the
other half, and a text that is never closed. -/
theorem scan_over_line_break_faulty :
    let first := "1. # // \"\n!"
    let second := "= \"a\nb"
    (∀ errors, scan first = .error errors → ∀ e ∈ errors, e.fault ≠ .unterminatedText) ∧
      scan (first ++ "\n" ++ second) =
        .error [⟨.unexpectedCharacter, 1⟩, ⟨.unterminatedText, 4⟩] := by
  intro first second
  have hfirst : scan first = .error [⟨.unexpectedCharacter, 1⟩] :=
    eq_error_of_faults (by decide +kernel)
  have hsecond : scan second = .error [⟨.unterminatedText, 2⟩] :=
    eq_error_of_faults (by decide +kernel)
  have hclosed : ∀ errors, scan first = .error errors →
      ∀ e ∈ errors, e.fault ≠ .unterminatedText := by
    rw [hfirst]
    rintro _ ⟨⟩
    decide
  refine ⟨hclosed, ?_⟩
  rw [scan_over_line_break hclosed, hfirst, hsecond]
  have hbreaks : 1 + lineBreaks first.toList = 2 := by
    decide
  rw [hbreaks]
  rfl

end Scripting
