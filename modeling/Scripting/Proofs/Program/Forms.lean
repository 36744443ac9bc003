import Mathlib.Tactic.Common
import Scripting.Program.Printer
import Scripting.Proofs.Text.Quoted

/-!
# Written forms

What is printed for a program is made of words and quoted texts, with brackets around forms that
belong together and blanks between them. Words have no brackets, blanks or quotes in them, so that a
text is the text of one form only, and of none with a line feed.
-/

namespace Scripting

/-- A written form: a word, a quoted text, or forms in parentheses or braces. -/
inductive Form where
  | word (w : String)
  | quoted (text : String)
  | round (parts : List Form)
  | curly (parts : List Form)

namespace Form

mutual

/-- How a form is written. -/
def text : Form → String
  | .word w => w
  | .quoted s => Text.quoted s
  | .round parts => parenthesized (texts parts)
  | .curly parts => braced (texts parts)

/-- How forms are written, one by one. -/
def texts : List Form → List String
  | [] => []
  | f :: fs => f.text :: texts fs

end

/-- The characters that are not in words. -/
def delimiters : List Char :=
  [' ', '\n', '(', ')', '{', '}', '"']

/-- A word has some characters, and no delimiters. -/
def IsWord (w : String) : Prop :=
  w.toList ≠ [] ∧ ∀ c ∈ w.toList, c ∉ delimiters

instance (w : String) : Decidable (IsWord w) :=
  decidable_of_iff (w.toList ≠ [] ∧ w.toList.all fun c => c ∉ delimiters)
    (by simp [IsWord])

/-- The words of a form are words. -/
inductive WellFormed : Form → Prop
  | word {w : String} : IsWord w → WellFormed (.word w)
  | quoted (s : String) : WellFormed (.quoted s)
  | round {parts : List Form} : (∀ f ∈ parts, f.WellFormed) → WellFormed (.round parts)
  | curly {parts : List Form} : (∀ f ∈ parts, f.WellFormed) → WellFormed (.curly parts)

/-! ### The characters of forms -/

/-- The characters of forms with blanks between them. -/
def characters (fs : List Form) : List Char :=
  (spaced (texts fs)).toList

lemma characters_nil : characters [] = [] := by
  simp [characters, texts, spaced]

lemma characters_singleton (f : Form) : characters [f] = f.text.toList := by
  simp [characters, texts, spaced]

lemma characters_cons_cons (f g : Form) (fs : List Form) :
    characters (f :: g :: fs) = f.text.toList ++ ' ' :: characters (g :: fs) := by
  simp [characters, texts, spaced, String.intercalate_cons_cons]

lemma toList_round (fs : List Form) :
    (text (.round fs)).toList = '(' :: (characters fs ++ [')']) := by
  simp [text, parenthesized, characters]

lemma toList_curly (fs : List Form) :
    (text (.curly fs)).toList = '{' :: (characters fs ++ ['}']) := by
  simp [text, braced, characters]

lemma toList_quoted (s : String) :
    (text (.quoted s)).toList = '"' :: (Text.escape s.toList ++ ['"']) := by
  rw [text, Text.toList_quoted]

/-- What a form starts with, if it is no word. -/
def opener : Form → Option Char
  | .word _ => none
  | .quoted _ => '"'
  | .round _ => '('
  | .curly _ => '{'

/-- A form starts with its opener or as a word does. -/
lemma WellFormed.exists_head {f : Form} (h : f.WellFormed) :
    ∃ c rest, f.text.toList = c :: rest ∧ c ∉ [' ', '\n', ')', '}'] ∧
      f.opener = if c ∈ delimiters then some c else none := by
  cases h with
  | @word w hw =>
    obtain ⟨c, rest, hc⟩ := List.exists_cons_of_ne_nil hw.1
    have hdelimiter := hw.2 c (by simp [hc])
    refine ⟨c, rest, hc, fun hmem => hdelimiter ?_, (if_neg hdelimiter).symm⟩
    have hsub : [' ', '\n', ')', '}'] ⊆ delimiters := by decide
    exact hsub hmem
  | quoted s => exact ⟨_, _, toList_quoted s, by decide, (if_pos (by decide)).symm⟩
  | round _ => exact ⟨_, _, toList_round _, by decide, (if_pos (by decide)).symm⟩
  | curly _ => exact ⟨_, _, toList_curly _, by decide, (if_pos (by decide)).symm⟩

/-- Forms with the same text start alike. -/
lemma opener_eq {f g : Form} (hf : f.WellFormed) (hg : g.WellFormed) {rest rest' : List Char}
    (h : f.text.toList ++ rest = g.text.toList ++ rest') : f.opener = g.opener := by
  obtain ⟨c, tail, hhead, -, hopener⟩ := hf.exists_head
  obtain ⟨c', tail', hhead', -, hopener'⟩ := hg.exists_head
  rw [hhead, hhead'] at h
  obtain rfl : c = c' := (List.cons.inj h).1
  rw [hopener, hopener']

/-! ### Line feeds -/

lemma lineFeed_notMem_characters {fs : List Form} (h : ∀ f ∈ fs, '\n' ∉ f.text.toList) :
    '\n' ∉ characters fs := by
  induction fs with
  | nil => simp [characters_nil]
  | cons f fs ih =>
    rw [List.forall_mem_cons] at h
    cases fs with
    | nil => simpa [characters_singleton] using h.1
    | cons g fs =>
      rw [characters_cons_cons]
      simp [h.1, ih h.2]

/-- A form takes one line. -/
theorem WellFormed.lineFeed_notMem {f : Form} (h : f.WellFormed) : '\n' ∉ f.text.toList := by
  induction h with
  | word hw => exact fun hmem => hw.2 _ hmem (by decide)
  | quoted s => exact Text.lineFeed_notMem_quoted s
  | round _ ih =>
    rw [toList_round]
    simp [lineFeed_notMem_characters ih]
  | curly _ ih =>
    rw [toList_curly]
    simp [lineFeed_notMem_characters ih]

/-! ### One reading -/

/-- What can follow a form. -/
def Ends (rest : List Char) : Prop :=
  ∀ c ∈ rest.head?, c ∈ [' ', ')', '}']

/-- No other form, and no other way on, has the same text. -/
def ReadsOnce (f : Form) : Prop :=
  ∀ g : Form, g.WellFormed → ∀ rest rest', Ends rest → Ends rest' →
    f.text.toList ++ rest = g.text.toList ++ rest' → f = g ∧ rest = rest'

/-- What comes behind the first form of a list: a blank and the other forms, if there are any. -/
def behind (fs : List Form) (rest : List Char) : List Char :=
  if fs = [] then rest else ' ' :: (characters fs ++ rest)

lemma characters_cons_append (f : Form) (fs : List Form) (rest : List Char) :
    characters (f :: fs) ++ rest = f.text.toList ++ behind fs rest := by
  cases fs with
  | nil => simp [characters_singleton, behind]
  | cons g fs => simp [characters_cons_cons, behind]

lemma ends_behind {fs : List Form} {rest : List Char} (h : Ends rest) : Ends (behind fs rest) := by
  unfold behind
  split_ifs
  · exact h
  · rintro c ⟨⟩
    decide

/-- A closing bracket is not the beginning of forms. -/
lemma close_ne_characters {close : Char} (hclose : close ∈ [')', '}']) {f : Form}
    (hf : f.WellFormed) (fs : List Form) (rest rest' : List Char) :
    close :: rest ≠ characters (f :: fs) ++ rest' := by
  intro h
  obtain ⟨c, tail, hhead, hc, -⟩ := hf.exists_head
  rw [characters_cons_append, hhead] at h
  have hsub : [')', '}'] ⊆ [' ', '\n', ')', '}'] := by decide
  exact hc ((List.cons.inj h).1 ▸ hsub hclose)

/-- Forms with blanks between them end at the bracket that is not theirs. -/
lemma characters_append_inj {fs gs : List Form} (hf : ∀ f ∈ fs, f.WellFormed)
    (hreads : ∀ f ∈ fs, f.ReadsOnce) (hg : ∀ g ∈ gs, g.WellFormed) {close : Char}
    (hclose : close ∈ [')', '}']) {rest rest' : List Char}
    (h : characters fs ++ close :: rest = characters gs ++ close :: rest') :
    fs = gs ∧ rest = rest' := by
  have hend : ∀ rest, Ends (close :: rest) := by
    rintro rest c ⟨⟩
    exact List.mem_cons_of_mem _ hclose
  have hne : close ≠ ' ' := by
    rintro rfl
    exact absurd hclose (by decide)
  induction fs generalizing gs with
  | nil =>
    cases gs with
    | nil => simpa [characters_nil] using h
    | cons g gs =>
      rw [characters_nil, List.nil_append] at h
      exact absurd h (close_ne_characters hclose (List.forall_mem_cons.mp hg).1 _ _ _)
  | cons f fs ih =>
    rw [List.forall_mem_cons] at hf hreads
    cases gs with
    | nil =>
      rw [characters_nil, List.nil_append] at h
      exact absurd h.symm (close_ne_characters hclose hf.1 _ _ _)
    | cons g gs =>
      rw [List.forall_mem_cons] at hg
      rw [characters_cons_append, characters_cons_append] at h
      obtain ⟨rfl, hbehind⟩ :=
        hreads.1 g hg.1 _ _ (ends_behind (hend _)) (ends_behind (hend _)) h
      unfold behind at hbehind
      split_ifs at hbehind with hfs hgs hgs
      · subst hfs hgs
        exact ⟨rfl, (List.cons.inj hbehind).2⟩
      · exact absurd (List.cons.inj hbehind).1 hne
      · exact absurd (List.cons.inj hbehind).1.symm hne
      · obtain ⟨rfl, hrest⟩ := ih hf.2 hreads.2 hg.2 (List.cons.inj hbehind).2
        exact ⟨rfl, hrest⟩

lemma isWord_append_inj {w w' : String} (hw : IsWord w) (hw' : IsWord w')
    {rest rest' : List Char} (hrest : Ends rest) (hrest' : Ends rest')
    (h : w.toList ++ rest = w'.toList ++ rest') : w = w' ∧ rest = rest' := by
  have hsub : [' ', ')', '}'] ⊆ delimiters := by decide
  have hstop : ∀ {rest}, Ends rest → ∀ c ∈ rest.head?, decide (c ∉ delimiters) = false :=
    fun he c hc => decide_eq_false (not_not_intro (hsub (he c hc)))
  obtain ⟨hchars, hrest⟩ := Text.stretch_append_inj (p := fun c => decide (c ∉ delimiters))
    (fun c hc => decide_eq_true (hw.2 c hc)) (fun c hc => decide_eq_true (hw'.2 c hc))
    (hstop hrest) (hstop hrest') h
  exact ⟨String.toList_inj.mp hchars, hrest⟩

/-- A text is the text of one form only. -/
theorem WellFormed.readsOnce {f : Form} (h : f.WellFormed) : f.ReadsOnce := by
  induction h with
  | word hw =>
    intro g hg rest rest' hrest hrest' heq
    have hopener := opener_eq (.word hw) hg heq
    cases hg with
    | word hw' =>
      obtain ⟨rfl, he⟩ := isWord_append_inj hw hw' hrest hrest' heq
      exact ⟨rfl, he⟩
    | _ => cases hopener
  | quoted s =>
    intro g hg rest rest' _ _ heq
    have hopener := opener_eq (.quoted s) hg heq
    cases hg with
    | quoted s' =>
      obtain ⟨rfl, he⟩ := Text.quoted_append_inj heq
      exact ⟨rfl, he⟩
    | _ => cases hopener
  | @round parts hparts ih =>
    intro g hg rest rest' _ _ heq
    have hopener := opener_eq (.round hparts) hg heq
    cases hg with
    | round hparts' =>
      simp only [toList_round, List.cons_append, List.append_assoc, List.nil_append,
        List.cons.injEq, true_and] at heq
      obtain ⟨rfl, he⟩ := characters_append_inj hparts ih hparts' (by decide) heq
      exact ⟨rfl, he⟩
    | _ => cases hopener
  | @curly parts hparts ih =>
    intro g hg rest rest' _ _ heq
    have hopener := opener_eq (.curly hparts) hg heq
    cases hg with
    | curly hparts' =>
      simp only [toList_curly, List.cons_append, List.append_assoc, List.nil_append,
        List.cons.injEq, true_and] at heq
      obtain ⟨rfl, he⟩ := characters_append_inj hparts ih hparts' (by decide) heq
      exact ⟨rfl, he⟩
    | _ => cases hopener

/-- Forms with the same text are the same. -/
theorem WellFormed.text_inj {f g : Form} (hf : f.WellFormed) (hg : g.WellFormed)
    (h : f.text = g.text) : f = g :=
  (hf.readsOnce g hg [] [] nofun nofun (by rw [h])).1

/-- A form takes one line in a list, too. -/
lemma lineFeed_notMem_texts {fs : List Form} (h : ∀ f ∈ fs, f.WellFormed) :
    ∀ line ∈ texts fs, '\n' ∉ line.toList := by
  induction fs with
  | nil => simp [texts]
  | cons f fs ih =>
    rw [List.forall_mem_cons] at h
    rw [texts, List.forall_mem_cons]
    exact ⟨h.1.lineFeed_notMem, ih h.2⟩

/-- Lists of forms with the same texts are the same. -/
theorem texts_inj {fs gs : List Form} (hf : ∀ f ∈ fs, f.WellFormed)
    (hg : ∀ g ∈ gs, g.WellFormed) (h : texts fs = texts gs) : fs = gs := by
  induction fs generalizing gs with
  | nil =>
    cases gs with
    | nil => rfl
    | cons g gs => cases h
  | cons f fs ih =>
    cases gs with
    | nil => cases h
    | cons g gs =>
      rw [List.forall_mem_cons] at hf hg
      obtain ⟨htext, htexts⟩ := List.cons.inj h
      rw [hf.1.text_inj hg.1 htext, ih hf.2 hg.2 htexts]

end Form

end Scripting
