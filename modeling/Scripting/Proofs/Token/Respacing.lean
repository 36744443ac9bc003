import Scripting.Proofs.Token.Lexemes

/-!
# Lexemes with other gaps between them

A lexeme is read back as the token that it was read as, whatever stands behind it, as long as that
begins with a blank or a line break. So the gaps of a script carry no meaning: put one blank or line
break between each two of its lexemes instead, and the same tokens come out.
-/

namespace Scripting

namespace Scan

/-- The blanks, and the line break. -/
def blanks : List Char :=
  [' ', '\t', '\r', '\n']

/-- A text that begins with a blank or a line break, if it has anything in it. -/
def Separated (rest : List Char) : Prop :=
  ∀ c ∈ rest.head?, c ∈ blanks

lemma separated_nil : Separated [] := by
  simp [Separated]

lemma separated_cons {c : Char} (h : c ∈ blanks) (rest : List Char) : Separated (c :: rest) := by
  simpa [Separated] using h

lemma Separated.ne_cons {rest : List Char} (h : Separated rest) {d : Char} (hd : d ∉ blanks)
    (after : List Char) : rest ≠ d :: after := by
  rintro rfl
  exact hd (h d rfl)

lemma itemAt_blank {c : Char} (h : c ∈ blanks) (rest : List Char) :
    itemAt c rest = (.gap [c], rest) := by
  simp only [blanks, List.mem_cons, List.not_mem_nil, or_false] at h
  rcases h with rfl | rfl | rfl | rfl <;> rfl

section

variable {p : Char → Bool} {chars rest : List Char}

/-- Characters of a class that no blank belongs to end at a separator. -/
lemma takeWhile_separated (hp : ∀ c ∈ blanks, p c = false) (h : Separated rest)
    (hc : ∀ c ∈ chars, p c) : (chars ++ rest).takeWhile p = chars := by
  rw [List.takeWhile_append_of_pos hc]
  cases rest with
  | nil => simp
  | cons d rest => simp [hp d (h d rfl)]

lemma dropWhile_separated (hp : ∀ c ∈ blanks, p c = false) (h : Separated rest)
    (hc : ∀ c ∈ chars, p c) : (chars ++ rest).dropWhile p = rest := by
  rw [List.dropWhile_append_of_pos hc]
  cases rest with
  | nil => rfl
  | cons d rest => simp [hp d (h d rfl)]

end

/-! ### Lexemes are read back -/

section

variable {rest : List Char} (h : Separated rest)

include h

lemma symbolOr_separated {second : Char} (hs : second ∉ blanks) (long short : TokenKind)
    (c : Char) : symbolOr second long short c rest = (.token short [c] none, rest) := by
  cases rest with
  | nil => rfl
  | cons d rest =>
    have hd : d ≠ second := fun he => h.ne_cons hs rest (by rw [he])
    rw [symbolOr, if_neg hd]

lemma question_separated (c : Char) : question c rest = (.token .question [c] none, rest) := by
  unfold question
  split
  · exact absurd rfl (h.ne_cons (by decide) _)
  · exact absurd rfl (h.ne_cons (by decide) _)
  · rfl

lemma slash_separated (c : Char) : slash c rest = (.token .slash [c] none, rest) := by
  unfold slash
  split
  · exact absurd rfl (h.ne_cons (by decide) _)
  · rfl

/-- A symbol is read back: neither the end of the text nor a blank makes a longer one of it. -/
lemma itemAt_symbol {spelling : String} {kind : TokenKind} (hs : (spelling, kind) ∈ symbols)
    {c : Char} {chars : List Char} (hc : spelling.toList = c :: chars) :
    itemAt c (chars ++ rest) = (.token kind (c :: chars) none, rest) := by
  have table : ∀ p ∈ symbols, ∀ c chars, p.1.toList = c :: chars →
      itemAt c (chars ++ rest) = (.token p.2 (c :: chars) none, rest) := by
    simp only [symbols, List.forall_mem_cons, List.not_mem_nil, IsEmpty.forall_iff, implies_true,
      and_true]
    and_intros
    all_goals
      rintro _ _ ⟨⟩
      first
        | rfl
        | exact symbolOr_separated h (by decide) _ _ _
        | exact question_separated h _
        | exact slash_separated h _
  exact table _ hs c chars hc

lemma itemAt_word {c : Char} {chars : List Char} (hc : isWordStart c)
    (hchars : ∀ d ∈ chars, isWordRest d) : itemAt c (chars ++ rest) =
      (.token (.ofWord (String.ofList (c :: chars))) (c :: chars) none, rest) := by
  have hblank : ∀ d ∈ blanks, isWordRest d = false := by
    simp only [blanks, List.mem_cons, List.not_mem_nil, or_false, forall_eq_or_imp, forall_eq]
    decide
  have hword : itemAt c (chars ++ rest) = word c (chars ++ rest) := by
    have hd : ¬ c.isDigit := fun hd => not_isWordStart_of_isDigit hd hc
    unfold itemAt
    split
    case h_23 => rw [if_neg hd, if_pos hc]
    all_goals exact absurd hc (by decide)
  rw [hword, word, takeWhile_separated hblank h hchars, dropWhile_separated hblank h hchars]

/-- Digits, with a point and digits behind them or without, are read back. -/
lemma itemAt_number {c : Char} {whole : List Char} (hc : c.isDigit)
    (hwhole : ∀ d ∈ whole, d.isDigit) :
    itemAt c (whole ++ rest) = (.token .number (c :: whole)
      (some (.number (Decimal.ofDigits (c :: whole) []))), rest) ∧
    ∀ fraction, fraction ≠ [] → (∀ d ∈ fraction, d.isDigit) →
      itemAt c (whole ++ '.' :: fraction ++ rest) =
        (.token .number (c :: (whole ++ '.' :: fraction))
          (some (.number (Decimal.ofDigits (c :: whole) fraction))), rest) := by
  have hblank : ∀ d ∈ blanks, d.isDigit = false := by
    simp only [blanks, List.mem_cons, List.not_mem_nil, or_false, forall_eq_or_imp, forall_eq]
    decide
  have hnumber : ∀ text, itemAt c text = number c text := by
    intro text
    unfold itemAt
    split
    case h_23 => rw [if_pos hc]
    all_goals exact absurd hc (by decide)
  constructor
  · rw [hnumber, number, takeWhile_separated hblank h hwhole, dropWhile_separated hblank h hwhole]
    split
    · exact absurd rfl (h.ne_cons (by decide) _)
    · rfl
  · intro fraction hne hfraction
    obtain ⟨d, fraction, rfl⟩ := List.exists_cons_of_ne_nil hne
    rw [List.forall_mem_cons] at hfraction
    rw [hnumber, number, List.append_assoc, List.takeWhile_append_of_pos hwhole,
      List.dropWhile_append_of_pos hwhole]
    simp only [List.cons_append, List.takeWhile_cons_of_neg (show ¬ Char.isDigit '.' by decide),
      List.dropWhile_cons_of_neg (show ¬ Char.isDigit '.' by decide), if_pos hfraction.1,
      takeWhile_separated hblank h hfraction.2, dropWhile_separated hblank h hfraction.2,
      List.append_nil]

end

lemma itemAt_text {body : List Char} (h : '"' ∉ body) (rest : List Char) :
    itemAt '"' (body ++ ['"'] ++ rest) =
      (.token .textLiteral ('"' :: (body ++ ['"'])) (some (.text (String.ofList body))), rest) := by
  have hbody : ∀ d ∈ body, decide (d ≠ '"') = true := by
    intro d hd
    refine decide_eq_true ?_
    rintro rfl
    exact h hd
  show quote '"' (body ++ ['"'] ++ rest) = _
  rw [List.append_assoc]
  simp only [quote, List.takeWhile_append_of_pos hbody, List.dropWhile_append_of_pos hbody]
  simp

lemma ofWord_of_mem_keywords {p : String × TokenKind} (h : p ∈ keywords) :
    TokenKind.ofWord p.1 = p.2 := by
  have table : ∀ p ∈ keywords, TokenKind.ofWord p.1 = p.2 := by
    decide
  exact table p h

lemma ofWord_of_notMem_keywords {word : String} (h : word ∉ keywords.map Prod.fst) :
    TokenKind.ofWord word = .identifier := by
  by_contra hk
  exact h (List.mem_map_of_mem (f := Prod.fst) (TokenKind.mem_keywords_of_ofWord rfl hk))

namespace Lexeme

variable {kind : TokenKind} {chars : List Char} {literal : Option Literal}

/-- A lexeme in front of a separator is read as what it belongs to. -/
theorem read_back (hl : Lexeme kind chars literal) :
    ∃ c cs, chars = c :: cs ∧ ∀ rest, Separated rest →
      itemAt c (cs ++ rest) = (.token kind chars literal, rest) := by
  cases hl with
  | @symbol spelling kind hs =>
    have hne : ∀ p ∈ symbols, p.1.toList ≠ [] := by
      decide
    obtain ⟨c, cs, hc⟩ := List.exists_cons_of_ne_nil (hne _ hs)
    refine ⟨c, cs, hc, fun rest hrest => ?_⟩
    rw [itemAt_symbol hrest hs hc, hc]
  | @keyword spelling kind hk =>
    have hne : ∀ p ∈ keywords, p.1.toList ≠ [] := by
      decide
    obtain ⟨c, cs, hc⟩ := List.exists_cons_of_ne_nil (hne _ hk)
    obtain ⟨hstart, hword⟩ := isWord_of_mem_keywords hk hc
    refine ⟨c, cs, hc, fun rest hrest => ?_⟩
    have hspelling : String.ofList (c :: cs) = spelling := by
      rw [← hc, String.ofList_toList]
    rw [itemAt_word hrest hstart hword, hspelling, ofWord_of_mem_keywords hk, hc]
  | @identifier c cs hc hcs hne =>
    refine ⟨c, cs, rfl, fun rest hrest => ?_⟩
    rw [itemAt_word hrest hc hcs, ofWord_of_notMem_keywords hne]
  | @text body hbody => exact ⟨'"', body ++ ['"'], rfl, fun rest _ => itemAt_text hbody rest⟩
  | whole hne hdigits =>
    obtain ⟨c, cs, rfl⟩ := List.exists_cons_of_ne_nil hne
    rw [List.forall_mem_cons] at hdigits
    exact ⟨c, cs, rfl, fun rest hrest => (itemAt_number hrest hdigits.1 hdigits.2).1⟩
  | @decimal whole fraction hne hwhole hne' hfraction =>
    obtain ⟨c, cs, rfl⟩ := List.exists_cons_of_ne_nil hne
    rw [List.forall_mem_cons] at hwhole
    exact ⟨c, cs ++ '.' :: fraction, rfl, fun rest hrest =>
      (itemAt_number hrest hwhole.1 hwhole.2).2 fraction hne' hfraction⟩

end Lexeme

/-! ### Texts with one separator at a time -/

/-- The lexemes of tokens with a separator between each two of them. -/
def respaced (separator : Nat → Char) : List Token → List Char
  | [] => []
  | [t] => t.lexeme.toList
  | t :: next :: rest =>
    t.lexeme.toList ++ separator 0 :: respaced (fun i => separator (i + 1)) (next :: rest)

/-- What a token says, apart from its place. -/
def content (t : Token) : TokenKind × String × Option Literal :=
  (t.kind, t.lexeme, t.literal)

lemma scans_respaced {tokens : List Token}
    (h : ∀ t ∈ tokens, Lexeme t.kind t.lexeme.toList t.literal) (line : Nat)
    {separator : Nat → Char} (hs : ∀ i, separator i ∈ blanks) :
    ∃ found last, Scans line (respaced separator tokens) (found ++ [Token.endAt last]) ∧
      found.map content = tokens.map content := by
  induction tokens generalizing line separator with
  | nil => exact ⟨[], line, .done line, rfl⟩
  | cons t tokens ih =>
    rw [List.forall_mem_cons] at h
    obtain ⟨c, cs, hc, hread⟩ := h.1.read_back
    let first : Token := ⟨t.kind, t.lexeme, t.literal, line + lineBreaks t.lexeme.toList⟩
    have hfirst : (⟨t.kind, String.ofList t.lexeme.toList, t.literal,
        line + lineBreaks t.lexeme.toList⟩ : Token) = first := by
      rw [String.ofList_toList]
    cases tokens with
    | nil =>
      have hitem := hread [] separated_nil
      have hscans := Scans.token hitem (.done (line + lineBreaks t.lexeme.toList))
      rw [hfirst, List.append_nil, ← hc] at hscans
      exact ⟨[first], _, hscans, rfl⟩
    | cons next rest =>
      have hshifted : ∀ i, (fun i => separator (i + 1)) i ∈ blanks := fun i => hs (i + 1)
      obtain ⟨found, last, hrest, hcontent⟩ :=
        ih h.2 (line + lineBreaks t.lexeme.toList + lineBreaks [separator 0]) hshifted
      have hitem := hread (separator 0 :: respaced (fun i => separator (i + 1)) (next :: rest))
        (separated_cons (hs 0) _)
      have hscans := Scans.token hitem (.gap (itemAt_blank (hs 0) _) hrest)
      rw [hfirst, ← List.cons_append, ← hc] at hscans
      refine ⟨first :: found, last, hscans, ?_⟩
      rw [List.map_cons, hcontent]
      rfl

end Scan

open Scan

/-- **Gaps carry no meaning.** Whatever stands between the lexemes of a script without faults, put
one blank or line break there instead, any one between each two of them: the script that comes out
has no faults, and the same tokens in the same order, which may be on other lines. -/
theorem scan_respaced {source : String} {tokens : List Token} (h : scan source = .ok tokens) :
    ∃ lexemes last, tokens = lexemes ++ [.endAt last] ∧
      ∀ separator : Nat → Char, (∀ i, separator i ∈ [' ', '\t', '\r', '\n']) →
        ∃ found last', scan (String.ofList (respaced separator lexemes)) =
            .ok (found ++ [.endAt last']) ∧
          found.map content = lexemes.map content := by
  obtain ⟨gap, pieces, hsource, htokens, -, hfits⟩ := (scan_eq_ok_iff.mp h).exists_pieces
  refine ⟨pieces.map Piece.token, _, htokens, fun separator hs => ?_⟩
  have hlexemes : ∀ t ∈ pieces.map Piece.token, Lexeme t.kind t.lexeme.toList t.literal := by
    intro t ht
    obtain ⟨p, hp, rfl⟩ := List.mem_map.mp ht
    obtain ⟨front, back, he⟩ := List.append_of_mem hp
    exact (hfits front p back he).lexeme
  obtain ⟨found, last', hscans, hcontent⟩ := scans_respaced hlexemes 1 hs
  refine ⟨found, last', ?_, hcontent⟩
  rw [scan_eq_ok_iff, String.toList_ofList]
  exact hscans

/-- A comment is lost, and what looks like one in a text is kept; a number stays apart from the
points around it. -/
theorem scan_respaced_comment :
    let source := "k?:\"x // \ny\"//z\n1.5.k"
    let separator : Nat → Char := fun i => if i % 2 = 0 then '\n' else '\t'
    ∃ tokens, scan source = .ok tokens ∧ (∀ i, separator i ∈ [' ', '\t', '\r', '\n']) ∧
      ∃ found last', scan "k\n?:\t\"x // \ny\"\n1.5\t.\nk" = .ok (found ++ [.endAt last']) ∧
        found.map content = tokens.dropLast.map content := by
  intro source separator
  have htext : (scan source).toOption.map
      (fun tokens => String.ofList (respaced separator tokens.dropLast)) =
        some "k\n?:\t\"x // \ny\"\n1.5\t.\nk" := by
    decide +kernel
  have hblank : ∀ i, separator i ∈ [' ', '\t', '\r', '\n'] := by
    intro i
    simp only [separator]
    split <;> simp
  cases hscan : scan source with
  | error errors =>
    rw [hscan] at htext
    cases htext
  | ok tokens =>
    obtain ⟨lexemes, last, rfl, hrespaced⟩ := scan_respaced hscan
    obtain ⟨found, last', hfound, hcontent⟩ := hrespaced separator hblank
    rw [hscan] at htext
    have htext := Option.some.inj htext
    beta_reduce at htext
    rw [List.dropLast_concat] at htext
    rw [htext] at hfound
    refine ⟨_, rfl, hblank, found, last', hfound, ?_⟩
    rw [hcontent, List.dropLast_concat]

end Scripting
