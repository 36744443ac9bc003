import Mathlib.Data.List.TakeWhile
import Mathlib.Tactic.Common
import Scripting.Proofs.Token.Joining

/-!
# A text and its lexemes

`Lexeme` says which texts belong to which kind of token, and `IsGap` what may stand between two of
them. A text without faults is cut into gaps and lexemes with nothing lost in between, and each
lexeme is as long as it can be: what follows it never makes a longer one.
-/

namespace Scripting

namespace Scan

/-- The symbols with their spellings. -/
def symbols : List (String × TokenKind) :=
  [("(", .leftParen), (")", .rightParen), ("\x7b", .leftBrace), ("\x7d", .rightBrace),
   (",", .comma), (".", .dot), ("-", .minus), ("+", .plus), (";", .semicolon), ("/", .slash),
   ("*", .star), ("?", .question), (":", .colon), ("!", .bang), ("!=", .bangEqual), ("=", .equal),
   ("==", .equalEqual), (">", .greater), (">=", .greaterEqual), ("<", .less), ("<=", .lessEqual),
   ("?:", .elvis), ("?.", .questionDot)]

/-- The texts of a kind of token, each with the literal it stands for. -/
inductive Lexeme : TokenKind → List Char → Option Literal → Prop
  | symbol {spelling : String} {kind : TokenKind} :
    (spelling, kind) ∈ symbols → Lexeme kind spelling.toList none
  | keyword {spelling : String} {kind : TokenKind} :
    (spelling, kind) ∈ keywords → Lexeme kind spelling.toList none
  | identifier {c : Char} {rest : List Char} :
    isWordStart c → (∀ d ∈ rest, isWordRest d) →
      String.ofList (c :: rest) ∉ keywords.map Prod.fst → Lexeme .identifier (c :: rest) none
  | text {body : List Char} :
    '"' ∉ body →
      Lexeme .textLiteral ('"' :: (body ++ ['"'])) (some (.text (String.ofList body)))
  | whole {digits : List Char} :
    digits ≠ [] → (∀ d ∈ digits, d.isDigit) →
      Lexeme .number digits (some (.number (Decimal.ofDigits digits [])))
  | decimal {whole fraction : List Char} :
    whole ≠ [] → (∀ d ∈ whole, d.isDigit) → fraction ≠ [] → (∀ d ∈ fraction, d.isDigit) →
      Lexeme .number (whole ++ '.' :: fraction)
        (some (.number (Decimal.ofDigits whole fraction)))

/-- A stretch without meaning before the rest of a text: blanks, line breaks, and comments that run
to the end of their line. -/
inductive IsGap : List Char → List Char → Prop
  | nil (rest : List Char) : IsGap [] rest
  | blank {c : Char} {gap rest : List Char} :
    c ∈ [' ', '\t', '\r', '\n'] → IsGap gap rest → IsGap (c :: gap) rest
  | comment {body gap rest : List Char} :
    '\n' ∉ body → (∀ c ∈ (gap ++ rest).head?, c = '\n') → IsGap gap rest →
      IsGap ('/' :: '/' :: (body ++ gap)) rest

/-- No beginning of the rest makes a lexeme longer. -/
def Longest (lexeme rest : List Char) : Prop :=
  ∀ more, more ≠ [] → more <+: rest → ∀ kind literal, ¬ Lexeme kind (lexeme ++ more) literal

/-! ### What a lexeme starts with -/

lemma not_isWordStart_of_isDigit {c : Char} (h : c.isDigit) : ¬ isWordStart c := by
  intro hw
  -- the letters and the underscore come after the digits
  have hle : c.val ≤ '9'.val := of_decide_eq_true (Bool.and_eq_true_iff.mp h).2
  rcases Bool.or_eq_true_iff.mp hw with hletter | hunderscore
  · rcases Bool.or_eq_true_iff.mp hletter with hupper | hlower
    · have hge : 'A'.val ≤ c.val := (of_decide_eq_true hupper).1
      exact absurd (UInt32.le_trans hge hle) (by decide)
    · have hge : 'a'.val ≤ c.val := of_decide_eq_true (Bool.and_eq_true_iff.mp hlower).1
      exact absurd (UInt32.le_trans hge hle) (by decide)
  · obtain rfl := of_decide_eq_true hunderscore
    exact absurd hle (by decide)

/-- A reserved word is a word. -/
lemma isWord_of_mem_keywords {c : Char} {rest : List Char} {p : String × TokenKind}
    (hp : p ∈ keywords) (h : p.1.toList = c :: rest) :
    isWordStart c ∧ ∀ d ∈ rest, isWordRest d := by
  have table : ∀ p ∈ keywords, p.1.toList.head?.all isWordStart = true ∧
      p.1.toList.tail.all isWordRest = true := by
    decide
  obtain ⟨hhead, htail⟩ := table p hp
  rw [h] at hhead htail
  exact ⟨hhead, List.all_eq_true.mp htail⟩

/-- A lexeme is a word, a number, a text or a symbol, as its first character says. -/
lemma Lexeme.cons_cases {kind : TokenKind} {c : Char} {rest : List Char}
    {literal : Option Literal} (h : Lexeme kind (c :: rest) literal) :
    (isWordStart c ∧ ∀ d ∈ rest, isWordRest d) ∨
      (c.isDigit ∧ ((∀ d ∈ rest, d.isDigit) ∨
        ∃ whole fraction, c :: rest = whole ++ '.' :: fraction ∧ (∀ d ∈ whole, d.isDigit) ∧
          fraction ≠ [] ∧ ∀ d ∈ fraction, d.isDigit)) ∨
      (c = '"' ∧ ∃ body, '"' ∉ body ∧ rest = body ++ ['"']) ∨
      c :: rest ∈ symbols.map (·.1.toList) := by
  generalize he : c :: rest = chars at h
  cases h with
  | symbol hs => exact .inr (.inr (.inr (List.mem_map_of_mem (f := (·.1.toList)) hs)))
  | keyword hk => exact .inl (isWord_of_mem_keywords hk he.symm)
  | identifier hc hrest _ =>
    cases he
    exact .inl ⟨hc, hrest⟩
  | @text body hbody =>
    cases he
    exact .inr (.inr (.inl ⟨rfl, body, hbody, rfl⟩))
  | whole _ hdigits =>
    cases he
    rw [List.forall_mem_cons] at hdigits
    exact .inr (.inl ⟨hdigits.1, .inl hdigits.2⟩)
  | @decimal whole fraction hne hwhole hne' hfraction =>
    cases whole with
    | nil => exact absurd rfl hne
    | cons x whole =>
      cases he
      have hx := hwhole c (List.mem_cons_self ..)
      exact .inr (.inl ⟨hx, .inr ⟨c :: whole, fraction, rfl, hwhole, hne', hfraction⟩⟩)

/-- No symbol starts like a word, a number or a text. -/
lemma head_of_mem_symbols {c : Char} {rest : List Char}
    (h : c :: rest ∈ symbols.map (·.1.toList)) :
    isWordStart c = false ∧ c.isDigit = false ∧ c ≠ '"' := by
  have table : ∀ chars ∈ symbols.map (·.1.toList), chars.head?.all
      (fun c => isWordStart c = false ∧ c.isDigit = false ∧ c ≠ '"') = true := by
    decide
  exact of_decide_eq_true (table _ h)

/-- The symbols of two characters. -/
lemma pair_mem_symbols {c d : Char} :
    [c, d] ∈ symbols.map (·.1.toList) ↔
      (c, d) ∈ [('!', '='), ('=', '='), ('>', '='), ('<', '='), ('?', ':'), ('?', '.')] := by
  simp [symbols]

/-- No symbol has more than two characters. -/
lemma length_of_mem_symbols {chars : List Char} (h : chars ∈ symbols.map (·.1.toList)) :
    chars.length ≤ 2 := by
  have table : ∀ chars ∈ symbols.map (·.1.toList), chars.length ≤ 2 := by
    decide
  exact table chars h

/-! ### Longest lexemes -/

/-- A beginning of the rest that is not empty has a first character. -/
lemma longest_iff {lexeme rest : List Char} :
    Longest lexeme rest ↔ ∀ d more, d :: more <+: rest → ∀ kind literal,
      ¬ Lexeme kind (lexeme ++ d :: more) literal := by
  constructor
  · intro h d more hmore
    exact h (d :: more) (List.cons_ne_nil _ _) hmore
  · intro h more hne hmore
    obtain ⟨d, more, rfl⟩ := List.exists_cons_of_ne_nil hne
    exact h d more hmore

/-- The rest of a text after a stretch of characters starts with one that is not among them. -/
lemma not_of_cons_isPrefix_dropWhile {p : Char → Bool} {text more : List Char} {d : Char}
    (h : d :: more <+: text.dropWhile p) : p d = false := by
  obtain ⟨rest, he⟩ := h
  have hhead := List.head?_dropWhile_not p text
  rw [← he] at hhead
  simpa using hhead

/-- A symbol ends where no further character makes a longer one of it. -/
lemma longest_symbol {c : Char} {lexeme rest : List Char}
    (h : c :: lexeme ∈ symbols.map (·.1.toList))
    (hnext : ∀ d ∈ rest.head?, c :: lexeme ++ [d] ∉ symbols.map (·.1.toList)) :
    Longest (c :: lexeme) rest := by
  rw [longest_iff]
  rintro d more ⟨after, rfl⟩ kind literal hl
  obtain ⟨hw, hd, hq⟩ := head_of_mem_symbols h
  rcases hl.cons_cases with ⟨hw', -⟩ | ⟨hd', -⟩ | ⟨rfl, -⟩ | hs
  · exact absurd hw' (by rw [hw]; decide)
  · exact absurd hd' (by rw [hd]; decide)
  · exact absurd rfl hq
  · have hlength := length_of_mem_symbols hs
    cases more with
    | nil => exact hnext d rfl hs
    | cons e more =>
      simp only [List.length_cons, List.length_append, List.append_eq] at hlength
      omega

/-- A word ends where no character follows that can go on a word. -/
lemma longest_word {c : Char} (hc : isWordStart c) (rest : List Char) :
    Longest (c :: rest.takeWhile isWordRest) (rest.dropWhile isWordRest) := by
  rw [longest_iff]
  intro d more hmore kind literal hl
  have hd := not_of_cons_isPrefix_dropWhile hmore
  rcases hl.cons_cases with ⟨-, hw⟩ | ⟨hdigit, -⟩ | ⟨rfl, -⟩ | hs
  · have := hw d (by simp)
    rw [hd] at this
    cases this
  · exact not_isWordStart_of_isDigit hdigit hc
  · exact absurd hc (by decide)
  · rw [(head_of_mem_symbols hs).1] at hc
    cases hc

/-- A text ends with its second quote. -/
lemma longest_text {body : List Char} (rest : List Char) :
    Longest ('"' :: (body ++ ['"'])) rest := by
  rw [longest_iff]
  intro d more _ kind literal hl
  rcases hl.cons_cases with ⟨hw, -⟩ | ⟨hd, -⟩ | ⟨-, body', hbody', he⟩ | hs
  · exact absurd hw (by decide)
  · exact absurd hd (by decide)
  · -- the quote before `d` is not the last character, and so stands inside the other text
    obtain ⟨last, more', hlast⟩ : ∃ last more', d :: more = more' ++ [last] :=
      ⟨_, _, (List.dropLast_append_getLast (List.cons_ne_nil d more)).symm⟩
    rw [List.append_eq, hlast, ← List.append_assoc] at he
    obtain ⟨he, -⟩ := List.append_inj' he rfl
    refine hbody' ?_
    rw [← he]
    simp
  · exact absurd rfl (head_of_mem_symbols hs).2.2

/-- The digits at the head of a number. -/
lemma dropWhile_isDigit_append {digits : List Char} (h : ∀ d ∈ digits, d.isDigit)
    (rest : List Char) : (digits ++ rest).dropWhile Char.isDigit = rest.dropWhile Char.isDigit :=
  List.dropWhile_append_of_pos h

/-- What makes a number longer is another digit, or a point and digits. -/
lemma Lexeme.of_digits_append {kind : TokenKind} {whole more : List Char} {d : Char}
    {literal : Option Literal} (h : Lexeme kind (whole ++ d :: more) literal) (hne : whole ≠ [])
    (hwhole : ∀ x ∈ whole, x.isDigit) (hd : d.isDigit = false) :
    d = '.' ∧ more ≠ [] ∧ ∀ x ∈ more, x.isDigit := by
  obtain ⟨c, whole, rfl⟩ := List.exists_cons_of_ne_nil hne
  have hc := hwhole c (List.mem_cons_self ..)
  rcases h.cons_cases with ⟨hw, -⟩ | ⟨-, hdigits | ⟨whole', fraction, he, hwhole', hf, hall⟩⟩ |
      ⟨rfl, -⟩ | hs
  · exact absurd hw (not_isWordStart_of_isDigit hc)
  · have := hdigits d (by simp)
    rw [hd] at this
    cases this
  · have hdrop := congrArg (List.dropWhile Char.isDigit) he
    rw [List.append_eq, ← List.cons_append, dropWhile_isDigit_append hwhole,
      dropWhile_isDigit_append hwhole', List.dropWhile_cons_of_neg (by rw [hd]; decide),
      List.dropWhile_cons_of_neg (by decide)] at hdrop
    cases hdrop
    exact ⟨rfl, hf, hall⟩
  · exact absurd hc (by decide)
  · rw [(head_of_mem_symbols hs).2.1] at hc
    cases hc

/-- Digits make a number that ends where neither a digit nor a point with a digit follows. -/
lemma longest_whole {whole rest : List Char} (hne : whole ≠ []) (hwhole : ∀ d ∈ whole, d.isDigit)
    (hrest : ∀ d ∈ rest.head?, d.isDigit = false)
    (hpoint : ∀ d after, rest = '.' :: d :: after → d.isDigit = false) : Longest whole rest := by
  rw [longest_iff]
  rintro d more ⟨after, rfl⟩ kind literal hl
  obtain ⟨rfl, hmore, hall⟩ := hl.of_digits_append hne hwhole (hrest d rfl)
  obtain ⟨e, more, rfl⟩ := List.exists_cons_of_ne_nil hmore
  have he := hall e (List.mem_cons_self ..)
  rw [hpoint e (more ++ after) rfl] at he
  cases he

/-- A fraction ends where no digit follows. -/
lemma longest_decimal {whole fraction rest : List Char} (hne : whole ≠ [])
    (hwhole : ∀ d ∈ whole, d.isDigit) (hrest : ∀ d ∈ rest.head?, d.isDigit = false) :
    Longest (whole ++ '.' :: fraction) rest := by
  rw [longest_iff]
  rintro d more ⟨after, rfl⟩ kind literal hl
  rw [List.append_assoc, List.cons_append] at hl
  obtain ⟨-, -, hall⟩ := hl.of_digits_append hne hwhole (by decide)
  have hd := hall d (by simp)
  rw [hrest d rfl] at hd
  cases hd

/-! ### Items -/

/-- What an item is before the rest of a text: a lexeme that is as long as it can be, or a stretch
that can be put before a gap. -/
def Item.Munched (rest : List Char) : Item → Prop
  | .token kind lexeme literal => Lexeme kind lexeme literal ∧ Longest lexeme rest
  | .gap skipped =>
    ∀ gap after, rest = gap ++ after → IsGap gap after → IsGap (skipped ++ gap) after
  | .fault _ _ => True

lemma munched_symbol {kind : TokenKind} {c : Char} {lexeme rest : List Char}
    (h : (String.ofList (c :: lexeme), kind) ∈ symbols)
    (hnext : ∀ d ∈ rest.head?, c :: lexeme ++ [d] ∉ symbols.map (·.1.toList)) :
    (Item.token kind (c :: lexeme) none).Munched rest := by
  have hmem := List.mem_map_of_mem (f := (·.1.toList)) h
  refine ⟨?_, longest_symbol (by simpa using hmem) hnext⟩
  simpa using Lexeme.symbol h

lemma munched_pair {kind : TokenKind} {c d : Char} (h : (String.ofList [c, d], kind) ∈ symbols)
    (rest : List Char) : (Item.token kind [c, d] none).Munched rest := by
  refine munched_symbol h fun e _ hmem => ?_
  have := length_of_mem_symbols hmem
  simp at this

lemma munched_blank {c : Char} (hc : c ∈ [' ', '\t', '\r', '\n']) (rest : List Char) :
    (Item.gap [c]).Munched rest := by
  intro gap after _ hgap
  exact .blank hc hgap

lemma symbolOr_munched {c second : Char} {long short : TokenKind}
    (hl : (String.ofList [c, second], long) ∈ symbols) (hs : (String.ofList [c], short) ∈ symbols)
    (honly : ∀ d, [c, d] ∈ symbols.map (·.1.toList) → d = second) (rest : List Char) :
    (symbolOr second long short c rest).1.Munched (symbolOr second long short c rest).2 := by
  unfold symbolOr
  split
  · exact munched_symbol hs (by simp)
  · next d rest =>
    split
    · next hd =>
      subst hd
      exact munched_pair hl rest
    · next hd =>
      refine munched_symbol hs ?_
      rintro _ ⟨⟩ hmem
      exact hd (honly d hmem)

lemma question_munched (rest : List Char) :
    (question '?' rest).1.Munched (question '?' rest).2 := by
  unfold question
  split
  · exact munched_pair (by decide) _
  · exact munched_pair (by decide) _
  · next hcolon hdot =>
    refine munched_symbol (by decide) fun d hd hmem => ?_
    obtain ⟨rest, rfl⟩ := List.head?_eq_some_iff.mp hd
    rcases (by simpa using pair_mem_symbols.mp hmem : d = ':' ∨ d = '.') with rfl | rfl
    · exact hcolon rest rfl
    · exact hdot rest rfl

lemma slash_munched (rest : List Char) : (slash '/' rest).1.Munched (slash '/' rest).2 := by
  unfold slash
  split
  · next rest =>
    intro gap after he hgap
    have hbody : '\n' ∉ rest.takeWhile (· ≠ '\n') := fun hmem => by
      simpa using List.mem_takeWhile_imp hmem
    refine .comment hbody ?_ hgap
    intro c hc
    have hhead := List.head?_dropWhile_not (· ≠ '\n') rest
    rw [← he] at hc
    rw [hc] at hhead
    simpa using hhead
  · exact munched_symbol (by decide) (by simp [pair_mem_symbols])

lemma quote_munched (rest : List Char) : (quote '"' rest).1.Munched (quote '"' rest).2 := by
  unfold quote
  split
  · exact trivial
  · next close after hd =>
    have hbody : '"' ∉ rest.takeWhile (· ≠ '"') := fun hmem => by
      simpa using List.mem_takeWhile_imp hmem
    have hclose := List.head?_dropWhile_not (· ≠ '"') rest
    rw [hd] at hclose
    obtain rfl : close = '"' := by simpa using hclose
    exact ⟨.text hbody, longest_text after⟩

lemma number_munched {c : Char} (hc : c.isDigit) (rest : List Char) :
    (number c rest).1.Munched (number c rest).2 := by
  have hwhole : ∀ d ∈ c :: rest.takeWhile Char.isDigit, d.isDigit := by
    rw [List.forall_mem_cons]
    exact ⟨hc, fun d hd => List.mem_takeWhile_imp hd⟩
  have hstop : ∀ text : List Char, ∀ d ∈ (text.dropWhile Char.isDigit).head?,
      d.isDigit = false := by
    intro text d hd
    have hhead := List.head?_dropWhile_not Char.isDigit text
    rw [hd] at hhead
    simpa using hhead
  have hrest := hstop rest
  have hne := List.cons_ne_nil c (rest.takeWhile Char.isDigit)
  unfold number
  split
  · next d after hd =>
    rw [hd] at hrest
    split
    · next hdigit =>
      have hfraction : ∀ x ∈ d :: after.takeWhile Char.isDigit, x.isDigit := by
        rw [List.forall_mem_cons]
        exact ⟨hdigit, fun x hx => List.mem_takeWhile_imp hx⟩
      exact ⟨.decimal hne hwhole (List.cons_ne_nil _ _) hfraction,
        longest_decimal hne hwhole (hstop after)⟩
    · next hdigit =>
      refine ⟨.whole hne hwhole, longest_whole hne hwhole hrest ?_⟩
      rintro _ _ ⟨⟩
      exact Bool.eq_false_iff.mpr hdigit
  · next hpoint =>
    refine ⟨.whole hne hwhole, longest_whole hne hwhole hrest ?_⟩
    intro d after he
    exact absurd he (hpoint d after)

lemma word_munched {c : Char} (hc : isWordStart c) (rest : List Char) :
    (word c rest).1.Munched (word c rest).2 := by
  refine ⟨?_, longest_word hc rest⟩
  by_cases hk : TokenKind.ofWord (String.ofList (c :: rest.takeWhile isWordRest)) = .identifier
  · rw [hk]
    refine .identifier hc (fun d hd => List.mem_takeWhile_imp hd) fun hmem => ?_
    have table : ∀ w ∈ keywords.map Prod.fst, TokenKind.ofWord w ≠ .identifier := by
      decide
    exact table _ hmem hk
  · have hmem := TokenKind.mem_keywords_of_ofWord rfl hk
    simpa using Lexeme.keyword hmem

/-- What stands at the head of a text is as long as it can be. -/
lemma itemAt_munched (c : Char) (rest : List Char) :
    (itemAt c rest).1.Munched (itemAt c rest).2 := by
  unfold itemAt
  split
  case h_12 => exact question_munched rest
  case h_13 | h_14 | h_15 | h_16 =>
    exact symbolOr_munched (by decide) (by decide) (by simp [pair_mem_symbols]) rest
  case h_17 => exact slash_munched rest
  case h_18 | h_19 | h_20 | h_21 => exact munched_blank (by decide) rest
  case h_22 => exact quote_munched rest
  case h_23 =>
    split
    · next hd => exact number_munched hd rest
    · split
      · next hw => exact word_munched hw rest
      · exact trivial
  all_goals exact munched_symbol (by decide) (by simp [pair_mem_symbols])

/-- Two slashes are the head of a comment, never of a token. -/
lemma not_comment_of_itemAt {c : Char} {rest lexeme after : List Char} {kind : TokenKind}
    {literal : Option Literal} (h : itemAt c rest = (.token kind lexeme literal, after)) :
    ¬ ['/', '/'] <+: c :: rest := by
  rintro ⟨more, he⟩
  cases he
  simp [itemAt, slash] at h

/-! ### Texts in pieces -/

/-- A token and the gap after it. -/
structure Piece where
  token : Token
  gap : List Char

/-- The characters of a lexeme and of the gap after it. -/
def Piece.chars (p : Piece) : List Char :=
  p.token.lexeme.toList ++ p.gap

/-- The text that pieces make up. -/
def textOf (pieces : List Piece) : List Char :=
  pieces.flatMap Piece.chars

@[simp]
lemma textOf_nil : textOf [] = [] := rfl

@[simp]
lemma textOf_cons (p : Piece) (pieces : List Piece) :
    textOf (p :: pieces) = p.token.lexeme.toList ++ (p.gap ++ textOf pieces) := by
  simp [textOf, Piece.chars]

/-- A piece of a text that starts on a line, between what stands before it and after it. -/
structure Piece.Fits (line : Nat) (before : List Char) (p : Piece) (after : List Char) :
    Prop where
  lexeme : Lexeme p.token.kind p.token.lexeme.toList p.token.literal
  longest : Longest p.token.lexeme.toList (p.gap ++ after)
  not_comment : ¬ ['/', '/'] <+: p.token.lexeme.toList ++ (p.gap ++ after)
  isGap : IsGap p.gap after
  line_eq : p.token.line = line + lineBreaks (before ++ p.token.lexeme.toList)

/-- What stands in front of a text moves its pieces to later lines. -/
lemma Piece.Fits.later {line : Nat} {front before after : List Char} {p : Piece}
    (h : p.Fits (line + lineBreaks front) before after) : p.Fits line (front ++ before) after := by
  refine ⟨h.lexeme, h.longest, h.not_comment, h.isGap, ?_⟩
  rw [h.line_eq, List.append_assoc, lineBreaks_append front, Nat.add_assoc]

/-- A text without faults is made up of gaps and pieces, each with the token found for it. -/
lemma Scans.exists_pieces {line : Nat} {chars : List Char} {tokens : List Token}
    (h : Scans line chars tokens) :
    ∃ (gap : List Char) (pieces : List Piece), chars = gap ++ textOf pieces ∧
      tokens = pieces.map Piece.token ++ [Token.endAt (line + lineBreaks chars)] ∧
      IsGap gap (textOf pieces) ∧
      ∀ (front : List Piece) (p : Piece) (back : List Piece), pieces = front ++ p :: back →
        p.Fits line (gap ++ textOf front) (textOf back) := by
  induction h with
  | done line => exact ⟨[], [], rfl, rfl, .nil _, by simp⟩
  | @token line c rest lexeme after kind literal tokens hitem hrest ih =>
    obtain ⟨gap, pieces, rfl, rfl, hgap, hfits⟩ := ih
    have hchars := chars_itemAt c rest
    have hmunched := itemAt_munched c rest
    rw [hitem] at hchars hmunched
    obtain ⟨hlexeme, hlongest⟩ := hmunched
    have htext : c :: rest = lexeme ++ (gap ++ textOf pieces) := hchars.symm
    have hcomment := not_comment_of_itemAt hitem
    rw [htext] at hcomment ⊢
    refine ⟨[], ⟨⟨kind, String.ofList lexeme, literal, line + lineBreaks lexeme⟩, gap⟩ :: pieces,
      ?_, ?_, .nil _, ?_⟩
    · simp
    · simp [lineBreaks_append, Nat.add_assoc]
    · intro front p back he
      rcases List.cons_eq_append_iff.mp he with ⟨rfl, he⟩ | ⟨front, rfl, rfl⟩
      · cases he
        refine ⟨?_, ?_, ?_, hgap, ?_⟩
        · simpa using hlexeme
        · simpa using hlongest
        · simpa using hcomment
        · simp
      · have := (hfits front p back rfl).later
        simpa using this
  | @gap line c rest skipped after tokens hitem hrest ih =>
    obtain ⟨gap, pieces, rfl, rfl, hgap, hfits⟩ := ih
    have hchars := chars_itemAt c rest
    have hmunched := itemAt_munched c rest
    rw [hitem] at hchars hmunched
    have htext : c :: rest = skipped ++ (gap ++ textOf pieces) := hchars.symm
    refine ⟨skipped ++ gap, pieces, ?_, ?_, hmunched gap _ rfl hgap, ?_⟩
    · rw [htext, List.append_assoc]
    · rw [htext, lineBreaks_append skipped, Nat.add_assoc]
    · intro front p back he
      have := (hfits front p back he).later
      rwa [← List.append_assoc] at this

namespace Lexeme

variable {kind : TokenKind} {chars : List Char} {literal : Option Literal}

/-- The end of the text has no lexeme. -/
lemma kind_ne_endOfText (h : Lexeme kind chars literal) : kind ≠ .endOfText := by
  rintro rfl
  cases h with
  | symbol hs => simp [symbols] at hs
  | keyword hk => simp [keywords] at hk

/-- Numbers and texts have a literal, and nothing else does. -/
lemma isSome_literal_iff (h : Lexeme kind chars literal) :
    literal.isSome ↔ kind = .number ∨ kind = .textLiteral := by
  cases h with
  | symbol hs =>
    have table : ∀ p ∈ symbols, ¬ (p.2 = .number ∨ p.2 = .textLiteral) := by
      decide
    simpa using table _ hs
  | keyword hk =>
    have table : ∀ p ∈ keywords, ¬ (p.2 = .number ∨ p.2 = .textLiteral) := by
      decide
    simpa using table _ hk
  | identifier => simp
  | text => simp
  | whole => simp
  | decimal => simp

/-- An identifier is no reserved word. -/
lemma notMem_keywords (h : Lexeme .identifier chars literal) :
    String.ofList chars ∉ keywords.map Prod.fst := by
  cases h with
  | symbol hs => simp [symbols] at hs
  | keyword hk => simp [keywords] at hk
  | identifier _ _ hne => exact hne

/-- The literal of a text is what stands between its quotes. -/
lemma exists_body (h : Lexeme .textLiteral chars literal) :
    ∃ body : String, literal = some (.text body) ∧ chars = '"' :: (body.toList ++ ['"']) := by
  cases h with
  | symbol hs => simp [symbols] at hs
  | keyword hk => simp [keywords] at hk
  | @text body _ => exact ⟨String.ofList body, rfl, by simp⟩

end Lexeme

end Scan

open Scan

/-- A script without faults is a gap and then lexemes, each with a gap after it, and nothing else.
Each lexeme belongs to the kind of its token and is as long as it can be. Identifiers are no
reserved words, numbers and texts alone have a literal, which for a text is what stands between its
quotes, and the line of a token is the one on which its lexeme ends. The last token, and no other,
is the end of the text. -/
theorem scan_longest_lexemes {source : String} {tokens : List Token}
    (h : scan source = .ok tokens) :
    ∃ (gap : List Char) (pieces : List Piece), source.toList = gap ++ textOf pieces ∧
      tokens = pieces.map Piece.token ++ [.endAt (1 + lineBreaks source.toList)] ∧
      IsGap gap (textOf pieces) ∧
      ∀ (front : List Piece) (p : Piece) (back : List Piece), pieces = front ++ p :: back →
        p.Fits 1 (gap ++ textOf front) (textOf back) ∧
        p.token.kind ≠ .endOfText ∧
        (p.token.kind = .identifier → p.token.lexeme ∉ keywords.map Prod.fst) ∧
        (p.token.literal.isSome ↔ p.token.kind = .number ∨ p.token.kind = .textLiteral) ∧
        (p.token.kind = .textLiteral → ∃ body : String, p.token.literal = some (.text body) ∧
          p.token.lexeme.toList = '"' :: (body.toList ++ ['"'])) := by
  obtain ⟨gap, pieces, hsource, htokens, hgap, hfits⟩ := (scan_eq_ok_iff.mp h).exists_pieces
  refine ⟨gap, pieces, hsource, htokens, hgap, fun front p back he => ?_⟩
  have hp := hfits front p back he
  have hlexeme := hp.lexeme
  refine ⟨hp, hlexeme.kind_ne_endOfText, ?_, hlexeme.isSome_literal_iff, ?_⟩
  · intro hk
    rw [hk] at hlexeme
    simpa using hlexeme.notMem_keywords
  · intro hk
    rw [hk] at hlexeme
    exact hlexeme.exists_body

/-- A text over two lines, a number that a point does not make longer, and a comment up to the end
of the script. -/
theorem scan_longest_lexemes_spanning :
    let source := "a ?:\"x\ny\"// c\n1..5/2// d"
    ∃ tokens, scan source = .ok tokens ∧
      tokens.map (fun t => (t.kind, t.lexeme, t.line)) =
        [(.identifier, "a", 1), (.elvis, "?:", 1), (.textLiteral, "\"x\ny\"", 2),
          (.number, "1", 3), (.dot, ".", 3), (.dot, ".", 3), (.number, "5", 3),
          (.slash, "/", 3), (.number, "2", 3), (.endOfText, "", 3)] ∧
      ∃ (gap : List Char) (pieces : List Piece), source.toList = gap ++ textOf pieces ∧
        tokens = pieces.map Piece.token ++ [.endAt (1 + lineBreaks source.toList)] ∧
        ∀ (front : List Piece) (p : Piece) (back : List Piece), pieces = front ++ p :: back →
          p.Fits 1 (gap ++ textOf front) (textOf back) := by
  intro source
  have hscan : (scan source).toOption.map (·.map fun t => (t.kind, t.lexeme, t.line)) =
      some [(.identifier, "a", 1), (.elvis, "?:", 1), (.textLiteral, "\"x\ny\"", 2),
        (.number, "1", 3), (.dot, ".", 3), (.dot, ".", 3), (.number, "5", 3),
        (.slash, "/", 3), (.number, "2", 3), (.endOfText, "", 3)] := by
    decide +kernel
  cases h : scan source with
  | error errors =>
    rw [h] at hscan
    cases hscan
  | ok tokens =>
    rw [h] at hscan
    obtain ⟨gap, pieces, hsource, htokens, -, hfits⟩ := scan_longest_lexemes h
    exact ⟨tokens, rfl, Option.some.inj hscan, gap, pieces, hsource, htokens,
      fun front p back he => (hfits front p back he).1⟩

end Scripting
