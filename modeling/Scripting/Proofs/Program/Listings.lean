import Scripting.Proofs.Program.ReadingForms

/-!
# Listings of programs

The listing of a program that was read has one line for each statement, and from it the program can
be told but for its identities and lines, as long as its numbers are finite: infinity is printed as
a word that an identifier can be, too.
-/

namespace Scripting

open Scan

/-- A literal is no infinite number. -/
def Literal.isFinite : Literal → Bool
  | .number x => x.isFinite
  | _ => true

/-- The numbers written in a program are finite. -/
def Program.NumbersFinite (p : Program) : Prop :=
  ∀ literal ∈ p.literals, literal.isFinite

namespace Program

variable {p p' : Program}

/-- The statements of a program that was read can be read again from their forms. -/
lemma FromScript.readable (hp : p.FromScript) : ∀ s ∈ p, s.Readable p.NumbersFinite := by
  obtain ⟨source, tokens, nextId, next, hscan, h⟩ := hp
  have hlexemes : ∀ t ∈ tokens.dropLast, t.Scanned := by
    obtain ⟨gap, pieces, -, rfl, -, hfits⟩ := (scan_eq_ok_iff.mp hscan).exists_pieces
    rw [List.dropLast_concat]
    intro t ht
    obtain ⟨piece, hpiece, rfl⟩ := List.mem_map.mp ht
    obtain ⟨front, back, he⟩ := List.append_of_mem hpiece
    exact (hfits front piece back he).lexeme
  obtain ⟨added, hliterals⟩ := literals_of_parse hscan h
  obtain ⟨front, line, rfl⟩ := exists_end_of_scan hscan
  have hfront := (scan_eq_ok_iff.mp hscan).kind_ne_of_mem_dropLast
  rw [List.dropLast_concat] at hfront hlexemes
  obtain ⟨front', back, he, hkinds, hk, hderives⟩ := derives_of_parse h
  obtain rfl := front_eq_of_read he hfront hkinds hk
  refine hderives.readable fun t ht => ⟨hlexemes t ht, fun hfinite x hx => hfinite (.number x) ?_⟩
  -- the number of a token is among the literals of the program
  have hconstant : t.constant? = some (.number x) := by
    have hsome := (hlexemes t ht).isSome_literal_iff.mp (by rw [hx, Option.isSome_some])
    rcases hsome with hk | hk
    · rw [Token.constant?, hk, hx]
    · rw [Token.constant?, hk, hx]
  refine hliterals.mem_iff.mpr (List.mem_append_left _ ?_)
  exact List.mem_filterMap.mpr ⟨t, List.mem_append_left _ ht, hconstant⟩

/-- **Listings are faithful.** The listing of a program that was read has no line break in any of
its lines. Two programs with finite numbers have the same listing exactly if they are the same but
for identities and lines. -/
theorem renderStmts_faithful (hp : p.FromScript) :
    (∀ line ∈ renderStmts p, '\n' ∉ line.toList) ∧
      ∀ p' : Program, p'.FromScript → p.NumbersFinite → p'.NumbersFinite →
        (renderStmts p = renderStmts p' ↔ renameStmts .blank p = renameStmts .blank p') := by
  have hforms : ∀ {q : Program}, q.FromScript → ∀ f ∈ stmtForms q, f.WellFormed :=
    fun hq => wellFormed_stmtForms hq.readable
  refine ⟨?_, fun p' hp' hfinite hfinite' => ⟨fun h => ?_, fun h => ?_⟩⟩
  · rw [← texts_stmtForms]
    exact Form.lineFeed_notMem_texts (hforms hp)
  · rw [← texts_stmtForms, ← texts_stmtForms] at h
    have hsame := Form.texts_inj (hforms hp) (hforms hp') h
    rw [← stmts_stmtForms hp.readable hfinite, hsame, stmts_stmtForms hp'.readable hfinite']
  · rw [← renderStmts_rename .blank p, h, renderStmts_rename]

/-- Two loops that are one, with other numerals for the same number, and a text over two lines. -/
theorem renderStmts_faithful_loops :
    let source := "class A < B \x7b m(x) \x7b for (;;) print -x - 1.50; \x7d " ++
      "g \x7b \"a\nb\"; \x7d \x7d"
    let source' := "class A<B \x7bg\x7b\"a\nb\";\x7d\nm(x)\x7bwhile(true)print -x-1.5;\x7d\x7d"
    let listing := ["(class A < B " ++
      "(fun m (x) \x7b(while true (print (- (- x) 1.5)))\x7d) (getter g \x7b(; \"a\\nb\")\x7d))"]
    ∃ tokens p next tokens' p' next', scan source = .ok tokens ∧
      Program.parse 0 tokens = (.ok p, next) ∧ scan source' = .ok tokens' ∧
      Program.parse 0 tokens' = (.ok p', next') ∧ renderStmts p = listing ∧
      renderStmts p' = listing ∧ (∀ line ∈ listing, '\n' ∉ line.toList) ∧
      renameStmts .blank p = renameStmts .blank p' := by
  intro source source' listing
  let test (p : Program) := decide (renderStmts p = listing) && p.literals.all Literal.isFinite
  obtain ⟨tokens, p, next, hscan, h, htest⟩ :=
    exists_parse_of_any source test (by decide +kernel)
  obtain ⟨tokens', p', next', hscan', h', htest'⟩ :=
    exists_parse_of_any source' test (by decide +kernel)
  obtain ⟨hlisting, hfinite⟩ := Bool.and_eq_true_iff.mp htest
  obtain ⟨hlisting', hfinite'⟩ := Bool.and_eq_true_iff.mp htest'
  obtain ⟨hlines, hsame⟩ := renderStmts_faithful ⟨source, tokens, 0, next, hscan, h⟩
  have hequal : renderStmts p = listing := of_decide_eq_true hlisting
  have hequal' : renderStmts p' = listing := of_decide_eq_true hlisting'
  refine ⟨tokens, p, next, tokens', p', next', hscan, h, hscan', h', hequal, hequal',
    hequal ▸ hlines, ?_⟩
  exact (hsame p' ⟨source', tokens', 0, next', hscan', h'⟩ (List.all_eq_true.mp hfinite)
    (List.all_eq_true.mp hfinite')).mp (hequal.trans hequal'.symm)

end Program

end Scripting
