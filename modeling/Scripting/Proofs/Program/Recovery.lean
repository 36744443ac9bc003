import Mathlib.Data.List.Perm.Subperm
import Scripting.Proofs.Program.JoinedReading
import Scripting.Proofs.Program.Progress

/-!
# Starting afresh

A declaration that cannot be read stops at the token that is to blame, and reading starts afresh
behind it. So every round of reading passes a token, and no token is to blame for stopping twice.
-/

namespace Scripting

namespace Parser

/-- The place of a cursor among all tokens. -/
def Cursor.place (tokens : List Token) (c : Cursor) : Nat :=
  tokens.length - c.rest.length

/-- The complaints that stop a declaration, each with the place where it does. -/
def panics (tokens : List Token) (read : Reader Stmt) : Nat → Cursor → List (Nat × SyntaxError)
  | 0, _ => []
  | rounds + 1, c =>
    if c.peek.kind = .endOfText then []
    else
      match read c with
      | .ok _ c => panics tokens read rounds c
      | .error e c =>
        (c.place tokens, e) :: panics tokens read rounds (c.recover e)

/-- The complaints that come out instead of a program. -/
def reported : Except (List SyntaxError) Program → List SyntaxError
  | .ok _ => []
  | .error errors => errors

/-! ### The next place where a statement may start -/

lemma skipToStatement_suffix (previous : Token) (rest : List Token) :
    skipToStatement previous rest <:+ rest := by
  induction rest generalizing previous with
  | nil => exact List.suffix_rfl
  | cons t rest ih =>
    unfold skipToStatement
    split
    · exact List.suffix_rfl
    · exact (ih t).trans (List.suffix_cons t rest)

lemma EndsOnce.skipToStatement (previous : Token) {rest : List Token} (h : EndsOnce rest) :
    EndsOnce (skipToStatement previous rest) := by
  induction rest generalizing previous with
  | nil => exact h
  | cons t rest ih =>
    unfold Parser.skipToStatement
    split
    · exact h
    · next hstop =>
      rcases EndsOnce.cons_iff.mp h with ⟨ht, -⟩ | ⟨-, hrest⟩
      · simp [ht] at hstop
      · exact ih t hrest

namespace Cursor

variable {c d : Cursor} {k : Nat}

/-- Starting afresh, the cursor passes the token that was to blame. -/
lemma advances_synchronize (h : EndsOnce c.rest) :
    c.Advances 0 (synchronize c) ∧ (c.peek.kind ≠ .endOfText → c.Advances 1 (synchronize c)) := by
  have hskip : ∀ {k}, c.Advances k c.advance → c.Advances k (synchronize c) := by
    intro k hadvance
    have hsuffix := skipToStatement_suffix c.peek c.advance.rest
    refine ⟨hsuffix.trans hadvance.suffix, hadvance.ended.skipToStatement _, ?_,
      hadvance.noted_prefix⟩
    exact Nat.le_trans (Nat.add_le_add_right hsuffix.length_le k) hadvance.length_add_le
  by_cases hk : c.peek.kind = .endOfText
  · have hrest := rest_eq_of_end h hk
    have hadvance : c.advance = c := by
      simp [advance, hrest, hk]
    exact ⟨hskip (hadvance.symm ▸ .refl h), fun hne => absurd hk hne⟩
  · have hadvance := advances_advance h hk
    exact ⟨hskip hadvance.any, fun _ => hskip hadvance⟩

/-- What came before the end of the text. -/
lemma two_le_length (h : EndsOnce c.rest) (hk : c.peek.kind ≠ .endOfText) : 2 ≤ c.rest.length := by
  have hadvance := advances_advance h hk
  have hpos := hadvance.ended.length_pos
  have hle := hadvance.length_add_le
  omega

lemma Advances.noting (h : c.Advances k d) (e : SyntaxError) :
    c.Advances k { d with noted := d.noted.push e } :=
  ⟨h.suffix, h.ended, h.length_add_le, h.noted_prefix.trans (by simp)⟩

lemma Advances.recover (h : c.Advances k d) (e : SyntaxError) : c.Advances k (d.recover e) :=
  (h.noting e).trans (advances_synchronize (h.noting e).ended).1

/-- Behind a complaint about a token, the cursor has passed that. -/
lemma Advances.recover_succ (h : c.Advances k d) (e : SyntaxError)
    (hk : d.peek.kind ≠ .endOfText) : c.Advances (k + 1) (d.recover e) :=
  (h.noting e).trans ((advances_synchronize (h.noting e).ended).2 hk)

lemma recover_peek_of_end (h : EndsOnce c.rest) (e : SyntaxError)
    (hk : c.peek.kind = .endOfText) : (c.recover e).peek.kind = .endOfText := by
  have hrest := rest_eq_of_end h hk
  generalize c.peek = t at hrest hk
  simp [recover, synchronize, advance, hrest, hk, skipToStatement, peek]

lemma recover_noted (c : Cursor) (e : SyntaxError) :
    (c.recover e).noted.toList = c.noted.toList ++ [e] := by
  simp [recover, synchronize, noted_advance]

/-- Where a declaration fails, a round passes a token as well. -/
lemma Advances.recover_round (h : c.Advances 0 d) (e : SyntaxError) (hc : EndsOnce c.rest)
    (hk : c.peek.kind ≠ .endOfText) : c.Advances 1 (d.recover e) := by
  by_cases hend : d.peek.kind = .endOfText
  · have hrecover := h.recover e
    have hend' := recover_peek_of_end h.ended e hend
    have htwo := two_le_length hc hk
    refine ⟨hrecover.suffix, hrecover.ended, ?_, hrecover.noted_prefix⟩
    rw [rest_eq_of_end hrecover.ended hend']
    exact htwo
  · exact h.recover_succ e hend

end Cursor

/-! ### Rounds -/

/-- If `x` reads the same as `y` from every cursor with few enough tokens left, then so it does
round after round, and enough rounds come to the end of the text. -/
theorem declarations_eq {x y : Reader Stmt} {n : Nat}
    (hxy : ∀ c, EndsOnce c.rest → c.rest.length ≤ n → x c = y c)
    (hy : ∀ c, EndsOnce c.rest → Forward 1 c (y c)) {rounds rounds' : Nat} {c : Cursor}
    (hc : EndsOnce c.rest) (hn : c.rest.length ≤ n) (hr : c.rest.length ≤ rounds)
    (hr' : c.rest.length ≤ rounds') (found : Array Stmt) :
    declarations x rounds c found = declarations y rounds' c found ∧
      c.Advances 0 (declarations y rounds' c found).2 ∧
      (declarations y rounds' c found).2.peek.kind = .endOfText := by
  induction rounds generalizing rounds' c found with
  | zero => exact absurd hc.length_pos (Nat.not_lt.mpr hr)
  | succ rounds ih =>
    have hpos := hc.length_pos
    obtain ⟨rounds', rfl⟩ : ∃ fewer, rounds' = fewer + 1 := ⟨rounds' - 1, by omega⟩
    simp only [declarations, hxy c hc hn]
    by_cases hk : c.peek.kind = .endOfText
    · simp only [if_pos hk]
      exact ⟨trivial, .refl hc, hk⟩
    · simp only [if_neg hk]
      -- one token is passed, and the rounds that are left do the rest
      have rest : ∀ {d : Cursor} (found : Array Stmt), c.Advances 1 d →
          declarations x rounds d found = declarations y rounds' d found ∧
            c.Advances 0 (declarations y rounds' d found).2 ∧
            (declarations y rounds' d found).2.peek.kind = .endOfText := by
        intro d found hd
        have hlength := hd.length_add_le
        obtain ⟨heq, hadvances, hend⟩ :=
          ih hd.ended (by omega) (by omega) (by omega : d.rest.length ≤ rounds') found
        exact ⟨heq, (hd.trans hadvances).any, hend⟩
      have hforward := hy c hc
      cases hread : y c with
      | ok s d =>
        rw [hread] at hforward
        exact rest _ hforward
      | error e d =>
        rw [hread] at hforward
        exact rest _ (hforward.1.recover_round e hc hk)

lemma panics_of_end {tokens : List Token} {read : Reader Stmt} {c : Cursor}
    (h : c.peek.kind = .endOfText) (rounds : Nat) : panics tokens read rounds c = [] := by
  cases rounds with
  | zero => rfl
  | succ rounds => simp only [panics, if_pos h]

namespace Cursor

variable {tokens : List Token} {c d : Cursor} {k : Nat}

/-- At its place is the token under the cursor. -/
lemma getElem?_place (hc : EndsOnce c.rest) (h : c.rest <:+ tokens) :
    tokens[c.place tokens]? = some c.peek := by
  obtain ⟨front, rfl⟩ := h
  have hplace : c.place (front ++ c.rest) = front.length := by simp [place]
  rw [hplace, List.getElem?_append_right (Nat.le_refl _), Nat.sub_self]
  cases hrest : c.rest with
  | nil => exact absurd (hrest ▸ hc) EndsOnce.not_nil
  | cons t rest => simp [peek, hrest]

lemma Advances.place_add_le (h : c.Advances k d) (hs : c.rest <:+ tokens) :
    c.place tokens + k ≤ d.place tokens := by
  have hd := h.length_add_le
  have hc := hs.length_le
  unfold place
  omega

end Cursor

/-- Behind a place of stopping, the next one is at another token. -/
lemma panics_behind {tokens : List Token} {read : Reader Stmt} {d : Cursor} {e : SyntaxError}
    (hd : EndsOnce d.rest) (hsuffix : d.rest <:+ tokens) {rounds : Nat}
    (h : ∀ p ∈ panics tokens read rounds (d.recover e), (d.recover e).place tokens ≤ p.1) :
    ∀ p ∈ panics tokens read rounds (d.recover e), d.place tokens < p.1 := by
  intro p hp
  by_cases hk : d.peek.kind = .endOfText
  · -- reading is at the end, so that nothing is read any more
    rw [panics_of_end (Cursor.recover_peek_of_end hd e hk)] at hp
    cases hp
  · have hrecover : d.Advances 1 (d.recover e) := (Cursor.Advances.refl hd).recover_succ e hk
    exact Nat.lt_of_lt_of_le (hrecover.place_add_le hsuffix) (h p hp)

/-- Places of stopping come one after the other, the token there is to blame, and the complaint is
among those that are noted. -/
theorem panics_spec {tokens : List Token} {read : Reader Stmt}
    (hread : ∀ c, EndsOnce c.rest → Forward 1 c (read c)) (rounds : Nat) {c : Cursor}
    (hc : EndsOnce c.rest) (hsuffix : c.rest <:+ tokens) (found : Array Stmt) :
    (∀ p ∈ panics tokens read rounds c,
      c.place tokens ≤ p.1 ∧ tokens[p.1]? = some p.2.token) ∧
    ((panics tokens read rounds c).map Prod.fst).Pairwise (· < ·) ∧
    ∃ noted, (declarations read rounds c found).2.noted.toList = c.noted.toList ++ noted ∧
      ((panics tokens read rounds c).map Prod.snd).Sublist noted := by
  induction rounds generalizing c found with
  | zero => exact ⟨by simp [panics], by simp [panics], [], by simp [declarations, panics]⟩
  | succ rounds ih =>
    by_cases hk : c.peek.kind = .endOfText
    · simp only [panics, declarations, if_pos hk]
      exact ⟨by simp, by simp, [], by simp⟩
    · simp only [panics, declarations, if_neg hk]
      have hforward := hread c hc
      cases hr : read c with
      | ok s d =>
        rw [hr] at hforward
        have hd : c.Advances 1 d := hforward
        obtain ⟨hplaces, hpairwise, noted, hnoted, hsublist⟩ :=
          ih hd.ended (hd.suffix.trans hsuffix) (found.push s)
        obtain ⟨before, hbefore⟩ := hd.noted_prefix
        refine ⟨fun p hp => ⟨?_, (hplaces p hp).2⟩, hpairwise, before ++ noted, ?_, ?_⟩
        · exact Nat.le_trans (Nat.le_of_succ_le (hd.place_add_le hsuffix)) (hplaces p hp).1
        · rw [hnoted, ← hbefore, List.append_assoc]
        · exact hsublist.trans (List.sublist_append_right before noted)
      | error e d =>
        rw [hr] at hforward
        obtain ⟨hd, htoken⟩ : c.Advances 0 d ∧ e.token = d.peek := hforward
        have hplace := hd.place_add_le hsuffix
        have hds := hd.suffix.trans hsuffix
        have hafter := hd.recover e
        obtain ⟨hplaces, hpairwise, noted, hnoted, hsublist⟩ :=
          ih hafter.ended (hafter.suffix.trans hsuffix) found
        obtain ⟨before, hbefore⟩ := hd.noted_prefix
        have hlater := panics_behind hd.ended hds fun p hp => (hplaces p hp).1
        refine ⟨?_, ?_, before ++ e :: noted, ?_, ?_⟩
        · rw [List.forall_mem_cons]
          refine ⟨⟨hplace, ?_⟩, fun p hp => ⟨?_, (hplaces p hp).2⟩⟩
          · rw [htoken]
            exact Cursor.getElem?_place hd.ended hds
          · exact Nat.le_trans hplace (Nat.le_of_lt (hlater p hp))
        · rw [List.map_cons, List.pairwise_cons, List.forall_mem_map]
          exact ⟨hlater, hpairwise⟩
        · rw [hnoted, Cursor.recover_noted, ← hbefore]
          simp
        · rw [List.map_cons]
          exact (hsublist.cons_cons e).trans (List.sublist_append_right before _)

/-- Increasing places among tokens are at most as many as the tokens. -/
lemma length_le_of_pairwise_lt {places : List Nat} {n : Nat} (h : places.Pairwise (· < ·))
    (hn : ∀ i ∈ places, i < n) : places.length ≤ n := by
  have hnodup : places.Nodup := h.imp Nat.ne_of_lt
  have hsubset : places ⊆ List.range n := fun i hi => List.mem_range.mpr (hn i hi)
  simpa using (List.subperm_of_subset hnodup hsubset).length_le

/-- All that was noted is reported. -/
lemma reported_parse (nextId : NodeId) (tokens : List Token) :
    reported (Program.parse nextId tokens).1 =
      (declarations (readers (boundPerToken * (tokens.length + 1)) .declaration)
        (tokens.length + 1) ⟨tokens, nextId, #[]⟩ #[]).2.noted.toList := by
  unfold Program.parse
  dsimp only
  split
  · next hempty => simp [reported, Array.isEmpty_iff.mp hempty]
  · rfl

/-- **Reading makes progress.** Tokens of which the last one is the end of the text, and no other,
are read with a recursion that is less deep than its bound: whatever readers would go on there, the
result is the same, and so it is with more rounds; and reading comes to the end of the text. All
readers, within any bound, move the cursor from token to token and never back or past the end, and
so does starting afresh, which passes a token unless it is at the end. A declaration that is read
takes a token at least. The complaints that stop declarations are among those that are reported,
each is about the token at the place where reading stopped, and these places increase; so there
are at most as many of them as tokens. -/
theorem parse_progress (nextId : NodeId) {tokens : List Token} (h : EndsOnce tokens) :
    let start : Cursor := ⟨tokens, nextId, #[]⟩
    let bound := boundPerToken * (tokens.length + 1)
    let result := declarations (readers bound .declaration) (tokens.length + 1) start #[]
    let stopped := panics tokens (readers bound .declaration) (tokens.length + 1) start
    (∀ (deeper : Readers) (rounds : Nat), tokens.length ≤ rounds →
      declarations (Readers.step^[bound] deeper .declaration) rounds start #[] = result) ∧
    (start.Advances 0 result.2 ∧ result.2.peek.kind = .endOfText) ∧
    (∀ depth part (c : Cursor), EndsOnce c.rest → Forward part.taken c (readers depth part c)) ∧
    (∀ c : Cursor, EndsOnce c.rest → c.Advances 0 (synchronize c) ∧
      (c.peek.kind ≠ .endOfText → c.Advances 1 (synchronize c))) ∧
    (∀ depth (c : Cursor) s d, EndsOnce c.rest → readers depth .declaration c = .ok s d →
      d.rest.length < c.rest.length) ∧
    ((stopped.map Prod.fst).Pairwise (· < ·) ∧ (∀ p ∈ stopped, tokens[p.1]? = some p.2.token) ∧
      stopped.length ≤ tokens.length ∧
      (stopped.map Prod.snd).Sublist (reported (Program.parse nextId tokens).1)) := by
  intro start bound result stopped
  have hforward : ∀ depth part (c : Cursor), EndsOnce c.rest →
      Forward part.taken c (readers depth part c) :=
    fun depth part c hc => (agreeing depth (readers 0) part c hc).2
  have hdeclaration : ∀ c : Cursor, EndsOnce c.rest → Forward 1 c (readers bound .declaration c) :=
    hforward bound .declaration
  have hunrolled : ∀ (deeper : Readers) (c : Cursor), EndsOnce c.rest →
      c.rest.length ≤ tokens.length →
      (Readers.step^[bound] deeper) .declaration c = readers bound .declaration c := by
    intro deeper c hc hle
    refine (agreeing bound deeper .declaration c hc).1 ?_
    simp only [Part.rank, bound, boundPerToken]
    omega
  have hspec := panics_spec hdeclaration (tokens.length + 1) (c := start) h List.suffix_rfl #[]
  obtain ⟨hplaces, hpairwise, noted, hnoted, hsublist⟩ := hspec
  have hresult : ∀ (deeper : Readers) (rounds : Nat), tokens.length ≤ rounds →
      declarations (Readers.step^[bound] deeper .declaration) rounds start #[] = result ∧
        start.Advances 0 result.2 ∧ result.2.peek.kind = .endOfText :=
    fun deeper rounds hrounds => declarations_eq (hunrolled deeper) hdeclaration h (Nat.le_refl _)
      hrounds (Nat.le_succ _) #[]
  refine ⟨fun deeper rounds hr => (hresult deeper rounds hr).1,
    (hresult (readers 0) tokens.length (Nat.le_refl _)).2, hforward,
    fun c hc => Cursor.advances_synchronize hc, ?_, hpairwise, fun p hp => (hplaces p hp).2, ?_, ?_⟩
  · intro depth c s d hc hd
    have hf := hforward depth .declaration c hc
    rw [hd] at hf
    exact hf.length_add_le
  · rw [← List.length_map Prod.fst]
    refine length_le_of_pairwise_lt hpairwise ?_
    rw [List.forall_mem_map]
    intro p hp
    exact (List.getElem?_eq_some_iff.mp (hplaces p hp).2).1
  · rw [reported_parse, hnoted]
    exact hsublist

/-- Two declarations fail at their semicolons, and the second one is where reading starts afresh. -/
theorem parse_progress_nameless :
    let tokens : List Token := [⟨.kwVar, "var", none, 1⟩, ⟨.semicolon, ";", none, 1⟩,
      ⟨.kwPrint, "print", none, 2⟩, ⟨.semicolon, ";", none, 2⟩, .endAt 2]
    let stopped := panics tokens (readers (boundPerToken * 6) .declaration) 6 ⟨tokens, 0, #[]⟩
    EndsOnce tokens ∧ stopped.map Prod.fst = [1, 3] ∧
      (∀ p ∈ stopped, tokens[p.1]? = some p.2.token) ∧ stopped.length ≤ tokens.length := by
  intro tokens stopped
  have h : EndsOnce tokens := ⟨tokens.take 4, .endAt 2, rfl, rfl, by decide⟩
  obtain ⟨-, -, -, -, -, -, hplaces, hlength, -⟩ := parse_progress 0 h
  exact ⟨h, rfl, hplaces, hlength⟩

end Parser

end Scripting
