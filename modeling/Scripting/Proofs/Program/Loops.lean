import Scripting.Proofs.Eval.Loops
import Scripting.Proofs.Program.ExpressionCompleteness
import Scripting.Proofs.Resolution.References

/-!
# Loops with three clauses mean what they say

Whatever is read from the word `for` on is a loop with up to three clauses, and the statement that
comes out does what such a loop means. Its clauses stay apart, although the body and the increment
share a block: a body is a statement and no declaration, so that whatever is declared in it is in
scopes that have ended before the increment. And every clause sees the variable of the initializer.
-/

namespace Scripting

open Eval Grammar Traversal

namespace ForLoop

/-! ### The clauses of a loop -/

/-- The tokens of a loop and what they spell. -/
def SpelledBy (l : ForLoop) (ts : List Token) : Prop :=
  ∃ keyword opening first second closing ts₁ ts₂ ts₃ ts₄ ending,
    ts = keyword :: opening :: (ts₁ ++ first :: (ts₂ ++ second :: (ts₃ ++ closing :: ts₄))) ∧
    keyword.kind = .kwFor ∧ opening.kind = .leftParen ∧ first.kind = .semicolon ∧
    second.kind = .semicolon ∧ closing.kind = .rightParen ∧
    Derives .initializer ts₁ l.initializer ∧ Derives .optional ts₂ l.condition ∧
    Derives .optional ts₃ l.increment ∧ Derives (.statement ending) ts₄ l.body

/-- The clauses of a loop, and its body. -/
inductive Clause where
  | initializer | condition | body | increment
deriving DecidableEq

/-- What is come by in a clause. -/
def events (l : ForLoop) (c : ClassContext) : Clause → Traversal
  | .initializer => (l.initializer.map (Stmt.events c)).getD []
  | .condition => l.test.events c
  | .body => l.body.events c
  | .increment => (l.increment.map (Expr.events c)).getD []

/-- The beginning of the scope for a clause that may be left out. -/
def opening {α : Type} (clause : Option α) : Traversal :=
  if clause.isSome then [.opened] else []

/-- What is come by in the statement for a loop in front of a clause. -/
def front (l : ForLoop) (c : ClassContext) : Clause → Traversal
  | .initializer => opening l.initializer
  | .condition => opening l.initializer ++ l.events c .initializer
  | .body =>
    opening l.initializer ++ (l.events c .initializer ++
      (l.events c .condition ++ opening l.increment))
  | .increment =>
    opening l.initializer ++ (l.events c .initializer ++
      (l.events c .condition ++ (opening l.increment ++ l.events c .body)))

/-- A place is in a clause, if the statement for a loop starts at another one. -/
def Covers (l : ForLoop) (c : ClassContext) (start : Nat) (clause : Clause) (i : Nat) : Prop :=
  start + (l.front c clause).length ≤ i ∧
    i < start + (l.front c clause).length + (l.events c clause).length

/-- References in a loop that starts at a place in a program are to what they should be. -/
structure Hygienic (l : ForLoop) (c : ClassContext) (start : Nat) (p : Program) : Prop where
  /-- No reference in the condition or in the increment is to a declaration in the body. -/
  apart : ∀ clause, clause = .condition ∨ clause = .increment →
    ∀ i k, l.Covers c start clause i → l.Covers c start .body k → ¬ p.events.Refers i k
  /-- What is declared in the body is in a scope that begins there, and so never global. -/
  inner : ∀ k name, l.Covers c start .body k → p.events[k]? = some (.declared name) →
    ∃ j, l.Covers c start .body j ∧ j < k ∧ p.events[j]? = some .opened ∧
      Balanced ((p.events.take k).drop (j + 1))
  /-- In every clause, the name of the variable has a distance and is that of the variable, unless
  it was declared once more in the same clause. -/
  seen : ∀ name value, l.initializer = some (.var name value) →
    ∀ clause i id, l.Covers c start clause i →
      p.events[i]? = some (.visited id (some name.lexeme)) →
        (∃ distance, (id, distance) ∈ p.resolve.found.toList) ∧
          ∃ k, p.events.Refers i k ∧ (k = start + 1 ∨ l.Covers c start clause k)

/-! ### The events of the statement for a loop -/

variable {l : ForLoop} {c : ClassContext}

/-- The events of the statement, from those of the clauses. -/
lemma exists_events_tree (l : ForLoop) (c : ClassContext) : ∃ back,
    l.tree.events c = l.front c .increment ++ (l.events c .increment ++ back) := by
  obtain ⟨initializer, condition, increment, body⟩ := l
  rw [tree_eq]
  cases initializer with
  | none =>
    cases increment with
    | none => exact ⟨[], by simp [front, events, opening, round, Stmt.events]⟩
    | some step =>
      exact ⟨[.closed], by simp [front, events, opening, round, Stmt.events, stmtsEvents]⟩
  | some first =>
    cases increment with
    | none =>
      exact ⟨[.closed], by simp [front, events, opening, round, Stmt.events, stmtsEvents]⟩
    | some step =>
      exact ⟨[.closed, .closed],
        by simp [front, events, opening, round, Stmt.events, stmtsEvents]⟩

/-- No clause ends behind the last one. -/
lemma Covers.lt_end {start i : Nat} {clause : Clause} (h : l.Covers c start clause i) :
    i < start + (l.front c .increment).length + (l.events c .increment).length := by
  obtain ⟨-, h⟩ := h
  cases clause <;> simp only [front, List.length_append] at h ⊢ <;> omega

lemma stays_opening {α : Type} (clause : Option α) : Stays (opening clause) := by
  cases clause with
  | none => exact balanced_nil.1
  | some _ => exact stays_opened

lemma settled_opening {α : Type} (clause : Option α) : Settled (opening clause) := by
  cases clause with
  | none => exact settled_nil
  | some _ => exact settled_of_forall (by simp [opening])

end ForLoop

/-! ### Statements that are no declarations -/

/-- What a statement declares is in scopes inside of it. -/
def Grammar.Phrase.Shut : (phrase : Phrase) → phrase.Tree → Prop
  | .statement _, s => ∀ c, Settled (s.events c)
  | _, _ => True

lemma Grammar.Spells.shut {Ends : List Token → Prop} {phrase : Phrase} {ts : List Token}
    {tree : phrase.Tree} (h : Spells Ends phrase ts tree) : phrase.Shut tree := by
  induction h with
  | @expression ts ending value _ _ => exact fun c => value.settled c
  | @print keyword ts ending value _ _ _ => exact fun c => value.settled c
  | breakStmt _ _ => exact fun c => settled_nil
  | @returnStmt keyword ts ending value _ _ _ =>
    cases value with
    | none => exact fun c => settled_nil
    | some value => exact fun c => value.settled c
  | @blockStmt ts ss _ => exact fun c => (stmts_balanced c ss).settled_scope
  | @ifOnly _ _ _ _ _ condition _ _ _ _ _ _ _ _ ih =>
    exact fun c => (condition.settled c).append (ih c)
  | @ifElse _ _ _ _ _ _ _ condition _ _ _ _ _ _ _ _ _ _ _ ih ih' =>
    exact fun c => (condition.settled c).append ((ih c).append (ih' c))
  | @whileStmt _ _ _ _ _ condition _ _ _ _ _ _ _ _ ih =>
    exact fun c => (condition.settled c).append (ih c)
  | @forStmt _ _ _ _ _ _ _ _ _ initializer condition increment s _ _ _ _ _ _ _ _ _ _ _ _ _ ih =>
    intro c
    cases initializer with
    | some first => exact (stmts_balanced c _).settled_scope
    | none =>
      cases increment with
      | some step => exact (Expr.settled c _).append (stmts_balanced c _).settled_scope
      | none => exact (Expr.settled c _).append (ih c)
  | _ => trivial

namespace ForLoop

/-! ### References in a loop -/

section

variable {l : ForLoop} {c : ClassContext} {before after : Traversal} {name : Token}
  {value : Option Expr} {i : Nat}

/-- The scope of the variable is open in all clauses. -/
lemma isOpen_of_covers (hname : l.initializer = some (.var name value)) {clause : Clause}
    (hi : l.Covers c before.length clause i) (hlt : before.length < i) :
    IsOpen ((before ++ (l.tree.events c ++ after)).take i) before.length := by
  obtain ⟨back, hback⟩ := l.exists_events_tree c
  have hopening : opening l.initializer = [.opened] := by rw [hname]; rfl
  -- what is come by from the beginning of the scope to the end of the last clause
  let inner : Traversal := l.events c .initializer ++ (l.events c .condition ++
    (opening l.increment ++ (l.events c .body ++ l.events c .increment)))
  have hinner : Stays inner := by
    refine Stays.append ?_ (Stays.append (l.test.balanced c).1
      ((stays_opening _).append (Stays.append (l.body.balanced c).1 ?_)))
    · rw [events, hname]
      exact (Stmt.balanced c _).1
    · unfold events
      cases l.increment with
      | none => exact balanced_nil.1
      | some step => exact (step.balanced c).1
  have htree : l.tree.events c = .opened :: (inner ++ back) := by
    rw [hback, front, hopening]
    simp [inner]
  have hend := hi.lt_end
  have hlength : (l.front c .increment).length + (l.events c .increment).length =
      1 + inner.length := by
    simp only [front, hopening, inner, List.length_append, List.length_singleton]
    omega
  refine ⟨?_, ?_⟩
  · rw [List.getElem?_take_of_lt hlt, htree]
    simp
  · rw [List.drop_take, htree, List.drop_append, List.drop_of_length_le (Nat.le_succ _),
      List.nil_append, Nat.add_sub_cancel_left]
    show Stays (((inner ++ back) ++ after).take _)
    rw [List.append_assoc, List.take_append_of_le_length (by omega)]
    exact hinner.take _

/-- In front of every other clause are the variable and what keeps its declarations to itself. -/
lemma exists_settled_front (hname : l.initializer = some (.var name value))
    (hbody : Settled (l.events c .body)) {clause : Clause} (hc : clause ≠ .initializer) :
    ∃ between, Settled between ∧
      l.front c clause = [Event.opened, .declared name.lexeme] ++ between := by
  have hopening : opening l.initializer = [.opened] := by rw [hname]; rfl
  obtain ⟨first, hfirst, hevents⟩ : ∃ first, Settled first ∧
      l.events c .initializer = .declared name.lexeme :: first := by
    rw [events, hname]
    cases value with
    | none => exact ⟨[], settled_nil, rfl⟩
    | some value => exact ⟨value.events c, value.settled c, rfl⟩
  have htest : Settled (l.events c .condition) := l.test.settled c
  cases clause with
  | initializer => exact absurd rfl hc
  | condition => exact ⟨first, hfirst, by rw [front, hopening, hevents]; rfl⟩
  | body =>
    exact ⟨first ++ (l.events c .condition ++ opening l.increment),
      hfirst.append (htest.append (settled_opening _)), by rw [front, hopening, hevents]; rfl⟩
  | increment =>
    exact ⟨first ++ (l.events c .condition ++ (opening l.increment ++ l.events c .body)),
      hfirst.append (htest.append ((settled_opening _).append hbody)),
      by rw [front, hopening, hevents]; rfl⟩

/-- The statement for a loop, split in front of a clause and behind it. -/
lemma exists_split (l : ForLoop) (c : ClassContext) (clause : Clause) : ∃ back,
    l.tree.events c = l.front c clause ++ (l.events c clause ++ back) := by
  obtain ⟨back, hback⟩ := l.exists_events_tree c
  rw [hback]
  cases clause with
  | initializer => exact ⟨_, by simp only [front, List.append_assoc]; rfl⟩
  | condition => exact ⟨_, by simp only [front, List.append_assoc]; rfl⟩
  | body => exact ⟨_, by simp only [front, List.append_assoc]; rfl⟩
  | increment => exact ⟨_, rfl⟩

lemma exists_tree_of_var (hname : l.initializer = some (.var name value)) :
    ∃ rest, l.tree.events c = [Event.opened, .declared name.lexeme] ++ rest := by
  obtain ⟨back, hback⟩ := l.exists_split c .condition
  rw [hback, front, events, hname]
  cases value with
  | none => exact ⟨_, rfl⟩
  | some value => exact ⟨_, rfl⟩

lemma front_pos (hname : l.initializer = some (.var name value)) {clause : Clause} :
    1 ≤ (l.front c clause).length := by
  cases clause <;> simp [front, opening, hname]

end

/-- A loop whose body is no declaration is hygienic, wherever it stands in a program. -/
theorem hygienic {l : ForLoop} {c : ClassContext} {p : Program} {before after : Traversal}
    (hp : p.events = before ++ (l.tree.events c ++ after)) (hbody : Settled (l.events c .body)) :
    l.Hygienic c before.length p := by
  obtain ⟨back, hback⟩ := l.exists_split c .body
  have hsplit : p.events =
      (before ++ l.front c .body) ++ (l.events c .body ++ (back ++ after)) := by
    rw [hp, hback]
    simp
  refine ⟨?_, ?_, ?_⟩
  · rintro clause (rfl | rfl) i k ⟨hi, hi'⟩ ⟨hk, hk'⟩ href
    · -- the condition is in front of the body
      obtain ⟨_, _, _, _, hki, -⟩ := href
      simp only [front, List.length_append] at hi' hk
      omega
    · rw [hsplit] at href
      refine hbody.not_refers ?_ ?_ ?_ href
      · rwa [List.length_append]
      · rwa [List.length_append]
      · simp only [front, List.length_append] at hi ⊢
        omega
  · rintro k name ⟨hk, hk'⟩ hat
    rw [hsplit, List.getElem?_append_right (by simpa using hk), List.length_append,
      List.getElem?_append_left (by omega)] at hat
    obtain ⟨j, hj, hopened, hb, -⟩ := hbody _ name hat
    refine ⟨before.length + (l.front c .body).length + j, ⟨by omega, by omega⟩, by omega, ?_, ?_⟩
    · rwa [hsplit, List.getElem?_append_right (by simp), List.length_append,
        Nat.add_sub_cancel_left, List.getElem?_append_left (by omega)]
    · rwa [hsplit, List.take_append, List.take_of_length_le (by simpa using hk),
        List.drop_append, List.drop_of_length_le (by simp; omega), List.nil_append,
        List.length_append, show before.length + (l.front c .body).length + j + 1 -
          (before.length + (l.front c .body).length) = j + 1 by omega,
        List.take_append_of_le_length (by omega)]
  · rintro name value hname clause i id hi hat
    obtain ⟨rest, hrest⟩ := exists_tree_of_var (c := c) hname
    have hdeclared : p.events[before.length + 1]? = some (.declared name.lexeme) := by
      rw [hp, hrest]
      simp
    -- the place is behind the declaration
    have hlt : before.length + 1 < i := by
      refine Nat.lt_of_le_of_ne (Nat.le_trans ?_ hi.1) ?_
      · exact Nat.add_le_add_left (front_pos hname) _
      · rintro rfl
        rw [hdeclared] at hat
        cases hat
    have hopen : IsOpen (p.events.take i) before.length := by
      rw [hp]
      exact isOpen_of_covers hname hi (by omega)
    have hin : DeclaredIn (p.events.take i) name.lexeme before.length := by
      refine ⟨before.length + 1, ?_, Nat.lt_succ_self _, ?_, ?_⟩
      · have hlength := (List.getElem?_eq_some_iff.mp hat).1
        rw [List.length_take]
        omega
      · rwa [List.getElem?_take_of_lt hlt]
      · rw [List.drop_of_length_le (List.length_take_le _ _)]
        exact balanced_nil
    have hsome := isSome_distance? hopen hin
    obtain ⟨k, href⟩ := exists_refers hat hsome
    refine ⟨?_, k, href, ?_⟩
    · obtain ⟨distance, hd⟩ := Option.isSome_iff_exists.mp hsome
      refine ⟨distance, ?_⟩
      rw [(Program.resolve_lexical p).1, List.mem_filterMap]
      refine ⟨i, List.mem_range.mpr (List.getElem?_eq_some_iff.mp hat).1, ?_⟩
      rw [hat, Option.bind_some, link?, hd]
      rfl
    · have hk := href.le_scope hat hopen hin
      have hki : k < i := by
        obtain ⟨_, _, _, _, hki, -⟩ := href
        exact hki
      by_cases hfront : before.length + (l.front c clause).length ≤ k
      · exact .inr ⟨hfront, Nat.lt_trans hki hi.2⟩
      · by_contra hne
        rw [not_or] at hne
        -- the declaration would be in front of the clause and behind the variable
        have hc : clause ≠ .initializer := by
          rintro rfl
          rw [front, hname] at hfront
          exact hfront hk
        obtain ⟨between, hbetween, hfronts⟩ := exists_settled_front hname hbody hc
        obtain ⟨back', hback'⟩ := l.exists_split c clause
        have hsplit' : p.events = (before ++ [Event.opened, .declared name.lexeme]) ++
            (between ++ (l.events c clause ++ (back' ++ after))) := by
          rw [hp, hback', hfronts]
          simp
        have hi := hi.1
        rw [hfronts] at hfront hi
        rw [hsplit'] at href
        simp only [List.length_append, List.length_cons, List.length_nil] at hfront hi
        refine hbetween.not_refers ?_ ?_ ?_ href
        · simp only [List.length_append, List.length_cons, List.length_nil]
          omega
        · simp only [List.length_append, List.length_cons, List.length_nil]
          omega
        · simp only [List.length_append, List.length_cons, List.length_nil]
          omega

/-! ### What is read for a loop -/

/-- The word `for` begins a loop with three clauses. -/
lemma exists_of_spells {ending : Ending} {ts : List Token} {s : Stmt}
    (h : Derives (.statement ending) ts s) (hk : Parser.headKind ts = .kwFor) :
    ∃ l : ForLoop, l.SpelledBy ts ∧ s = l.tree := by
  cases h with
  | expression hvalue _ =>
    obtain ⟨t, rest, rfl, hstarts, -⟩ := hvalue.opening
    rw [List.cons_append, Parser.headKind_cons] at hk
    rw [hk] at hstarts
    exact absurd hstarts (by decide)
  | print hkeyword _ _ => exact absurd (hkeyword.symm.trans hk) (by decide)
  | breakStmt hkeyword _ => exact absurd (hkeyword.symm.trans hk) (by decide)
  | returnStmt hkeyword _ _ => exact absurd (hkeyword.symm.trans hk) (by decide)
  | blockStmt hbody =>
    obtain ⟨t, rest, rfl, hopening⟩ := hbody.opening
    exact absurd (hopening.symm.trans hk) (by decide)
  | ifOnly hkeyword _ _ _ _ => exact absurd (hkeyword.symm.trans hk) (by decide)
  | ifElse hkeyword _ _ _ _ _ _ => exact absurd (hkeyword.symm.trans hk) (by decide)
  | whileStmt hkeyword _ _ _ _ => exact absurd (hkeyword.symm.trans hk) (by decide)
  | @forStmt _ _ _ _ _ _ _ _ _ initializer condition increment body _ hkeyword hopening hinitializer
      hfirst hcondition hsecond hincrement hclosing hbody =>
    refine ⟨⟨initializer, condition, increment, body⟩, ⟨_, _, _, _, _, _, _, _, _, _, rfl, hkeyword,
      hopening, hfirst, hsecond, hclosing, hinitializer, hcondition, hincrement, hbody⟩, ?_⟩
    exact (Parser.forLoop_eq_loop initializer condition increment body).symm

/-- A loop starts with a variable or with an expression, or with nothing. -/
lemma of_initializer {ts : List Token} {initializer : Option Stmt}
    (h : Derives .initializer ts initializer) :
    ∀ first ∈ initializer,
      (∃ name value, first = .var name value) ∨ ∃ e, first = .expression e := by
  cases h with
  | noInitializer => exact fun first hfirst => absurd hfirst (Option.not_mem_none first)
  | varInitializer _ hclause =>
    rintro first ⟨rfl⟩
    cases hclause with
    | uninitialized _ => exact .inl ⟨_, _, rfl⟩
    | initialized _ _ _ => exact .inl ⟨_, _, rfl⟩
  | expressionInitializer _ =>
    rintro first ⟨rfl⟩
    exact .inr ⟨_, rfl⟩

end ForLoop

/-- **Loops mean what they say.** Whatever is read from a `for` on is a loop with up to three
clauses, which the tokens spell. The statement that comes out ends in exactly the ways in which the
loop does: the initializer runs once, in a scope of its own; the condition is checked in front of
every round; a round is the body and, if that completes normally, the increment once; and a body
that breaks, returns or ends in a fault ends the loop. Wherever the statement stands in a program,
no reference in the condition or the increment is to a declaration in the body, and the name of the
variable of the initializer is seen in all clauses. -/
theorem for_statements_mean_loops {bound : Nat} {c d : Parser.Cursor} {s : Stmt}
    (hk : c.peek.kind = .kwFor) (h : Parser.readers bound .statement c = .ok s d)
    (hd : d.noted = #[]) :
    ∃ (l : ForLoop) (ts : List Token), c.rest = ts ++ d.rest ∧ l.SpelledBy ts ∧ s = l.tree ∧
      (∀ m o after, (Task.stmt s).Ends m o after ↔ l.Runs m o after) ∧
      ∀ p ks r, Located p ks r (.stmt s) → ∃ before after,
        p.events = before ++ (s.events r.classContext ++ after) ∧
        l.Hygienic r.classContext before.length p := by
  obtain ⟨-, ts, hrest, -, ending, hs, -⟩ :=
    (Parser.derived bound).statement c (fun _ => trivial) s d h hd
  have hkind : Parser.headKind ts = .kwFor := by
    obtain ⟨t, rest, rfl, -⟩ := hs.opening
    rwa [Parser.Cursor.peek, hrest] at hk
  obtain ⟨l, hl, rfl⟩ := ForLoop.exists_of_spells hs hkind
  have hl' := hl
  obtain ⟨_, _, _, _, _, _, _, _, _, _, -, -, -, -, -, -, hinitializer, -, -, hbody⟩ := hl'
  refine ⟨l, ts, hrest, hl, rfl,
    fun m o after => ForLoop.ends_tree (ForLoop.of_initializer hinitializer),
    fun p ks r hlocated => ?_⟩
  obtain ⟨before, after, hp⟩ := hlocated.exists_events
  exact ⟨before, after, hp, ForLoop.hygienic hp (hbody.shut r.classContext)⟩

/-- The `for` statement at the head of a source, if it is read without a mistake and executed to its
end as a program of its own: the tokens, the statement, what is behind it, and the machine at its
start and at its end. -/
def firstFor? (bound : Nat) (source : String) :
    Option (List Token × Stmt × Parser.Cursor × Machine × Machine) :=
  match scan source with
  | .error _ => none
  | .ok tokens =>
    match Parser.readers bound .statement ⟨tokens, 0, #[]⟩ with
    | .error _ _ => none
    | .ok s d =>
      let m := (Machine.start (.ofLimit none) [] .isolated 0).recordResolution (Program.resolve [s])
      match execute bound s m with
      | .ok .normal after =>
        if (tokens.headD (.endAt 0)).kind = .kwFor ∧ d.noted.isEmpty then
          some (tokens, s, d, m, after)
        else none
      | _ => none

lemma firstFor?_eq_some {bound : Nat} {source : String} {tokens : List Token} {s : Stmt}
    {d : Parser.Cursor} {m after : Machine}
    (h : firstFor? bound source = some (tokens, s, d, m, after)) :
    scan source = .ok tokens ∧ Parser.readers bound .statement ⟨tokens, 0, #[]⟩ = .ok s d ∧
      (tokens.headD (.endAt 0)).kind = .kwFor ∧ d.noted = #[] ∧
      (Task.stmt s).Ends m (.ok .normal) after := by
  unfold firstFor? at h
  split at h
  · cases h
  next tokens hscan =>
  split at h
  · cases h
  next s d hs =>
  dsimp only at h
  split at h
  · next after he =>
    split_ifs at h with htest
    cases h
    exact ⟨hscan, hs, htest.1, Array.isEmpty_iff.mp htest.2, bound, he⟩
  · cases h

/-- A body that declares the name of the variable once more: the increment still counts the rounds,
and the body prints its own value in each of the two. -/
theorem for_statements_mean_loops_redeclared :
    let source := "for (var i = 0; i < 2; i = i + 1) \x7b var i = 7; print i; \x7d"
    ∃ (tokens : List Token) (d : Parser.Cursor) (s : Stmt) (l : ForLoop) (ts : List Token)
      (before : Traversal) (m after : Machine), scan source = .ok tokens ∧
      Parser.readers 30 .statement ⟨tokens, 0, #[]⟩ = .ok s d ∧ l.SpelledBy ts ∧ s = l.tree ∧
      l.Runs m (.ok .normal) after ∧ after.sink.taken = "7\n7\n".toUTF8 ∧
      l.Hygienic .outside before.length [s] := by
  intro source
  have hruns : (firstFor? 30 source).any fun r => r.2.2.2.2.sink.taken = "7\n7\n".toUTF8 := by
    decide +kernel
  obtain ⟨⟨tokens, s, d, m, after⟩, hfirst, hprinted⟩ := (Option.any_eq_true _ _).mp hruns
  obtain ⟨hscan, hs, hk, hn, he⟩ := firstFor?_eq_some hfirst
  obtain ⟨l, ts, -, hl, rfl, hends, hhygienic⟩ :=
    for_statements_mean_loops (c := ⟨tokens, 0, #[]⟩) hk hs hn
  have hplace : Located [l.tree] [] .start (.stmt l.tree) :=
    .part (y := ⟨.stmt l.tree, [], .start⟩) .program List.mem_cons_self
  obtain ⟨before, -, -, hh⟩ := hhygienic _ _ _ hplace
  exact ⟨tokens, d, _, l, ts, before, m, after, hscan, hs, hl, rfl, (hends _ _ _).mp he,
    of_decide_eq_true hprinted, hh⟩

end Scripting
