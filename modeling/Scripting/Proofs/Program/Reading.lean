import Scripting.Program.Parser
import Scripting.Proofs.Program.Shape

/-!
# What reading gives

Whatever tokens it meets, reading gives well-formed trees and new identities: every node of a
program that is read has an identity of its own, taken from the range that reading has used up.
Trees are well-formed only if the words are spelled as their kinds say; identities are new anyway.
`Reads` states such a fact about one reader from one cursor; `Sound` collects it for the readers of
all syntactic classes. One step keeps it, so it holds within any bound. What they say under the
condition that words are spelled right has that condition as a parameter.
-/

namespace Scripting

namespace Parser

variable {α β : Type} {S : Prop}

/-- The number of identities that were given out. -/
abbrev Cursor.given (c : Cursor) : Nat :=
  c.nextId

/-- Under a condition, every word that is left to read is spelled as its kind says. -/
def Cursor.Spelled (S : Prop) (c : Cursor) : Prop :=
  S → ∀ t ∈ c.rest, t.Spelled

/-- From a cursor, a reader takes no identity back and, if it gives something, that is related to
the cursor it leaves. -/
def Reads (S : Prop) (c : Cursor) (x : Reader α) (Q : Cursor → α → Prop) : Prop :=
  c.Spelled S →
    match x c with
    | .ok a c' => c'.Spelled S ∧ c.given ≤ c'.given ∧ Q c' a
    | .error _ c' => c'.Spelled S ∧ c.given ≤ c'.given

lemma reads_pure {c : Cursor} {a : α} {Q : Cursor → α → Prop} (h : Q c a) :
    Reads S c (pure a) Q :=
  fun hs => ⟨hs, Nat.le_refl _, h⟩

lemma reads_stop (c : Cursor) (fault : SyntaxFault) (Q : Cursor → α → Prop) :
    Reads S c (stop fault) Q :=
  fun hs => ⟨hs, Nat.le_refl _⟩

lemma Reads.bind {c : Cursor} {x : Reader α} {f : α → Reader β} {Q : Cursor → α → Prop}
    {R : Cursor → β → Prop} (hx : Reads S c x Q)
    (hf : ∀ c' a, c.given ≤ c'.given → Q c' a → Reads S c' (f a) R) : Reads S c (x >>= f) R := by
  intro hs
  have hx := hx hs
  simp only [Bind.bind, EStateM.bind]
  cases h : x c with
  | error e c' =>
    rw [h] at hx
    exact hx
  | ok a c' =>
    rw [h] at hx
    obtain ⟨hs', hle, hq⟩ := hx
    have hf := hf c' a hle hq hs'
    dsimp only
    cases h' : f a c' with
    | error e c'' =>
      rw [h'] at hf
      exact ⟨hf.1, Nat.le_trans hle hf.2⟩
    | ok b c'' =>
      rw [h'] at hf
      exact ⟨hf.1, Nat.le_trans hle hf.2.1, hf.2.2⟩

lemma Reads.imp {c : Cursor} {x : Reader α} {Q R : Cursor → α → Prop} (hx : Reads S c x Q)
    (h : ∀ c' a, c.given ≤ c'.given → Q c' a → R c' a) : Reads S c x R := by
  intro hs
  have hx := hx hs
  cases hr : x c with
  | error e c' =>
    rw [hr] at hx
    exact hx
  | ok a c' =>
    rw [hr] at hx
    exact ⟨hx.1, hx.2.1, h c' a hx.2.1 hx.2.2⟩

/-! ### Single tokens -/

lemma Cursor.Spelled.peek {c : Cursor} (h : c.Spelled S) (hS : S) : c.peek.Spelled := by
  unfold Cursor.peek
  cases hr : c.rest with
  | nil => exact Token.spelled_endAt 0
  | cons t rest => exact h hS t (by simp [hr])

lemma Cursor.Spelled.advance {c : Cursor} (h : c.Spelled S) : c.advance.Spelled S := by
  unfold Cursor.advance
  split
  · exact h
  · next t rest hr =>
    split
    · exact h
    · intro hS t' ht'
      exact h hS t' (by simp [hr, show t' ∈ rest from ht'])

lemma Cursor.given_advance (c : Cursor) : c.advance.given = c.given := by
  unfold Cursor.advance
  split
  · rfl
  · split <;> rfl

lemma reads_peekKind (c : Cursor) : Reads S c peekKind fun c' kind => c' = c ∧ kind = c.peek.kind :=
  fun hs => ⟨hs, Nat.le_refl _, rfl, rfl⟩

lemma reads_take (c : Cursor) :
    Reads S c take fun c' t => c'.given = c.given ∧ t = c.peek ∧ (S → t.Spelled) :=
  fun hs => ⟨hs.advance, Nat.le_of_eq c.given_advance.symm, c.given_advance, rfl, hs.peek⟩

lemma reads_peekSecondKind (c : Cursor) :
    Reads S c peekSecondKind fun c' _ => c' = c :=
  fun hs => ⟨hs, Nat.le_refl _, rfl⟩

lemma reads_note (c : Cursor) (fault : SyntaxFault) (token : Token) :
    Reads S c (note fault token) fun c' _ => c'.given = c.given :=
  fun hs => ⟨hs, Nat.le_refl _, rfl⟩

lemma reads_noteHere (c : Cursor) (fault : SyntaxFault) :
    Reads S c (noteHere fault) fun c' _ => c'.given = c.given :=
  fun hs => ⟨hs, Nat.le_refl _, rfl⟩

lemma reads_accept? (c : Cursor) (kinds : List TokenKind) :
    Reads S c (accept? kinds) fun c' _ => c'.given = c.given := by
  refine (reads_peekKind c).bind ?_
  rintro c' kind - ⟨rfl, rfl⟩
  split
  · exact (reads_take _).bind fun c'' t _ ht => reads_pure ht.1
  · exact reads_pure rfl

lemma reads_accept (c : Cursor) (kind : TokenKind) :
    Reads S c (accept kind) fun c' _ => c'.given = c.given :=
  (reads_accept? c [kind]).bind fun _ _ _ h => reads_pure h

lemma reads_expect (c : Cursor) (kind : TokenKind) (fault : SyntaxFault) :
    Reads S c (expect kind fault) fun c' t =>
      c'.given = c.given ∧ t.kind = kind ∧ (S → t.Spelled) := by
  refine (reads_peekKind c).bind ?_
  rintro c' found - ⟨rfl, rfl⟩
  split
  · next hk => exact (reads_take _).imp fun c'' t _ ht => ⟨ht.1, by rw [ht.2.1, hk], ht.2.2⟩
  · exact reads_stop _ _ _

/-- An identifier names something. -/
lemma reads_expectName (c : Cursor) (fault : SyntaxFault) :
    Reads S c (expect .identifier fault) fun c' t => c'.given = c.given ∧ (S → t.IsName) :=
  (reads_expect c .identifier fault).imp fun _ _ _ h => ⟨h.1, fun hS => (h.2.2 hS).isName h.2.1⟩

lemma reads_freshId (c : Cursor) :
    Reads S c freshId fun c' id => id = c.given ∧ c'.given = c.given + 1 :=
  fun hs => ⟨hs, Nat.le_succ _, rfl, rfl⟩

lemma reads_endStatement (c : Cursor) :
    Reads S c endStatement fun c' _ => c'.given = c.given :=
  (reads_accept c .semicolon).bind fun _ _ _ h => reads_pure h

/-! ### Syntactic classes -/

/-- New identities from `lo` on up to the cursor, in a tree that is well-formed under the
condition. -/
structure Fits (S : Prop) (lo : Nat) (c : Cursor) (ids : List Nat) (wellFormed : Prop) : Prop where
  within : IdsWithin lo c.given ids
  wellFormed : S → wellFormed

/-- Everything that some readers read fits. -/
structure Sound (S : Prop) (r : Readers) : Prop where
  parameters : ∀ c count, Reads S c (r (.parameters count)) fun c' params =>
    c'.given = c.given ∧ (S → ∀ param ∈ params, param.IsName)
  expression : ∀ c, Reads S c (r .expression) fun c' e => Fits S c.given c' e.ids e.WellFormed
  ternary : ∀ c, Reads S c (r .ternary) fun c' e => Fits S c.given c' e.ids e.WellFormed
  level : ∀ c here, Reads S c (r (.level here)) fun c' e => Fits S c.given c' e.ids e.WellFormed
  operand : ∀ c here, Reads S c (r (.operand here)) fun c' e =>
    Fits S c.given c' e.ids e.WellFormed
  levelRest : ∀ c here (lo : Nat) left, lo ≤ c.given → Fits S lo c left.ids left.WellFormed →
    Reads S c (r (.levelRest here left)) fun c' e => Fits S lo c' e.ids e.WellFormed
  unary : ∀ c, Reads S c (r .unary) fun c' e => Fits S c.given c' e.ids e.WellFormed
  calls : ∀ c (lo : Nat) head, lo ≤ c.given → Fits S lo c head.ids head.WellFormed →
    Reads S c (r (.calls head)) fun c' e => Fits S lo c' e.ids e.WellFormed
  arguments : ∀ c count, Reads S c (r (.arguments count)) fun c' es =>
    Fits S c.given c' (exprsIds es) (ExprsWellFormed es)
  primary : ∀ c, Reads S c (r .primary) fun c' e => Fits S c.given c' e.ids e.WellFormed
  functionRest : ∀ c kind, Reads S c (r (.functionRest kind)) fun c' f =>
    Fits S c.given c' (stmtsIds f.2) ((∀ param ∈ f.1, param.IsName) ∧ StmtsWellFormed f.2)
  block : ∀ c, Reads S c (r .block) fun c' ss =>
    Fits S c.given c' (stmtsIds ss) (StmtsWellFormed ss)
  member : ∀ c kind, Reads S c (r (.member kind)) fun c' member =>
    match member with
    | .function f => Fits S c.given c' f.ids (f.name.IsName ∧ f.WellFormed)
    | .getter g => Fits S c.given c' g.ids (g.name.IsName ∧ g.WellFormed)
  members : ∀ c, Reads S c (r .members) fun c' members =>
    Fits S c.given c' (functionsIds members.1 ++ gettersIds members.2)
      (FunctionsWellFormed members.1 ∧ GettersWellFormed members.2)
  classDecl : ∀ c, Reads S c (r .classDecl) fun c' s => Fits S c.given c' s.ids s.WellFormed
  varDecl : ∀ c, Reads S c (r .varDecl) fun c' s => Fits S c.given c' s.ids s.WellFormed
  declaration : ∀ c, Reads S c (r .declaration) fun c' s => Fits S c.given c' s.ids s.WellFormed
  statement : ∀ c, Reads S c (r .statement) fun c' s =>
    Fits S c.given c' s.ids (s.declared? = none ∧ s.WellFormed)
  forStmt : ∀ c, Reads S c (r .forStmt) fun c' s =>
    Fits S c.given c' s.ids (s.declared? = none ∧ s.WellFormed)

namespace Fits

variable {lo mid : Nat} {c c' : Cursor} {xs ys : List Nat} {P Q R : Prop}

lemma nil (c : Cursor) (h : S → P) : Fits S lo c [] P :=
  ⟨.nil _ _, h⟩

/-- Nothing that came after was given an identity. -/
lemma keep (h : Fits S lo c xs P) (he : c'.given = c.given) : Fits S lo c' xs P :=
  ⟨he ▸ h.within, h.wellFormed⟩

/-- The same tree, seen from a cursor with the same identities behind it. -/
lemma start (h : Fits S mid c xs P) (he : mid = lo) : Fits S lo c xs P :=
  he ▸ h

lemma map (h : Fits S lo c xs P) (hpq : S → P → Q) : Fits S lo c xs Q :=
  ⟨h.within, fun hS => hpq hS (h.wellFormed hS)⟩

/-- Two trees read one after the other. -/
lemma append (hx : Fits S lo c xs P) (hlo : lo ≤ c.given) (hy : Fits S c.given c' ys Q)
    (hle : c.given ≤ c'.given) : Fits S lo c' (xs ++ ys) (P ∧ Q) :=
  ⟨hx.within.append hy.within hlo hle, fun hS => ⟨hx.wellFormed hS, hy.wellFormed hS⟩⟩

lemma perm (h : Fits S lo c xs P) (hp : xs.Perm ys) : Fits S lo c ys P :=
  ⟨h.within.perm hp, h.wellFormed⟩

end Fits

/-- A node with a new identity. -/
lemma reads_node {c : Cursor} {lo : Nat} {P : Prop} (hlo : c.given = lo) (hp : S → P)
    (node : NodeId → Expr) (hids : ∀ id, (node id).ids = [id])
    (hwf : ∀ id, P → (node id).WellFormed) :
    Reads S c (do return node (← freshId)) fun c' e => Fits S lo c' e.ids e.WellFormed := by
  refine (reads_freshId c).bind fun c₁ id _ h₁ => reads_pure ?_
  obtain ⟨rfl, h₁⟩ := h₁
  refine ⟨?_, fun hS => hwf _ (hp hS)⟩
  rw [hids, h₁, hlo]
  exact .singleton lo

/-- The identities in a loop with three clauses, in the order in which they are read. -/
lemma forLoop_ids (initializer : Option Stmt) (condition : Expr) (increment : Option Expr)
    (body : Stmt) :
    ((initializer.elim [] Stmt.ids ++
      (condition.ids ++ (increment.elim [] Expr.ids ++ body.ids))).Perm
        (forLoop initializer condition increment body).ids) := by
  cases increment with
  | none => cases initializer <;> simp [forLoop, Stmt.ids, stmtsIds]
  | some step =>
    have swap : (condition.ids ++ (step.ids ++ body.ids)).Perm
        (condition.ids ++ (body.ids ++ step.ids)) :=
      List.perm_append_comm.append_left condition.ids
    cases initializer with
    | none => simpa [forLoop, Stmt.ids, stmtsIds] using swap
    | some first => simpa [forLoop, Stmt.ids, stmtsIds] using swap.append_left first.ids

lemma forLoop_wellFormed {initializer : Option Stmt} {condition : Expr} {increment : Option Expr}
    {body : Stmt} (hi : initializer.elim True Stmt.WellFormed) (hc : condition.WellFormed)
    (hs : increment.elim True Expr.WellFormed) (hb : body.declared? = none ∧ body.WellFormed) :
    (forLoop initializer condition increment body).declared? = none ∧
      (forLoop initializer condition increment body).WellFormed := by
  cases increment with
  | none =>
    cases initializer with
    | none => exact ⟨rfl, hc, hb⟩
    | some first => exact ⟨rfl, hi, ⟨hc, hb⟩, trivial⟩
  | some step =>
    cases initializer with
    | none => exact ⟨rfl, hc, rfl, hb.2, hs, trivial⟩
    | some first => exact ⟨rfl, hi, ⟨hc, rfl, hb.2, hs, trivial⟩, trivial⟩

section Step

variable {r : Readers} (h : Sound S r)

include h

lemma parametersFrom_sound (c : Cursor) (count : Nat) :
    Reads S c (r.parametersFrom count) fun c' params =>
      c'.given = c.given ∧ (S → ∀ param ∈ params, param.IsName) := by
  refine (reads_expectName c _).bind fun c₁ name _ h₁ => ?_
  refine (reads_accept c₁ _).bind fun c₂ more _ h₂ => ?_
  split
  · refine (h.parameters c₂ _).bind fun c₃ params _ h₃ => reads_pure ⟨?_, ?_⟩
    · rw [h₃.1, h₂, h₁.1]
    · exact fun hS => by simpa using ⟨h₁.2 hS, h₃.2 hS⟩
  · refine reads_pure ⟨h₂.trans h₁.1, ?_⟩
    exact fun hS => by simpa using h₁.2 hS

lemma parameters_sound (c : Cursor) (count : Nat) :
    Reads S c (r.step (.parameters count)) fun c' params =>
      c'.given = c.given ∧ (S → ∀ param ∈ params, param.IsName) := by
  rw [Readers.step]
  split
  · refine (reads_noteHere c _).bind fun c₁ _ _ h₁ => ?_
    exact (parametersFrom_sound h c₁ count).imp fun c₂ _ _ h₂ => ⟨h₂.1.trans h₁, h₂.2⟩
  · exact parametersFrom_sound h c count

lemma expression_sound (c : Cursor) :
    Reads S c (r.step .expression) fun c' e => Fits S c.given c' e.ids e.WellFormed := by
  refine (h.ternary c).bind fun c₁ target le₁ h₁ => ?_
  refine (reads_accept? c₁ _).bind fun c₂ equals _ h₂ => ?_
  cases equals with
  | none => exact reads_pure (h₁.keep h₂)
  | some equals =>
    refine (h.expression c₂).bind fun c₃ value le₃ h₃ => ?_
    have hvalue : Fits S c.given c₃ value.ids value.WellFormed :=
      ⟨h₃.within.widen (by omega) (Nat.le_refl _), h₃.wellFormed⟩
    cases target with
    | name id name =>
      refine (reads_freshId c₃).bind fun c₄ id' le₄ h₄ => reads_pure ?_
      obtain ⟨rfl, h₄⟩ := h₄
      have hid : Fits S c₃.given c₄ [c₃.given] True :=
        ⟨by rw [h₄]; exact .singleton _, fun _ => trivial⟩
      exact (hvalue.append (by omega) hid le₄).map fun hS hw => ⟨h₁.wellFormed hS, hw.1⟩
    | get object name =>
      refine reads_pure ?_
      exact (h₁.keep h₂).append (by omega) h₃ le₃
    | _ => exact (reads_note c₃ _ _).bind fun c₄ _ _ h₄ => reads_pure (hvalue.keep h₄)

lemma ternary_sound (c : Cursor) :
    Reads S c (r.step .ternary) fun c' e => Fits S c.given c' e.ids e.WellFormed := by
  refine (h.level c .elvis).bind fun c₁ condition le₁ h₁ => ?_
  refine (reads_accept c₁ _).bind fun c₂ _ _ h₂ => ?_
  split
  · refine (h.expression c₂).bind fun c₃ first le₃ h₃ => ?_
    refine (reads_expect c₃ _ _).bind fun c₄ _ _ h₄ => ?_
    refine (h.ternary c₄).bind fun c₅ second le₅ h₅ => reads_pure ?_
    have hboth := (h₃.keep h₄.1).append (by omega) h₅ le₅
    exact (h₁.keep h₂).append (by omega) hboth (by omega)
  · exact reads_pure (h₁.keep h₂)

lemma level_sound (c : Cursor) (here : Level) :
    Reads S c (r.step (.level here)) fun c' e => Fits S c.given c' e.ids e.WellFormed := by
  exact (h.operand c here).bind fun c₁ left le₁ h₁ => h.levelRest c₁ here _ left le₁ h₁

lemma operand_sound (c : Cursor) (here : Level) :
    Reads S c (r.step (.operand here)) fun c' e => Fits S c.given c' e.ids e.WellFormed := by
  rw [Readers.step]
  split
  · exact h.level c _
  · exact h.unary c

lemma levelRest_sound (c : Cursor) (here : Level) (lo : Nat) (left : Expr)
    (hlo : lo ≤ c.given) (hl : Fits S lo c left.ids left.WellFormed) :
    Reads S c (r.step (.levelRest here left)) fun c' e => Fits S lo c' e.ids e.WellFormed := by
  refine (reads_accept? c _).bind fun c₁ operator _ h₁ => ?_
  cases operator with
  | none => exact reads_pure (hl.keep h₁)
  | some operator =>
    refine (h.operand c₁ here).bind fun c₂ right le₂ h₂ => ?_
    have hjoin := (hl.keep h₁).append (by omega) h₂ le₂
    refine h.levelRest c₂ here lo _ (by omega) ?_
    cases here <;> exact hjoin

lemma unary_sound (c : Cursor) :
    Reads S c (r.step .unary) fun c' e => Fits S c.given c' e.ids e.WellFormed := by
  refine (reads_accept? c _).bind fun c₁ operator _ h₁ => ?_
  cases operator with
  | some operator =>
    exact (h.unary c₁).bind fun c₂ operand _ h₂ => reads_pure (h₂.start h₁)
  | none =>
    refine (h.primary c₁).bind fun c₂ head le₂ h₂ => ?_
    exact h.calls c₂ _ head (by omega) (h₂.start h₁)

/-- The arguments of a call are read behind its head. -/
lemma callRest_sound {c₀ c : Cursor} {lo : Nat} {head : Expr} {es : List Expr} (hlo : lo ≤ c₀.given)
    (hle : c₀.given ≤ c.given) (hh : Fits S lo c₀ head.ids head.WellFormed)
    (hes : Fits S c₀.given c (exprsIds es) (ExprsWellFormed es)) :
    Reads S c (r.callRest head es) fun c' e => Fits S lo c' e.ids e.WellFormed := by
  refine (reads_expect c _ _).bind fun c₁ paren _ h₁ => ?_
  exact h.calls c₁ lo _ (by omega) ((hh.append hlo hes hle).keep h₁.1)

lemma calls_sound (c : Cursor) (lo : Nat) (head : Expr) (hlo : lo ≤ c.given)
    (hh : Fits S lo c head.ids head.WellFormed) :
    Reads S c (r.step (.calls head)) fun c' e => Fits S lo c' e.ids e.WellFormed := by
  refine (reads_accept? c _).bind fun c₁ token _ h₁ => ?_
  cases token with
  | none => exact reads_pure (hh.keep h₁)
  | some token =>
    dsimp only
    split
    · refine (reads_peekKind c₁).bind ?_
      rintro c₂ kind - ⟨rfl, -⟩
      have hhead := hh.keep h₁
      split
      · exact callRest_sound h (by omega) (Nat.le_refl _) hhead (.nil _ fun _ => trivial)
      · exact (h.arguments c₂ 0).bind fun c₃ es le₃ h₃ =>
          callRest_sound h (by omega) le₃ hhead h₃
    · refine (reads_expectName c₁ _).bind fun c₂ name _ h₂ => ?_
      exact h.calls c₂ lo _ (by omega) ((hh.keep h₁).keep h₂.1)
    · refine (reads_expectName c₁ _).bind fun c₂ name _ h₂ => ?_
      exact h.calls c₂ lo _ (by omega) ((hh.keep h₁).keep h₂.1)

lemma argumentsFrom_sound (c : Cursor) (count : Nat) :
    Reads S c (r.argumentsFrom count) fun c' es =>
      Fits S c.given c' (exprsIds es) (ExprsWellFormed es) := by
  refine (h.expression c).bind fun c₁ argument le₁ h₁ => ?_
  refine (reads_accept c₁ _).bind fun c₂ more _ h₂ => ?_
  have hfirst := h₁.keep h₂
  split
  · refine (h.arguments c₂ _).bind fun c₃ es le₃ h₃ => reads_pure ?_
    exact hfirst.append (by omega) h₃ le₃
  · refine reads_pure ?_
    exact hfirst.append (by omega) (.nil _ fun _ => trivial) (Nat.le_refl _)

lemma arguments_sound (c : Cursor) (count : Nat) :
    Reads S c (r.step (.arguments count)) fun c' es =>
      Fits S c.given c' (exprsIds es) (ExprsWellFormed es) := by
  rw [Readers.step]
  split
  · refine (reads_noteHere c _).bind fun c₁ _ _ h₁ => ?_
    exact (argumentsFrom_sound h c₁ count).imp fun c₂ es _ h₂ => h₂.start h₁
  · exact argumentsFrom_sound h c count

lemma primary_sound (c : Cursor) :
    Reads S c (r.step .primary) fun c' e => Fits S c.given c' e.ids e.WellFormed := by
  refine (reads_peekKind c).bind ?_
  rintro c₁ kind - ⟨rfl, hk⟩
  split
  · exact (reads_take _).bind fun c₂ _ _ h₂ => reads_pure (.nil _ fun _ => trivial)
  · exact (reads_take _).bind fun c₂ _ _ h₂ => reads_pure (.nil _ fun _ => trivial)
  · exact (reads_take _).bind fun c₂ _ _ h₂ => reads_pure (.nil _ fun _ => trivial)
  · exact (reads_take _).bind fun c₂ _ _ h₂ => reads_pure (.nil _ fun _ => trivial)
  · exact (reads_take _).bind fun c₂ _ _ h₂ => reads_pure (.nil _ fun _ => trivial)
  · -- `this`
    refine (reads_take _).bind fun c₂ keyword _ h₂ => ?_
    have hw (hS : S) : keyword.lexeme = "this" := (h₂.2.2 hS).lexeme_this (by rw [h₂.2.1, ← hk])
    exact reads_node h₂.1 hw (fun id => .this id keyword) (fun _ => rfl) fun _ hw => hw
  · -- `super`
    refine (reads_take _).bind fun c₂ keyword _ h₂ => ?_
    have hw (hS : S) : keyword.lexeme = "super" := (h₂.2.2 hS).lexeme_super (by rw [h₂.2.1, ← hk])
    refine (reads_expect c₂ _ _).bind fun c₃ _ _ h₃ => ?_
    refine (reads_expect c₃ _ _).bind fun c₄ method _ h₄ => ?_
    exact reads_node (by omega) hw (fun id => .super id keyword method) (fun _ => rfl)
      fun _ hw => hw
  · -- a name
    refine (reads_take _).bind fun c₂ name _ h₂ => ?_
    have hn (hS : S) : name.IsName := (h₂.2.2 hS).isName (by rw [h₂.2.1, ← hk])
    exact reads_node h₂.1 hn (fun id => .name id name) (fun _ => rfl) fun _ hn => hn
  · -- a lambda
    refine (reads_take _).bind fun c₂ keyword _ h₂ => ?_
    refine (reads_expect c₂ _ _).bind fun c₃ _ _ h₃ => ?_
    refine (h.functionRest c₃ _).bind fun c₄ f _ h₄ => reads_pure ?_
    exact h₄.start (by omega)
  · -- a group
    refine (reads_take _).bind fun c₂ _ _ h₂ => ?_
    refine (h.expression c₂).bind fun c₃ inner _ h₃ => ?_
    refine (reads_expect c₃ _ _).bind fun c₄ _ _ h₄ => reads_pure ?_
    exact (h₃.keep h₄.1).start h₂.1
  · exact reads_stop _ _ _

lemma functionBody_sound (c : Cursor) (kind : DeclKind) {params : List Token}
    (hp : S → ∀ param ∈ params, param.IsName) :
    Reads S c (r.functionBody kind params) fun c' f =>
      Fits S c.given c' (stmtsIds f.2) ((∀ param ∈ f.1, param.IsName) ∧ StmtsWellFormed f.2) := by
  refine (reads_expect c _ _).bind fun c₁ _ _ h₁ => ?_
  refine (reads_expect c₁ _ _).bind fun c₂ _ _ h₂ => ?_
  refine (h.block c₂).bind fun c₃ body _ h₃ => reads_pure ?_
  exact (h₃.start (by omega)).map fun hS hb => ⟨hp hS, hb⟩

lemma functionRest_sound (c : Cursor) (kind : DeclKind) :
    Reads S c (r.step (.functionRest kind)) fun c' f =>
      Fits S c.given c' (stmtsIds f.2) ((∀ param ∈ f.1, param.IsName) ∧ StmtsWellFormed f.2) := by
  refine (reads_peekKind c).bind ?_
  rintro c₁ found - ⟨rfl, -⟩
  split
  · exact functionBody_sound h c₁ kind (by simp)
  · refine (h.parameters c₁ 0).bind fun c₂ params _ h₂ => ?_
    exact (functionBody_sound h c₂ kind h₂.2).imp fun c₃ f _ h₃ => h₃.start h₂.1

lemma block_sound (c : Cursor) :
    Reads S c (r.step .block) fun c' ss =>
      Fits S c.given c' (stmtsIds ss) (StmtsWellFormed ss) := by
  refine (reads_peekKind c).bind ?_
  rintro c₁ kind - ⟨rfl, -⟩
  split
  · exact (reads_take _).bind fun c₂ _ _ h₂ => reads_pure (.nil _ fun _ => trivial)
  · exact reads_stop _ _ _
  · refine (h.declaration c₁).bind fun c₂ first le₂ h₂ => ?_
    refine (h.block c₂).bind fun c₃ rest le₃ h₃ => reads_pure ?_
    exact h₂.append le₂ h₃ le₃

lemma member_sound (c : Cursor) (kind : DeclKind) :
    Reads S c (r.step (.member kind)) fun c' member =>
      match member with
      | .function f => Fits S c.given c' f.ids (f.name.IsName ∧ f.WellFormed)
      | .getter g => Fits S c.given c' g.ids (g.name.IsName ∧ g.WellFormed) := by
  refine (reads_expectName c _).bind fun c₁ name _ h₁ => ?_
  refine (reads_accept c₁ _).bind fun c₂ _ _ h₂ => ?_
  split
  · refine (h.block c₂).bind fun c₃ body _ h₃ => reads_pure ?_
    exact (h₃.start (by omega)).map fun hS hb => ⟨h₁.2 hS, hb⟩
  · refine (reads_expect c₂ _ _).bind fun c₃ _ _ h₃ => ?_
    refine (h.functionRest c₃ kind).bind fun c₄ f _ h₄ => reads_pure ?_
    exact (h₄.start (by omega)).map fun hS hf => ⟨h₁.2 hS, hf⟩

lemma members_sound (c : Cursor) :
    Reads S c (r.step .members) fun c' members =>
      Fits S c.given c' (functionsIds members.1 ++ gettersIds members.2)
        (FunctionsWellFormed members.1 ∧ GettersWellFormed members.2) := by
  refine (reads_peekKind c).bind ?_
  rintro c₁ kind - ⟨rfl, -⟩
  split
  · exact reads_pure (.nil _ fun _ => ⟨trivial, trivial⟩)
  · exact reads_pure (.nil _ fun _ => ⟨trivial, trivial⟩)
  · refine (h.member c₁ .method).bind fun c₂ first le₂ h₂ => ?_
    refine (h.members c₂).bind fun c₃ rest le₃ h₃ => ?_
    cases first with
    | function f =>
      have hjoin := Fits.append h₂ le₂ h₃ le₃
      refine reads_pure (Fits.map (P := _ ∧ _) ⟨?_, hjoin.wellFormed⟩ fun _ hw => ?_)
      · simpa [functionsIds, List.append_assoc] using hjoin.within
      · exact ⟨⟨hw.1.2, hw.2.1⟩, hw.2.2⟩
    | getter g =>
      -- the getter comes behind the methods, though it was read before them
      have hjoin := Fits.append h₂ le₂ h₃ le₃
      refine reads_pure (Fits.map (P := _ ∧ _) ⟨?_, hjoin.wellFormed⟩ fun _ hw => ?_)
      · refine hjoin.within.perm ?_
        simp only [gettersIds, ← List.append_assoc]
        exact List.perm_append_comm.append_right _
      · exact ⟨hw.2.1, hw.1.2, hw.2.2⟩

lemma classBody_sound {lo : Nat} {c : Cursor} {name : Token} {superclass : Option Expr}
    (hlo : lo ≤ c.given) (hn : S → name.IsName)
    (hs : Fits S lo c (superclass.elim [] Expr.ids)
      (∀ e ∈ superclass, ∃ id superName, e = .name id superName ∧ superName.IsName)) :
    Reads S c (r.classBody name superclass) fun c' s => Fits S lo c' s.ids s.WellFormed := by
  refine (reads_expect c _ _).bind fun c₁ _ _ h₁ => ?_
  refine (h.members c₁).bind fun c₂ members le₂ h₂ => ?_
  refine (reads_expect c₂ _ _).bind fun c₃ _ _ h₃ => reads_pure ?_
  have hjoin := ((hs.keep h₁.1).append (by omega) h₂ le₂).keep h₃.1
  cases superclass with
  | none => exact hjoin.map fun hS hw => ⟨hn hS, hw.2⟩
  | some superclass => exact hjoin.map fun hS hw => ⟨hn hS, hw.1 superclass rfl, hw.2⟩

lemma classDecl_sound (c : Cursor) :
    Reads S c (r.step .classDecl) fun c' s => Fits S c.given c' s.ids s.WellFormed := by
  refine (reads_expectName c _).bind fun c₁ name _ h₁ => ?_
  refine (reads_accept c₁ _).bind fun c₂ derived _ h₂ => ?_
  split
  · refine (reads_expectName c₂ _).bind fun c₃ superName _ h₃ => ?_
    refine (reads_freshId c₃).bind fun c₄ id _ h₄ => ?_
    obtain ⟨rfl, h₄⟩ := h₄
    have hid : Fits S c.given c₄ [c₃.given] True :=
      ⟨by rw [h₄]; exact (IdsWithin.singleton _).widen (by omega) (Nat.le_refl _), fun _ => trivial⟩
    refine classBody_sound h (by omega) h₁.2 (hid.map fun hS _ => ?_)
    rintro e ⟨⟩
    exact ⟨_, superName, rfl, h₃.2 hS⟩
  · exact classBody_sound h (by omega) h₁.2 (.nil _ fun _ => by simp)

lemma varDecl_sound (c : Cursor) :
    Reads S c (r.step .varDecl) fun c' s => Fits S c.given c' s.ids s.WellFormed := by
  refine (reads_expectName c _).bind fun c₁ name _ h₁ => ?_
  refine (reads_accept c₁ _).bind fun c₂ _ _ h₂ => ?_
  split
  · refine (h.expression c₂).bind fun c₃ value _ h₃ => reads_pure ?_
    exact (h₃.start (by omega)).map fun hS hv => ⟨h₁.2 hS, hv⟩
  · exact reads_pure (.nil _ h₁.2)

lemma declaration_sound (c : Cursor) :
    Reads S c (r.step .declaration) fun c' s => Fits S c.given c' s.ids s.WellFormed := by
  have stated : Reads S c (r .statement) fun c' s => Fits S c.given c' s.ids s.WellFormed :=
    (h.statement c).imp fun c' s _ hs => hs.map fun _ => And.right
  refine (reads_peekKind c).bind ?_
  rintro c₁ kind - ⟨rfl, -⟩
  split
  · refine (reads_take _).bind fun c₂ _ _ h₂ => ?_
    exact (h.classDecl c₂).imp fun c₃ s _ h₃ => h₃.start h₂.1
  · refine (reads_take _).bind fun c₂ _ _ h₂ => ?_
    refine (h.varDecl c₂).bind fun c₃ s _ h₃ => ?_
    exact (reads_endStatement c₃).bind fun c₄ _ _ h₄ => reads_pure ((h₃.keep h₄).start h₂.1)
  · refine (reads_peekSecondKind c₁).bind ?_
    rintro c₂ second - rfl
    split
    · refine (reads_take _).bind fun c₃ _ _ h₃ => ?_
      refine (h.member c₃ .function).bind fun c₄ member _ h₄ => ?_
      cases member with
      | function f => exact reads_pure (Fits.start h₄ h₃.1)
      | getter g => exact reads_pure (Fits.start h₄ h₃.1)
    · exact stated
  · exact stated

lemma statement_sound (c : Cursor) :
    Reads S c (r.step .statement) fun c' s =>
      Fits S c.given c' s.ids (s.declared? = none ∧ s.WellFormed) := by
  refine (reads_peekKind c).bind ?_
  rintro c₁ kind - ⟨rfl, -⟩
  split
  · -- `if`
    refine (reads_take _).bind fun c₂ _ _ h₂ => ?_
    refine (reads_expect c₂ _ _).bind fun c₃ _ _ h₃ => ?_
    refine (h.expression c₃).bind fun c₄ condition le₄ h₄ => ?_
    refine (reads_expect c₄ _ _).bind fun c₅ _ _ h₅ => ?_
    refine (h.statement c₅).bind fun c₆ consequent le₆ h₆ => ?_
    refine (reads_accept c₆ _).bind fun c₇ _ _ h₇ => ?_
    have hcondition := (h₄.start (by omega : _ = c₁.given)).keep h₅.1
    split
    · refine (h.statement c₇).bind fun c₈ alternative le₈ h₈ => reads_pure ?_
      have hboth := (h₆.keep h₇).append (by omega) h₈ le₈
      have hjoin := hcondition.append (by omega) hboth (by omega)
      exact hjoin.map fun _ hw => ⟨rfl, hw⟩
    · refine reads_pure ?_
      have hjoin := hcondition.append (by omega) (h₆.keep h₇) (by omega)
      exact hjoin.map fun _ hw => ⟨rfl, hw⟩
  · -- `while`
    refine (reads_take _).bind fun c₂ _ _ h₂ => ?_
    refine (reads_expect c₂ _ _).bind fun c₃ _ _ h₃ => ?_
    refine (h.expression c₃).bind fun c₄ condition le₄ h₄ => ?_
    refine (reads_expect c₄ _ _).bind fun c₅ _ _ h₅ => ?_
    refine (h.statement c₅).bind fun c₆ body le₆ h₆ => reads_pure ?_
    have hcondition := (h₄.start (by omega : _ = c₁.given)).keep h₅.1
    exact (hcondition.append (by omega) h₆ le₆).map fun _ hw => ⟨rfl, hw⟩
  · -- `return`
    refine (reads_take _).bind fun c₂ keyword _ h₂ => ?_
    have hended : ∀ (c₃ : Cursor) (value : Option Expr),
        Fits S c₁.given c₃ (Stmt.returnStmt keyword value).ids
          (Stmt.returnStmt keyword value).WellFormed →
        Reads S c₃ (ended (.returnStmt keyword value)) fun c' s =>
          Fits S c₁.given c' s.ids (s.declared? = none ∧ s.WellFormed) := by
      intro c₃ value h₃
      refine (reads_endStatement c₃).bind fun c₄ _ _ h₄ => reads_pure ?_
      exact (h₃.keep h₄).map fun _ hw => ⟨rfl, hw⟩
    refine (reads_peekKind c₂).bind ?_
    rintro c₃ kind - ⟨rfl, -⟩
    split
    · exact hended _ none (.nil _ fun _ => trivial)
    · exact hended _ none (.nil _ fun _ => trivial)
    · exact hended _ none (.nil _ fun _ => trivial)
    · refine Reads.bind (Q := fun c' value => Fits S c₁.given c'
        (Stmt.returnStmt keyword value).ids (Stmt.returnStmt keyword value).WellFormed) ?_
        fun c₄ value _ h₄ => hended c₄ value h₄
      exact (h.expression c₃).bind fun c₄ value _ h₄ => reads_pure (h₄.start h₂.1)
  · -- `for`
    refine (reads_take _).bind fun c₂ _ _ h₂ => ?_
    exact (h.forStmt c₂).imp fun c₃ s _ h₃ => h₃.start h₂.1
  · -- `print`
    refine (reads_take _).bind fun c₂ keyword _ h₂ => ?_
    refine (h.expression c₂).bind fun c₃ value _ h₃ => ?_
    refine (reads_endStatement c₃).bind fun c₄ _ _ h₄ => reads_pure ?_
    exact ((h₃.keep h₄).start h₂.1).map fun _ hw => ⟨rfl, hw⟩
  · -- `break`
    refine (reads_take _).bind fun c₂ keyword _ h₂ => ?_
    exact (reads_endStatement c₂).bind fun c₃ _ _ h₃ => reads_pure (.nil _ fun _ => ⟨rfl, trivial⟩)
  · -- a block
    refine (reads_take _).bind fun c₂ _ _ h₂ => ?_
    refine (h.block c₂).bind fun c₃ body _ h₃ => reads_pure ?_
    exact (h₃.start h₂.1).map fun _ hw => ⟨rfl, hw⟩
  · refine (h.expression c₁).bind fun c₃ value _ h₃ => ?_
    refine (reads_endStatement c₃).bind fun c₄ _ _ h₄ => reads_pure ?_
    exact (h₃.keep h₄).map fun _ hw => ⟨rfl, hw⟩

/-- The identities and the conditions of the clauses of a loop that were read. -/
lemma forBody_sound {lo : Nat} {c : Cursor} {initializer : Option Stmt} {condition : Expr}
    {increment : Option Expr} (hlo : lo ≤ c.given)
    (hclauses : Fits S lo c
      (initializer.elim [] Stmt.ids ++ (condition.ids ++ increment.elim [] Expr.ids))
      (initializer.elim True Stmt.WellFormed ∧
        condition.WellFormed ∧ increment.elim True Expr.WellFormed)) :
    Reads S c (r.forBody initializer condition increment) fun c' s =>
      Fits S lo c' s.ids (s.declared? = none ∧ s.WellFormed) := by
  refine (reads_expect c _ _).bind fun c₁ _ _ h₁ => ?_
  refine (h.statement c₁).bind fun c₂ body le₂ h₂ => reads_pure ?_
  have hall := (hclauses.keep h₁.1).append (by omega) h₂ le₂
  simp only [List.append_assoc] at hall
  refine (hall.perm (forLoop_ids initializer condition increment body)).map fun hS hw => ?_
  exact forLoop_wellFormed hw.1.1 hw.1.2.1 hw.1.2.2 hw.2

lemma forIncrement_sound {lo : Nat} {c : Cursor} {initializer : Option Stmt} {condition : Expr}
    (hlo : lo ≤ c.given)
    (hclauses : Fits S lo c (initializer.elim [] Stmt.ids ++ condition.ids)
      (initializer.elim True Stmt.WellFormed ∧ condition.WellFormed)) :
    Reads S c (r.forIncrement initializer condition) fun c' s =>
      Fits S lo c' s.ids (s.declared? = none ∧ s.WellFormed) := by
  have bodied : ∀ (c₁ : Cursor) (increment : Option Expr), c.given ≤ c₁.given →
      Fits S c.given c₁ (increment.elim [] Expr.ids) (increment.elim True Expr.WellFormed) →
      Reads S c₁ (r.forBody initializer condition increment) fun c' s =>
        Fits S lo c' s.ids (s.declared? = none ∧ s.WellFormed) := by
    intro c₁ increment le₁ h₁
    have hall := hclauses.append hlo h₁ le₁
    rw [List.append_assoc] at hall
    exact forBody_sound h (by omega) (hall.map fun _ hw => ⟨hw.1.1, hw.1.2, hw.2⟩)
  refine (reads_expect c _ _).bind fun c₁ _ _ h₁ => ?_
  refine (reads_peekKind c₁).bind ?_
  rintro c₂ kind - ⟨rfl, -⟩
  split
  · exact bodied _ none (by omega) (.nil _ fun _ => trivial)
  · refine Reads.bind (Q := fun c' increment => Fits S c.given c'
      (increment.elim [] Expr.ids) (increment.elim True Expr.WellFormed)) ?_
      fun c₃ increment le₃ h₃ => bodied c₃ increment (by omega) h₃
    exact (h.expression c₂).bind fun c₃ step _ h₃ => reads_pure (h₃.start h₁.1)

lemma forCondition_sound {lo : Nat} {c : Cursor} {initializer : Option Stmt} (hlo : lo ≤ c.given)
    (hi : Fits S lo c (initializer.elim [] Stmt.ids) (initializer.elim True Stmt.WellFormed)) :
    Reads S c (r.forCondition initializer) fun c' s =>
      Fits S lo c' s.ids (s.declared? = none ∧ s.WellFormed) := by
  refine (reads_peekKind c).bind ?_
  rintro c₁ kind - ⟨rfl, -⟩
  split
  · exact forIncrement_sound h hlo (hi.append hlo (.nil _ fun _ => trivial) (Nat.le_refl _))
  · exact (h.expression c₁).bind fun c₂ condition le₂ h₂ =>
      forIncrement_sound h (by omega) (hi.append hlo h₂ le₂)

lemma forStmt_sound (c : Cursor) :
    Reads S c (r.step .forStmt) fun c' s =>
      Fits S c.given c' s.ids (s.declared? = none ∧ s.WellFormed) := by
  refine (reads_expect c _ _).bind fun c₁ _ _ h₁ => ?_
  refine (reads_peekKind c₁).bind ?_
  rintro c₂ kind - ⟨rfl, -⟩
  split
  · refine (reads_take _).bind fun c₃ _ _ h₃ => ?_
    exact forCondition_sound h (by omega) (.nil _ fun _ => trivial)
  · refine (reads_take _).bind fun c₃ _ _ h₃ => ?_
    refine (h.varDecl c₃).bind fun c₄ first _ h₄ => ?_
    refine (reads_expect c₄ _ _).bind fun c₅ _ _ h₅ => ?_
    exact forCondition_sound h (by omega) ((h₄.keep h₅.1).start (by omega))
  · refine (h.expression c₂).bind fun c₃ first _ h₃ => ?_
    refine (reads_expect c₃ _ _).bind fun c₄ _ _ h₄ => ?_
    exact forCondition_sound h (by omega) ((h₃.keep h₄.1).start h₁.1)

/-- One step keeps it that what is read fits. -/
lemma Sound.step : Sound S r.step :=
  ⟨parameters_sound h, expression_sound h, ternary_sound h, level_sound h, operand_sound h,
    levelRest_sound h, unary_sound h, calls_sound h, arguments_sound h, primary_sound h,
    functionRest_sound h, block_sound h, member_sound h, members_sound h, classDecl_sound h,
    varDecl_sound h, declaration_sound h, statement_sound h, forStmt_sound h⟩

end Step

/-- Whatever is read within any bound fits. -/
theorem sound (S : Prop) (bound : Nat) : Sound S (readers bound) := by
  induction bound with
  | zero => constructor <;> intros <;> exact reads_stop _ _ _
  | succ bound h => exact h.step

lemma skipToStatement_subset (previous : Token) (rest : List Token) :
    ∀ t ∈ skipToStatement previous rest, t ∈ rest := by
  induction rest generalizing previous with
  | nil => simp [skipToStatement]
  | cons head rest ih =>
    intro t ht
    unfold skipToStatement at ht
    split at ht
    · exact ht
    · exact List.mem_cons_of_mem head (ih head t ht)

lemma Cursor.Spelled.synchronize {c : Cursor} (h : c.Spelled S) : (synchronize c).Spelled S :=
  fun hS t ht => h.advance hS t (skipToStatement_subset _ _ t ht)

/-- The declarations of a whole text, with those that were found before. -/
lemma declarations_fit {read : Reader Stmt}
    (hread : ∀ c, Reads S c read fun c' s => Fits S c.given c' s.ids s.WellFormed) (rounds : Nat)
    {lo : Nat} {c : Cursor} {found : Array Stmt} (hs : c.Spelled S) (hlo : lo ≤ c.given)
    (hf : Fits S lo c (stmtsIds found.toList) (StmtsWellFormed found.toList)) :
    Fits S lo (declarations read rounds c found).2
        (stmtsIds (declarations read rounds c found).1.toList)
        (StmtsWellFormed (declarations read rounds c found).1.toList) ∧
      lo ≤ (declarations read rounds c found).2.given := by
  induction rounds generalizing c found with
  | zero => exact ⟨hf, hlo⟩
  | succ rounds ih =>
    unfold declarations
    split
    · exact ⟨hf, hlo⟩
    · have hd := hread c hs
      cases hr : read c with
      | ok s c' =>
        rw [hr] at hd
        obtain ⟨hs', hle, hfit⟩ := hd
        refine ih hs' (by omega) ?_
        have hjoin := hf.append hlo hfit hle
        rw [Array.toList_push, stmtsIds_concat]
        exact hjoin.map fun _ hw => stmtsWellFormed_concat hw.1 hw.2
      | error e c' =>
        rw [hr] at hd
        have hgiven : (c'.recover e).given = c'.given := Cursor.given_advance _
        have hle : lo ≤ (c'.recover e).given := by omega
        refine ih (Cursor.Spelled.synchronize hd.1) hle ?_
        exact ⟨hf.within.widen (Nat.le_refl _) (by omega), hf.wellFormed⟩

end Parser

section Programs

variable {S : Prop} {nextId next : NodeId} {tokens : List Token} {p : Program}

/-- What `Program.parse` reads, whether or not it comes to a program. -/
lemma Program.parsed_fit (nextId : NodeId) (hs : S → ∀ t ∈ tokens, t.Spelled) :
    let read := Parser.readers (Parser.boundPerToken * (tokens.length + 1)) .declaration
    let parsed := Parser.declarations read (tokens.length + 1) ⟨tokens, nextId, #[]⟩ #[]
    Parser.Fits S nextId parsed.2 (stmtsIds parsed.1.toList) (StmtsWellFormed parsed.1.toList) ∧
      nextId ≤ parsed.2.given :=
  Parser.declarations_fit (Parser.sound S _).declaration (tokens.length + 1) hs (Nat.le_refl _)
    (.nil _ fun _ => trivial)

/-- A program that is read has new identities, and under a condition that makes its words spelled
right it is well-formed. -/
lemma Program.parse_declarations (hs : S → ∀ t ∈ tokens, t.Spelled)
    (h : Program.parse nextId tokens = (.ok p, next)) :
    (S → StmtsWellFormed p) ∧ IdsWithin nextId next (stmtsIds p) := by
  have hfit := (Program.parsed_fit nextId hs).1
  simp only [Program.parse, Prod.mk.injEq] at h
  obtain ⟨hp, rfl⟩ := h
  split at hp
  · obtain rfl := Except.ok.inj hp
    exact ⟨hfit.wellFormed, hfit.within⟩
  · simp at hp

/-- A program that is read from well-spelled tokens is well-formed, and its identities are all
different and new. -/
theorem Program.parse_fits (hs : ∀ t ∈ tokens, t.Spelled)
    (h : Program.parse nextId tokens = (.ok p, next)) :
    StmtsWellFormed p ∧ IdsWithin nextId next (stmtsIds p) := by
  obtain ⟨hp, hids⟩ := Program.parse_declarations (fun _ : True => hs) h
  exact ⟨hp trivial, hids⟩

/-- Whatever tokens a program is read from, its identities are all different and new. -/
theorem Program.parse_ids (h : Program.parse nextId tokens = (.ok p, next)) :
    IdsWithin nextId next (stmtsIds p) :=
  (Program.parse_declarations (S := False) False.elim h).2

/-- Reading never gives identities back. -/
theorem Program.le_parse_snd (nextId : NodeId) (tokens : List Token) :
    nextId ≤ (Program.parse nextId tokens).2 :=
  (Program.parsed_fit (S := False) nextId False.elim).2

end Programs

end Scripting
