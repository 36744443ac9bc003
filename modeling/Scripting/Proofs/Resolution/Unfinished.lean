import Scripting.Proofs.Resolution.Lexical

/-!
# Unfinished declarations

A name that is declared in a scope may be declared there again. What resolving keeps with it, namely
whether its declaration is complete, can be read off the traversal: it is not, if the latest
declaration of the name in that scope belongs to a variable whose initializer has begun and not
ended.
-/

namespace Scripting

namespace Traversal

/-- A name is declared at a place in the scope that begins at another place, and not in a scope
inside of that. -/
def DeclaredAt (t : Traversal) (name : String) (i k : Nat) : Prop :=
  i < k ∧ t[k]? = some (.declared name) ∧ Balanced ((t.take k).drop (i + 1))

instance (t : Traversal) (name : String) (i k : Nat) : Decidable (t.DeclaredAt name i k) :=
  inferInstanceAs (Decidable (_ ∧ _))

/-- Of the declarations of a name in a scope, the one at a place is the latest. -/
def LatestAt (t : Traversal) (name : String) (i k : Nat) : Prop :=
  t.DeclaredAt name i k ∧ ∀ k' < t.length, k < k' → ¬ t.DeclaredAt name i k'

instance (t : Traversal) (name : String) (i k : Nat) : Decidable (t.LatestAt name i k) :=
  inferInstanceAs (Decidable (_ ∧ _))

/-- The latest declaration of a name in a scope is one of those that were begun. -/
def Unfinished (t : Traversal) (begun : List Nat) (name : String) (i : Nat) : Prop :=
  ∃ k ∈ begun, t.LatestAt name i k

instance (t : Traversal) (begun : List Nat) (name : String) (i : Nat) :
    Decidable (t.Unfinished begun name i) :=
  inferInstanceAs (Decidable (∃ k ∈ begun, _))

variable {t : Traversal} {e : Event} {name : String} {i k : Nat} {begun : List Nat}

lemma DeclaredAt.lt (h : t.DeclaredAt name i k) : k < t.length :=
  (List.getElem?_eq_some_iff.mp h.2.1).1

/-- What comes after a place does not change what was declared there. -/
lemma declaredAt_append (events : Traversal) (hk : k < t.length) :
    DeclaredAt (t ++ events) name i k ↔ t.DeclaredAt name i k := by
  rw [DeclaredAt, List.getElem?_append_left hk, List.take_append_of_le_length (Nat.le_of_lt hk)]
  rfl

/-- A name is declared in the innermost scope, and in no other. -/
lemma declaredAt_length_iff (events : Traversal) {d : Nat} (h : t.openScopes[d]? = some i) :
    DeclaredAt (t ++ Event.declared name :: events) name i t.length ↔ d = 0 := by
  rw [DeclaredAt, ← balanced_drop_iff h, List.take_left]
  simp [lt_of_openScopes h]

lemma not_declaredAt_length {other : String} (events : Traversal) {d : Nat}
    (h : t.openScopes[d]? = some i) (hn : other ≠ name ∨ d ≠ 0) :
    ¬ DeclaredAt (t ++ Event.declared name :: events) other i t.length := by
  by_cases ho : other = name
  · subst ho
    rw [declaredAt_length_iff events h]
    exact hn.resolve_left (not_not_intro rfl)
  · rintro ⟨-, hd, -⟩
    rw [List.getElem?_append_right (Nat.le_refl _)] at hd
    exact ho (by simpa using hd.symm)

/-- An event that does not declare a name in a scope does not change where it was declared there at
last. -/
lemma latestAt_concat (he : ¬ DeclaredAt (t ++ [e]) name i t.length) :
    LatestAt (t ++ [e]) name i k ↔ t.LatestAt name i k := by
  constructor
  · rintro ⟨hk, hlatest⟩
    have hlt : k < t.length := by
      have hle := hk.lt
      rw [List.length_append, List.length_singleton] at hle
      refine Nat.lt_of_le_of_ne (Nat.le_of_lt_succ hle) ?_
      rintro rfl
      exact he hk
    refine ⟨(declaredAt_append _ hlt).mp hk, fun k' hk' hkk' hd => ?_⟩
    exact hlatest k' (by simp; omega) hkk' ((declaredAt_append _ hk').mpr hd)
  · rintro ⟨hk, hlatest⟩
    refine ⟨(declaredAt_append _ hk.lt).mpr hk, fun k' hk' hkk' hd => ?_⟩
    rw [List.length_append, List.length_singleton] at hk'
    rcases Nat.lt_succ_iff_lt_or_eq.mp hk' with hlt | rfl
    · exact hlatest k' hlt hkk' ((declaredAt_append _ hlt).mp hd)
    · exact he hd

lemma not_declaredAt_of_ne (he : e ≠ .declared name) :
    ¬ DeclaredAt (t ++ [e]) name i t.length := by
  rintro ⟨-, hd, -⟩
  exact he (by simpa using hd)

lemma unfinished_concat_of_ne (he : e ≠ .declared name) :
    Unfinished (t ++ [e]) begun name i ↔ t.Unfinished begun name i := by
  simp only [Unfinished, latestAt_concat (not_declaredAt_of_ne he)]

/-- What was declared, and completed or not, is kept with the names of the scopes: for each scope
that is open, a name is kept as incomplete if its declaration there is unfinished. -/
def Flags (t : Traversal) (begun : List Nat) (scopes : List Scope) : Prop :=
  ∀ name, scopes.map (fun scope => decide (scope.get? name = some false)) =
    t.openScopes.map fun i => decide (t.Unfinished begun name i)

namespace Flags

variable {scopes : List Scope} (h : t.Flags begun scopes)

include h

/-- What is kept changes as the declarations do. -/
lemma congr {t' : Traversal} {begun' : List Nat} (ho : t'.openScopes = t.openScopes)
    (hu : ∀ name, ∀ i ∈ t.openScopes,
      (t'.Unfinished begun' name i ↔ t.Unfinished begun name i)) : t'.Flags begun' scopes := by
  intro name
  rw [h name, ho]
  exact List.map_congr_left fun i hi => decide_eq_decide.mpr (hu name i hi).symm

lemma opened : Flags (t ++ [Event.opened]) begun ([] :: scopes) := by
  intro name
  have hnone : ¬ Unfinished (t ++ [Event.opened]) begun name t.length := by
    rintro ⟨k, -, ⟨hlt, hd, -⟩, -⟩
    rw [List.getElem?_eq_none (by simp; omega)] at hd
    cases hd
  rw [openScopes_opened, List.map_cons, List.map_cons, h name]
  congr 1
  · simp [hnone, Record.get?]
  · exact List.map_congr_left fun i _ =>
      decide_eq_decide.mpr (unfinished_concat_of_ne (by simp)).symm

lemma closed : Flags (t ++ [Event.closed]) begun scopes.tail := by
  intro name
  rw [openScopes_closed, List.map_tail, List.map_tail, h name]
  refine congrArg List.tail (List.map_congr_left fun i _ => ?_)
  exact decide_eq_decide.mpr (unfinished_concat_of_ne (by simp)).symm

lemma visited (id : NodeId) (name? : Option String) :
    Flags (t ++ [Event.visited id name?]) begun scopes :=
  h.congr (openScopes_of_ne (by simp) (by simp)) fun _ _ _ => unfinished_concat_of_ne (by simp)

/-- A name is kept with the innermost scope, as complete or not, and all else stays. -/
lemma enter {t' : Traversal} {begun' : List Nat} {name : String} {complete : Bool}
    (ho : t'.openScopes = t.openScopes)
    (hinner : ∀ i, t.openScopes[0]? = some i →
      (t'.Unfinished begun' name i ↔ complete = false))
    (hother : ∀ other i d, t.openScopes[d]? = some i → other ≠ name ∨ d ≠ 0 →
      (t'.Unfinished begun' other i ↔ t.Unfinished begun other i)) :
    t'.Flags begun' (Resolution.enterScope scopes name complete) := by
  intro other
  have hbefore := h other
  rw [ho]
  cases scopes with
  | nil =>
    have hnone : t.openScopes = [] := by simpa using hbefore.symm
    simp [hnone, Resolution.enterScope]
  | cons scope rest =>
    cases hs : t.openScopes with
    | nil => simp [hs] at hbefore
    | cons i inner =>
      rw [hs, List.map_cons, List.map_cons, List.cons.injEq] at hbefore
      rw [Resolution.enterScope_cons, List.map_cons, List.map_cons, hbefore.2]
      have hi : t.openScopes[0]? = some i := by simp [hs]
      congr 1
      · by_cases hname : other = name
        · subst hname
          simp [hinner i hi]
        · rw [Record.get?_insert_of_ne _ _ hname, hbefore.1]
          exact decide_eq_decide.mpr (hother other i 0 hi (.inl hname)).symm
      · refine List.map_congr_left fun j hj => decide_eq_decide.mpr ?_
        obtain ⟨d, hd⟩ := List.getElem?_of_mem hj
        have hd : t.openScopes[d + 1]? = some j := by simpa [hs] using hd
        exact (hother other j (d + 1) hd (.inr (Nat.succ_ne_zero d))).symm

/-- The declaration of a variable begins with its initializer. -/
lemma declare (name : String) : Flags (t ++ [Event.declared name]) (t.length :: begun)
    (Resolution.enterScope scopes name false) := by
  refine h.enter (openScopes_of_ne (by simp) (by simp)) (fun i hi => ?_) fun other i d hd hn => ?_
  · have hlast : DeclaredAt (t ++ [Event.declared name]) name i t.length :=
      (declaredAt_length_iff [] hi).mpr rfl
    refine iff_of_true ⟨t.length, List.mem_cons_self, hlast, fun k hk hlt => ?_⟩ rfl
    rw [List.length_append, List.length_singleton] at hk
    omega
  · have hold := not_declaredAt_length [] hd hn
    simp only [Unfinished, latestAt_concat hold, List.exists_mem_cons_iff]
    -- the place of the new declaration is not among the old ones
    refine or_iff_right ?_
    rintro ⟨hat, -⟩
    exact Nat.lt_irrefl _ hat.lt

end Flags

/-- The declaration of a variable ends behind its initializer, in which nothing else is declared in
the same scope. -/
lemma Flags.define {events : Traversal} {scopes : List Scope}
    (ho : openScopes (t ++ Event.declared name :: events) = t.openScopes)
    (hb : ∀ k ∈ begun, k < t.length)
    (h : Flags (t ++ Event.declared name :: events) (t.length :: begun) scopes) :
    Flags (t ++ Event.declared name :: events) begun (Resolution.enterScope scopes name true) := by
  refine h.enter rfl (fun i hi => ?_) fun other i d hd hn => ?_
  · rw [ho] at hi
    have hlast : DeclaredAt (t ++ Event.declared name :: events) name i t.length :=
      (declaredAt_length_iff events hi).mpr rfl
    refine iff_of_false ?_ (by simp)
    rintro ⟨k, hk, -, hlatest⟩
    exact hlatest t.length (by simp) (hb k hk) hlast
  · rw [ho] at hd
    have hold := not_declaredAt_length events hd hn
    simp only [Unfinished, List.exists_mem_cons_iff]
    refine (or_iff_right ?_).symm
    rintro ⟨hat, -⟩
    exact hold hat

/-- A declaration that is complete at once. -/
lemma Flags.introduce {scopes : List Scope} (h : t.Flags begun scopes) (name : String)
    (hb : ∀ k ∈ begun, k < t.length) :
    Flags (t ++ [Event.declared name]) begun (Resolution.introduceScope scopes name) :=
  (h.declare name).define (openScopes_of_ne (by simp) (by simp)) hb

end Traversal

end Scripting
