import Mathlib.Data.List.Induction
import Scripting.Proofs.Resolution.Traversal

/-!
# Lexical distances

Which scope a name refers to can be said without the scopes that resolving keeps: it is the
innermost one among those that are open where the name stands and in which the name was declared
before. A scope is open as long as no more scopes were closed than opened since, and a name is
declared in it between scopes that were opened and closed again. The distance of a node is the
number of open scopes inside of that one.
-/

namespace Scripting

namespace Traversal

/-- Nothing is closed but what is opened before. -/
def Stays (t : Traversal) : Prop :=
  ∀ n ≤ t.length, (t.take n).count .closed ≤ (t.take n).count .opened

/-- All that is opened is closed again, and nothing else. -/
def Balanced (t : Traversal) : Prop :=
  t.Stays ∧ t.count .closed = t.count .opened

instance (t : Traversal) : Decidable t.Stays :=
  inferInstanceAs (Decidable (∀ n ≤ t.length, _))

instance (t : Traversal) : Decidable t.Balanced :=
  inferInstanceAs (Decidable (_ ∧ _))

/-- The scope that begins at a place is still open at the end. -/
def IsOpen (t : Traversal) (i : Nat) : Prop :=
  t[i]? = some .opened ∧ Stays (t.drop (i + 1))

instance (t : Traversal) (i : Nat) : Decidable (t.IsOpen i) :=
  inferInstanceAs (Decidable (_ ∧ _))

/-- A name is declared in the scope that begins at a place, and not in a scope inside of that. -/
def DeclaredIn (t : Traversal) (name : String) (i : Nat) : Prop :=
  ∃ k < t.length, i < k ∧ t[k]? = some (.declared name) ∧ Balanced ((t.take k).drop (i + 1))

instance (t : Traversal) (name : String) (i : Nat) : Decidable (t.DeclaredIn name i) :=
  inferInstanceAs (Decidable (∃ k < t.length, _))

/-- The places where scopes begin that are still open, the innermost first. -/
def openScopes (t : Traversal) : List Nat :=
  ((List.range t.length).filter (t.IsOpen ·)).reverse

/-- The number of scopes that are open inside of the one that begins at a place. -/
def inside (t : Traversal) (i : Nat) : Nat :=
  (List.range t.length).countP fun j => i < j ∧ t.IsOpen j

/-- The place, among the scopes that are open, of the innermost one in which a name was declared, if
there is one. -/
def distance? (t : Traversal) (name : String) : Option Nat :=
  t.openScopes.findIdx? (t.DeclaredIn name ·)

/-- The distance of a node that is come by next. -/
def link? (t : Traversal) : Event → Option (NodeId × Nat)
  | .visited id (some name) => (t.distance? name).map (id, ·)
  | _ => none

/-- The nodes that have a distance and their distances, in order. -/
def links (t : Traversal) : List (NodeId × Nat) :=
  (List.range t.length).filterMap fun i => (t[i]?).bind (link? (t.take i))

example : links [.opened, .declared "a", .opened, .visited 0 (some "a"), .visited 1 (some "b"),
    .declared "b", .closed, .declared "b", .visited 2 (some "b")] = [(0, 1), (2, 0)] := by
  decide

variable {t : Traversal} {e : Event}

/-! ### Open scopes and distances -/

lemma mem_openScopes {i : Nat} : i ∈ t.openScopes ↔ t.IsOpen i := by
  rw [openScopes, List.mem_reverse, List.mem_filter, decide_eq_true_eq, List.mem_range]
  refine ⟨And.right, fun h => ⟨?_, h⟩⟩
  exact (List.getElem?_eq_some_iff.mp h.1).1

lemma pairwise_openScopes (t : Traversal) : t.openScopes.Pairwise (· > ·) := by
  rw [openScopes, List.pairwise_reverse]
  exact List.pairwise_lt_range.filter _

/-- In a list of descending numbers, those that are greater than one of them come before it. -/
lemma countP_lt_of_getElem? {is : List Nat} (h : is.Pairwise (· > ·)) {d i : Nat}
    (hd : is[d]? = some i) : is.countP (i < ·) = d := by
  induction is generalizing d with
  | nil => simp at hd
  | cons j rest ih =>
    rw [List.pairwise_cons] at h
    cases d with
    | zero =>
      obtain rfl : j = i := by simpa using hd
      simpa [List.countP_eq_zero] using fun k hk => Nat.le_of_lt (h.1 k hk)
    | succ d =>
      rw [List.getElem?_cons_succ] at hd
      have hlt : i < j := h.1 i (List.mem_of_getElem? hd)
      rw [List.countP_cons_of_pos (by simpa using hlt), ih h.2 hd]

lemma inside_eq (t : Traversal) (i : Nat) : t.inside i = t.openScopes.countP (i < ·) := by
  rw [inside, openScopes, List.countP_reverse, List.countP_filter]
  exact List.countP_congr fun j _ => by simp

/-- The distance of a name leads to the innermost open scope in which it was declared. -/
theorem distance?_eq_some_iff {name : String} {d : Nat} : t.distance? name = some d ↔
    ∃ i, t.IsOpen i ∧ t.DeclaredIn name i ∧ d = t.inside i ∧
      ∀ j, i < j → t.IsOpen j → ¬ t.DeclaredIn name j := by
  have hp := t.pairwise_openScopes
  have descends := List.pairwise_iff_getElem.mp hp
  rw [distance?, List.findIdx?_eq_some_iff_getElem]
  constructor
  · rintro ⟨hd, hname, hinner⟩
    have ho := mem_openScopes.mp (List.getElem_mem hd)
    refine ⟨(openScopes t)[d], ho, by simpa using hname, ?_, fun j hj hopen hdeclared => ?_⟩
    · rw [inside_eq, countP_lt_of_getElem? hp (List.getElem?_eq_getElem hd)]
    · obtain ⟨k, hk, rfl⟩ := List.getElem_of_mem (mem_openScopes.mpr hopen)
      rcases Nat.lt_trichotomy k d with hlt | rfl | hgt
      · exact hinner k hlt (by simpa using hdeclared)
      · exact absurd hj (Nat.lt_irrefl _)
      · exact absurd hj (Nat.lt_asymm (descends d k hd hk hgt))
  · rintro ⟨i, ho, hname, rfl, hinner⟩
    obtain ⟨d, hd, rfl⟩ := List.getElem_of_mem (mem_openScopes.mpr ho)
    rw [inside_eq, countP_lt_of_getElem? hp (List.getElem?_eq_getElem hd)]
    refine ⟨hd, by simpa using hname, fun k hk => ?_⟩
    have hopen := mem_openScopes.mp (List.getElem_mem (Nat.lt_trans hk hd))
    simpa using hinner _ (descends k d _ hd hk) hopen

/-! ### One event more -/

lemma stays_concat : Stays (t ++ [e]) ↔
    Stays t ∧ (t ++ [e]).count .closed ≤ (t ++ [e]).count .opened := by
  constructor
  · intro h
    constructor
    · intro n hn
      have hn' := h n (Nat.le_trans hn (by simp))
      rwa [List.take_append_of_le_length hn] at hn'
    · have hend := h _ (Nat.le_refl _)
      rwa [List.take_length] at hend
  · rintro ⟨h, hend⟩ n hn
    by_cases hlt : n ≤ t.length
    · rw [List.take_append_of_le_length hlt]
      exact h n hlt
    · rw [List.take_of_length_le (by simp; omega)]
      exact hend

lemma Stays.count_le (h : Stays t) : t.count .closed ≤ t.count .opened := by
  simpa using h _ (Nat.le_refl _)

/-- Only when something is closed it may be too much. -/
lemma stays_concat_of_ne (he : e ≠ .closed) : Stays (t ++ [e]) ↔ Stays t := by
  rw [stays_concat]
  refine ⟨And.left, fun h => ⟨h, ?_⟩⟩
  have hle := h.count_le
  simp only [List.count_append, List.count_singleton, beq_iff_eq, he, if_false]
  omega

lemma stays_concat_closed :
    Stays (t ++ [Event.closed]) ↔ Stays t ∧ t.count Event.closed < t.count Event.opened := by
  rw [stays_concat, List.count_append, List.count_append]
  exact Iff.rfl

lemma isOpen_concat {i : Nat} (hi : i < t.length) :
    IsOpen (t ++ [e]) i ↔ t[i]? = some .opened ∧ Stays (t.drop (i + 1) ++ [e]) := by
  rw [IsOpen, List.getElem?_append_left hi, List.drop_append_of_le_length hi]

lemma isOpen_concat_of_ne {i : Nat} (hi : i < t.length) (hc : e ≠ .closed) :
    IsOpen (t ++ [e]) i ↔ t.IsOpen i := by
  rw [isOpen_concat hi, stays_concat_of_ne hc]
  rfl

/-- Closing a scope leaves those open since which more was opened than closed. -/
lemma isOpen_concat_closed {i : Nat} (hi : i < t.length) : IsOpen (t ++ [Event.closed]) i ↔
    (t.drop (i + 1)).count .closed < (t.drop (i + 1)).count .opened ∧ t.IsOpen i := by
  rw [isOpen_concat hi, stays_concat_closed, ← and_assoc, and_comm]
  rfl

lemma isOpen_last : IsOpen (t ++ [e]) t.length ↔ e = .opened := by
  simp [IsOpen, Stays]

lemma openScopes_opened : openScopes (t ++ [Event.opened]) = t.length :: openScopes t := by
  have hinner : (List.range t.length).filter (IsOpen (t ++ [Event.opened]) ·) =
      (List.range t.length).filter (t.IsOpen ·) :=
    List.filter_congr fun i hi =>
      decide_eq_decide.mpr (isOpen_concat_of_ne (List.mem_range.mp hi) (by simp))
  simp [openScopes, List.range_succ, hinner, isOpen_last]

/-- What is no bound of a scope changes nothing about the scopes that are open. -/
lemma openScopes_of_ne (ho : e ≠ .opened) (hc : e ≠ .closed) :
    openScopes (t ++ [e]) = openScopes t := by
  have hinner : (List.range t.length).filter (IsOpen (t ++ [e]) ·) =
      (List.range t.length).filter (t.IsOpen ·) :=
    List.filter_congr fun i hi =>
      decide_eq_decide.mpr (isOpen_concat_of_ne (List.mem_range.mp hi) hc)
  simp [openScopes, List.range_succ, hinner, isOpen_last, ho]

lemma openScopes_closed_eq_filter : openScopes (t ++ [Event.closed]) = t.openScopes.filter fun i =>
    (t.drop (i + 1)).count .closed < (t.drop (i + 1)).count .opened := by
  have hinner : (List.range t.length).filter (IsOpen (t ++ [Event.closed]) ·) =
      ((List.range t.length).filter (t.IsOpen ·)).filter fun i =>
        (t.drop (i + 1)).count .closed < (t.drop (i + 1)).count .opened := by
    rw [List.filter_filter]
    refine List.filter_congr fun i hi => ?_
    rw [← Bool.decide_and]
    exact decide_eq_decide.mpr (isOpen_concat_closed (List.mem_range.mp hi))
  simp [openScopes, List.range_succ, hinner, isOpen_last]

/-- Since a scope began, as many scopes were opened and not closed as are open inside of it. -/
def Nested (t : Traversal) : Prop :=
  ∀ k i, t.openScopes[k]? = some i →
    (t.drop (i + 1)).count .opened = (t.drop (i + 1)).count .closed + k

lemma lt_of_openScopes {k i : Nat} (h : t.openScopes[k]? = some i) : i < t.length := by
  have hm := List.mem_of_getElem? h
  rw [openScopes, List.mem_reverse] at hm
  exact List.mem_range.mp (List.mem_filter.mp hm).1

/-- Only the innermost scope is closed. -/
lemma Nested.openScopes_closed (h : t.Nested) :
    openScopes (t ++ [Event.closed]) = t.openScopes.tail := by
  rw [openScopes_closed_eq_filter]
  unfold Nested at h
  generalize t.openScopes = scopes at h
  cases scopes with
  | nil => rfl
  | cons i rest =>
    have hi := h 0 i rfl
    rw [List.filter_cons_of_neg (by simp [hi]), List.tail_cons]
    refine List.filter_eq_self.mpr fun j hj => ?_
    obtain ⟨k, hk⟩ := List.getElem?_of_mem hj
    have hj := h (k + 1) j hk
    simp only [decide_eq_true_eq]
    omega

lemma count_drop_concat {i : Nat} (hi : i < t.length) (a : Event) :
    ((t ++ [e]).drop (i + 1)).count a = (t.drop (i + 1)).count a + [e].count a := by
  rw [List.drop_append_of_le_length hi, List.count_append]

theorem nested (t : Traversal) : t.Nested := by
  induction t using List.reverseRecOn with
  | nil => simp [Nested, openScopes]
  | append_singleton t e ih =>
    -- the scopes that were open before have as many inside of them as the event lets them have
    have outer {k i n : Nat} (hk : (openScopes t)[k]? = some i)
        (he : [e].count .opened + k = [e].count .closed + n) :
        ((t ++ [e]).drop (i + 1)).count .opened =
          ((t ++ [e]).drop (i + 1)).count .closed + n := by
      have hold := ih k i hk
      have hlt := lt_of_openScopes hk
      rw [count_drop_concat hlt, count_drop_concat hlt]
      omega
    intro k i hk
    cases e with
    | opened =>
      rw [openScopes_opened] at hk
      cases k with
      | zero =>
        obtain rfl : t.length = i := by simpa using hk
        simp
      | succ k =>
        rw [List.getElem?_cons_succ] at hk
        exact outer hk (by simp; omega)
    | closed =>
      rw [ih.openScopes_closed, List.getElem?_tail] at hk
      exact outer hk (by simp; omega)
    | declared name =>
      rw [openScopes_of_ne (by simp) (by simp)] at hk
      exact outer hk (by simp)
    | visited id name? =>
      rw [openScopes_of_ne (by simp) (by simp)] at hk
      exact outer hk (by simp)

lemma openScopes_closed : openScopes (t ++ [Event.closed]) = t.openScopes.tail :=
  t.nested.openScopes_closed

/-- Only since the innermost scope began, all that was opened was closed again. -/
lemma balanced_drop_iff {k i : Nat} (h : t.openScopes[k]? = some i) :
    Balanced (t.drop (i + 1)) ↔ k = 0 := by
  have hm := List.mem_of_getElem? h
  rw [openScopes, List.mem_reverse, List.mem_filter, decide_eq_true_eq] at hm
  have hn := t.nested k i h
  constructor
  · intro hb
    have hc := hb.2
    omega
  · rintro rfl
    exact ⟨hm.2.2, by omega⟩

/-! ### Names that were declared -/

lemma declaredIn_concat {name : String} {i : Nat} : DeclaredIn (t ++ [e]) name i ↔
    t.DeclaredIn name i ∨
      (i < t.length ∧ e = .declared name ∧ Balanced (t.drop (i + 1))) := by
  constructor
  · rintro ⟨k, hk, hi, hdeclared, hb⟩
    rw [List.length_append, List.length_singleton] at hk
    rcases Nat.lt_succ_iff_lt_or_eq.mp hk with hlt | rfl
    · rw [List.getElem?_append_left hlt] at hdeclared
      rw [List.take_append_of_le_length (Nat.le_of_lt hlt)] at hb
      exact .inl ⟨k, hlt, hi, hdeclared, hb⟩
    · rw [List.take_left] at hb
      exact .inr ⟨hi, by simpa using hdeclared, hb⟩
  · rintro (⟨k, hlt, hi, hdeclared, hb⟩ | ⟨hi, rfl, hb⟩)
    · refine ⟨k, by simp; omega, hi, ?_, ?_⟩
      · rwa [List.getElem?_append_left hlt]
      · rwa [List.take_append_of_le_length (Nat.le_of_lt hlt)]
    · exact ⟨t.length, by simp, hi, by simp, by rwa [List.take_left]⟩

lemma declaredIn_concat_of_ne {name : String} {i : Nat} (he : e ≠ .declared name) :
    DeclaredIn (t ++ [e]) name i ↔ t.DeclaredIn name i := by
  simp [declaredIn_concat, he]

/-- The scopes that resolving keeps are those that are open, and they have the names that were
declared in these. -/
def Sees (t : Traversal) (scopes : List Scope) : Prop :=
  ∀ name, scopes.map (Record.has · name) = t.openScopes.map fun i => decide (t.DeclaredIn name i)

namespace Sees

variable {scopes : List Scope}

/-- Completing a declaration. -/
lemma complete {name : String} {before : Bool}
    (h : t.Sees (Resolution.enterScope scopes name before)) (after : Bool) :
    t.Sees (Resolution.enterScope (Resolution.enterScope scopes name before) name after) := by
  intro other
  rw [← h other]
  cases scopes with
  | nil => rfl
  | cons scope rest => simp

variable (h : t.Sees scopes)

include h

lemma opened : Sees (t ++ [Event.opened]) ([] :: scopes) := by
  intro name
  have hnone : ¬ t.DeclaredIn name t.length := by
    rintro ⟨k, hk, hi, -⟩
    omega
  rw [openScopes_opened, List.map_cons, List.map_cons, h name]
  congr 1
  · exact (decide_eq_false (mt (declaredIn_concat_of_ne (by simp)).mp hnone)).symm
  · exact List.map_congr_left fun i _ =>
      decide_eq_decide.mpr (declaredIn_concat_of_ne (by simp)).symm

lemma closed : Sees (t ++ [Event.closed]) scopes.tail := by
  intro name
  rw [openScopes_closed, List.map_tail, List.map_tail, h name]
  refine congrArg List.tail (List.map_congr_left fun i _ => ?_)
  exact decide_eq_decide.mpr (declaredIn_concat_of_ne (by simp)).symm

lemma visited (id : NodeId) (name? : Option String) :
    Sees (t ++ [Event.visited id name?]) scopes := by
  intro name
  rw [openScopes_of_ne (by simp) (by simp), h name]
  exact List.map_congr_left fun i _ =>
    decide_eq_decide.mpr (declaredIn_concat_of_ne (by simp)).symm

lemma declared (name : String) (complete : Bool) :
    Sees (t ++ [Event.declared name]) (Resolution.enterScope scopes name complete) := by
  intro other
  have hother := h other
  rw [openScopes_of_ne (by simp) (by simp)]
  cases scopes with
  | nil =>
    have hnone : t.openScopes = [] := by simpa using hother.symm
    simp [hnone, Resolution.enterScope]
  | cons scope rest =>
    cases ho : t.openScopes with
    | nil => simp [ho] at hother
    | cons i inner =>
      rw [ho, List.map_cons, List.map_cons, List.cons.injEq] at hother
      rw [Resolution.enterScope_cons, List.map_cons, List.map_cons, hother.2, Record.has_insert,
        hother.1]
      congr 1
      · have hi : t.openScopes[0]? = some i := by simp [ho]
        rw [← Bool.decide_or]
        refine decide_eq_decide.mpr ?_
        rw [declaredIn_concat, balanced_drop_iff hi]
        simp [lt_of_openScopes hi, or_comm, eq_comm]
      · refine List.map_congr_left fun j hj => decide_eq_decide.mpr ?_
        obtain ⟨k, hk⟩ := List.getElem?_of_mem hj
        have hk : t.openScopes[k + 1]? = some j := by simpa [ho] using hk
        rw [declaredIn_concat, balanced_drop_iff hk]
        simp

lemma findIdx?_eq (name : String) : scopes.findIdx? (Record.has · name) = t.distance? name := by
  have hmap := congrArg (List.findIdx? id) (h name)
  rwa [List.findIdx?_map, List.findIdx?_map] at hmap

end Sees

lemma links_concat : links (t ++ [e]) = t.links ++ (t.link? e).toList := by
  have hinner : (List.range t.length).filterMap
      (fun i => ((t ++ [e])[i]?).bind (link? ((t ++ [e]).take i))) = t.links := by
    refine List.filterMap_congr fun i hi => ?_
    have hlt := List.mem_range.mp hi
    rw [List.getElem?_append_left hlt, List.take_append_of_le_length (Nat.le_of_lt hlt)]
  rw [links, List.length_append, List.length_singleton, List.range_succ, List.filterMap_append,
    hinner]
  cases hl : t.link? e with
  | none => simp [hl]
  | some link => simp [hl]

end Traversal

open Traversal

/-! ### The walk finds lexical distances -/

/-- So far, a traversal was followed: the scopes are those that are open, and what was found are the
nodes with a distance. -/
structure Resolution.Traced (t : Traversal) (r : Resolution) : Prop where
  sees : t.Sees r.scopes
  found_eq : r.found.toList = t.links

namespace Resolution.Traced

variable {t : Traversal} {r r' : Resolution}

/-- Completing a declaration. -/
lemma define {name : Token} {scopes : List Scope} {before : Bool} (h : Traced t r)
    (hs : r.scopes = enterScope scopes name.lexeme before) : Traced t (r.define name) := by
  rw [define_eq]
  refine ⟨?_, h.found_eq⟩
  have hsees := h.sees
  rw [hs] at hsees ⊢
  exact hsees.complete true

section

variable (h : Traced t r)

include h

lemma congr (hs : r'.scopes = r.scopes) (hf : r'.found = r.found) :
    Traced t r' :=
  ⟨hs ▸ h.sees, hf ▸ h.found_eq⟩

lemma openScope : Traced (t ++ [Event.opened]) r.openScope :=
  ⟨h.sees.opened, h.found_eq.trans (by simp [links_concat, link?])⟩

lemma closeScope : Traced (t ++ [Event.closed]) r.closeScope :=
  ⟨h.sees.closed, h.found_eq.trans (by simp [links_concat, link?])⟩

lemma enter (name : String) (complete : Bool) :
    Traced (t ++ [Event.declared name]) (r.enter name complete) := by
  rw [enter_eq]
  exact ⟨h.sees.declared name complete, h.found_eq.trans (by simp [links_concat, link?])⟩

lemma link (id : NodeId) (name : Token) :
    Traced (t ++ [Event.visited id (some name.lexeme)]) (r.link id name) := by
  have hd : r.distance? name.lexeme = t.distance? name.lexeme := h.sees.findIdx?_eq _
  refine ⟨(link_scopes r id name).symm ▸ h.sees.visited id _, ?_⟩
  rw [links_concat, link?, ← hd, ← h.found_eq]
  unfold Resolution.link
  cases r.distance? name.lexeme with
  | none => simp
  | some distance => simp

/-- A node that is misplaced. -/
lemma misplaced (id : NodeId) : Traced (t ++ [Event.visited id none]) r :=
  ⟨h.sees.visited id none, h.found_eq.trans (by simp [links_concat, link?])⟩

lemma introduce (name : Token) : Traced (t ++ [Event.declared name.lexeme]) (r.introduce name) := by
  have hd := h.enter name.lexeme false
  have hs : (r.declare name).scopes = enterScope r.scopes name.lexeme false := by rw [declare_eq]
  exact hd.define hs

lemma enterFunction (params : List Token) :
    Traced (t ++ Event.opened :: parameterEvents params) (r.enterFunction params) := by
  have fold : ∀ (params : List Token) {t : Traversal} {r : Resolution}, Traced t r →
      Traced (t ++ parameterEvents params) (params.foldl Resolution.introduce r) := by
    intro params
    induction params with
    | nil =>
      intro t r h
      simpa [parameterEvents] using h
    | cons param params ih =>
      intro t r h
      simpa [parameterEvents] using ih (h.introduce param)
  have hopened : Traced (t ++ [Event.opened])
      (Resolution.openScope { r with inFunction := true, loopDepth := 0 }) :=
    h.openScope.congr rfl rfl
  have hparams := fold params hopened
  rwa [List.append_assoc] at hparams

/-- In front of the members of a class without a superclass. -/
lemma atMembers (name : Token) :
    Traced (t ++ [Event.declared name.lexeme, .opened, .declared "this"])
      (r.atMembers name none) := by
  have hname : Traced (t ++ [Event.declared name.lexeme])
      { r.introduce name with classContext := .plain } := (h.introduce name).congr rfl rfl
  have hmembers := hname.openScope.enter "this" true
  rwa [List.append_assoc, List.append_assoc] at hmembers

/-- In front of the superclass of a class. -/
lemma atSuperclass (name : Token) (superclass : Expr) :
    Traced (t ++ [Event.declared name.lexeme]) (r.atSuperclass name superclass) := by
  refine (h.introduce name).congr ?_ ?_
  · rw [(r.atSuperclass_spec name superclass).2, introduce_eq]
  · rw [atSuperclass_found, introduce_eq]

/-- Behind the superclass of a class. -/
lemma openMembers : Traced (t ++ [Event.opened, .declared "super", .opened, .declared "this"])
    ((r.openScope.enter "super" true).openScope.enter "this" true) := by
  have hmembers := (h.openScope.enter "super" true).openScope.enter "this" true
  rwa [List.append_assoc, List.append_assoc, List.append_assoc] at hmembers

end

/-- The body of a function, and its end. -/
lemma leaveFunction {params : List Token} {events : Traversal}
    (hbody : Traced ((t ++ Event.opened :: parameterEvents params) ++ events) r') :
    Traced (t ++ Event.opened :: (parameterEvents params ++ (events ++ [Event.closed])))
      (r'.leaveFunction r) := by
  have hclosed : Traced (_ ++ [Event.closed]) (r'.leaveFunction r) :=
    ⟨hbody.closeScope.sees, hbody.closeScope.found_eq⟩
  simpa using hclosed

end Resolution.Traced

open Resolution

mutual

lemma Expr.traced : (e : Expr) → {t : Traversal} → {r : Resolution} → Traced t r →
    Traced (t ++ e.events r.classContext) (e.resolve r)
  | .literal _, t, r, h => by simpa [Expr.events, Expr.resolve] using h
  | .grouping inner, t, r, h => inner.traced h
  | .unary _ operand, t, r, h => operand.traced h
  | .binary left _ right, t, r, h => by
    have hright := right.traced (left.traced h)
    rwa [(left.walked r).classContext_eq, List.append_assoc] at hright
  | .logical left _ right, t, r, h => by
    have hright := right.traced (left.traced h)
    rwa [(left.walked r).classContext_eq, List.append_assoc] at hright
  | .ternary condition first second, t, r, h => by
    have hsecond := second.traced (first.traced (condition.traced h))
    rwa [(first.walked _).classContext_eq, (condition.walked r).classContext_eq,
      List.append_assoc, List.append_assoc] at hsecond
  | .name id name, t, r, h =>
    (h.congr (failIf_scopes r _ _ _) (failIf_found r _ _ _)).link id name
  | .assign id name value, t, r, h => by
    have hlink := (value.traced h).link id name
    rwa [List.append_assoc] at hlink
  | .call callee _ arguments, t, r, h => by
    have harguments := exprs_traced arguments (callee.traced h)
    rwa [(callee.walked r).classContext_eq, List.append_assoc] at harguments
  | .get object _, t, r, h => object.traced h
  | .nilGet object _, t, r, h => object.traced h
  | .set object _ value, t, r, h => by
    have hvalue := value.traced (object.traced h)
    rwa [(object.walked r).classContext_eq, List.append_assoc] at hvalue
  | .this id keyword, t, r, h => by
    unfold Expr.events Expr.resolve
    cases r.classContext with
    | outside => exact (h.misplaced id).congr rfl rfl
    | plain => exact h.link id keyword
    | derived => exact h.link id keyword
  | .super id keyword _, t, r, h => by
    unfold Expr.events Expr.resolve
    cases r.classContext with
    | outside => exact (h.misplaced id).congr rfl rfl
    | plain => exact (h.misplaced id).congr rfl rfl
    | derived => exact h.link id keyword
  | .lambda declaration, t, r, h => declaration.traced h

lemma exprs_traced : (es : List Expr) → {t : Traversal} → {r : Resolution} → Traced t r →
    Traced (t ++ exprsEvents r.classContext es) (resolveExprs es r)
  | [], t, r, h => by simpa [exprsEvents, resolveExprs] using h
  | e :: es, t, r, h => by
    have hrest := exprs_traced es (e.traced h)
    rwa [(e.walked r).classContext_eq, List.append_assoc] at hrest

lemma FunctionDecl.traced : (d : FunctionDecl) → {t : Traversal} → {r : Resolution} →
    Traced t r → Traced (t ++ d.events r.classContext) (d.resolve r)
  | .mk _ params body, t, r, h => by
    have hbody := stmts_traced body (h.enterFunction params)
    rw [show (r.enterFunction params).classContext = r.classContext by rw [enterFunction_eq]]
      at hbody
    exact hbody.leaveFunction

lemma functions_traced : (ds : List FunctionDecl) → {t : Traversal} → {r : Resolution} →
    Traced t r → Traced (t ++ functionsEvents r.classContext ds) (resolveFunctions ds r)
  | [], t, r, h => by simpa [functionsEvents, resolveFunctions] using h
  | d :: ds, t, r, h => by
    have hrest := functions_traced ds (d.traced h)
    rwa [(d.walked r).classContext_eq, List.append_assoc] at hrest

lemma GetterDecl.traced : (d : GetterDecl) → {t : Traversal} → {r : Resolution} →
    Traced t r → Traced (t ++ d.events r.classContext) (d.resolve r)
  | .mk _ body, t, r, h => by
    exact (stmts_traced body (h.enterFunction [])).leaveFunction

lemma getters_traced : (ds : List GetterDecl) → {t : Traversal} → {r : Resolution} →
    Traced t r → Traced (t ++ gettersEvents r.classContext ds) (resolveGetters ds r)
  | [], t, r, h => by simpa [gettersEvents, resolveGetters] using h
  | d :: ds, t, r, h => by
    have hrest := getters_traced ds (d.traced h)
    rwa [(d.walked r).classContext_eq, List.append_assoc] at hrest

lemma Stmt.traced : (s : Stmt) → {t : Traversal} → {r : Resolution} → Traced t r →
    Traced (t ++ s.events r.classContext) (s.resolve r)
  | .expression value, t, r, h => value.traced h
  | .print _ value, t, r, h => value.traced h
  | .var name none, t, r, h => h.introduce name
  | .var name (some value), t, r, h => by
    have hvalue := value.traced (h.enter name.lexeme false)
    have hs : (value.resolve (r.declare name)).scopes = enterScope r.scopes name.lexeme false := by
      rw [(value.walked _).scopes_eq, declare_eq]
    have hdefined : Traced _ (define _ name) := hvalue.define hs
    rw [enter_eq] at hdefined
    simpa [Stmt.events, Stmt.resolve, declare_eq] using hdefined
  | .block body, t, r, h => by
    have hbody := (stmts_traced body h.openScope).closeScope
    rwa [List.append_assoc, List.append_assoc] at hbody
  | .function declaration, t, r, h => by
    have hd := declaration.traced (h.introduce declaration.name)
    rw [introduce_eq] at hd
    simpa [Stmt.events, Stmt.resolve, introduce_eq] using hd
  | .getter declaration, t, r, h => by
    have hd := declaration.traced (h.introduce declaration.name)
    rw [introduce_eq] at hd
    simpa [Stmt.events, Stmt.resolve, introduce_eq] using hd
  | .classDecl name none methods getters, t, r, h => by
    have hc : (r.atMembers name none).classContext = .plain := by rw [atMembers_none_eq]
    have hmethods := functions_traced methods (h.atMembers name)
    have hmembers := (getters_traced getters hmethods).closeScope
    rw [(functions_walked methods _).classContext_eq, hc, List.append_assoc, List.append_assoc,
      ← List.append_assoc (functionsEvents _ _), List.append_assoc] at hmembers
    exact hmembers.congr rfl rfl
  | .classDecl name (some superclass) methods getters, t, r, h => by
    have habove : (r.atSuperclass name superclass).classContext = .derived :=
      (r.atSuperclass_spec name superclass).1.classContext_eq
    have hc : (r.atMembers name (some superclass)).classContext = .derived :=
      (r.walked_atMembers name superclass).classContext_eq.trans
        ((superclass.walked _).classContext_eq.trans habove)
    have hsuperclass := superclass.traced (h.atSuperclass name superclass)
    rw [habove] at hsuperclass
    have hfront : Traced _ (r.atMembers name (some superclass)) := hsuperclass.openMembers
    have hmethods := functions_traced methods hfront
    have hmembers := (getters_traced getters hmethods).closeScope.closeScope
    rw [(functions_walked methods _).classContext_eq, hc] at hmembers
    have hdone : Traced _ ((Stmt.classDecl name (some superclass) methods getters).resolve r) :=
      hmembers.congr rfl rfl
    simpa [Stmt.events] using hdone
  | .ifStmt condition consequent none, t, r, h => by
    have hconsequent := consequent.traced (condition.traced h)
    rwa [(condition.walked r).classContext_eq, List.append_assoc] at hconsequent
  | .ifStmt condition consequent (some alternative), t, r, h => by
    have halternative := alternative.traced (consequent.traced (condition.traced h))
    rwa [(consequent.walked _).classContext_eq, (condition.walked r).classContext_eq,
      List.append_assoc, List.append_assoc] at halternative
  | .whileStmt condition body, t, r, h => by
    have hinside : Traced (t ++ condition.events r.classContext) (condition.resolve r).enterLoop :=
      (condition.traced h).congr rfl rfl
    have hc : (condition.resolve r).enterLoop.classContext = r.classContext :=
      (condition.walked r).classContext_eq
    have hbody := body.traced hinside
    rw [hc, List.append_assoc] at hbody
    exact hbody.congr rfl rfl
  | .breakStmt keyword, t, r, h => by
    rw [Stmt.events, List.append_nil]
    exact h.congr (failIf_scopes r _ _ _) (failIf_found r _ _ _)
  | .returnStmt keyword none, t, r, h => by
    rw [Stmt.events, List.append_nil]
    exact h.congr (failIf_scopes r _ _ _) (failIf_found r _ _ _)
  | .returnStmt keyword (some value), t, r, h => by
    have hvalue := value.traced (h.congr (failIf_scopes r (!r.inFunction) .returnAtTop keyword)
      (failIf_found r _ _ _))
    rwa [(walked_failIf r _ _ _).classContext_eq] at hvalue

theorem stmts_traced : (ss : List Stmt) → {t : Traversal} → {r : Resolution} → Traced t r →
    Traced (t ++ stmtsEvents r.classContext ss) (resolveStmts ss r)
  | [], t, r, h => by simpa [stmtsEvents, resolveStmts] using h
  | s :: ss, t, r, h => by
    have hrest := stmts_traced ss (s.traced h)
    rwa [(s.walked r).classContext_eq, List.append_assoc] at hrest

end

namespace Program

/-- **Distances are lexical.** Whatever statements are resolved, with mistakes or without, the nodes
that are given a distance are those with a name, in the order in which they are come by, for which
there is an open scope where that was declared before. The distance is the number of scopes that are
open inside of the innermost one of these. When all is done, no scope is open, and the walk is
outside of functions, classes and loops as in the beginning. -/
theorem resolve_lexical (p : Program) :
    (p.resolve.found.toList = (List.range p.events.length).filterMap fun i =>
      (p.events[i]?).bind (Traversal.link? (p.events.take i))) ∧
    (∀ i name d,
      let before : Traversal := p.events.take i
      before.distance? name = some d ↔
        ∃ j, before.IsOpen j ∧ before.DeclaredIn name j ∧ d = before.inside j ∧
          ∀ k, j < k → before.IsOpen k → ¬ before.DeclaredIn name k) ∧
    p.resolve.scopes = [] ∧ p.resolve.inFunction = false ∧ p.resolve.classContext = .outside ∧
      p.resolve.loopDepth = 0 := by
  have hstart : Traced [] Resolution.start := ⟨fun name => rfl, rfl⟩
  have htraced := stmts_traced p hstart
  have hwalked := stmts_walked p .start
  rw [List.nil_append] at htraced
  refine ⟨htraced.found_eq, fun i name d => distance?_eq_some_iff, ?_, hwalked.inFunction_eq,
    hwalked.classContext_eq, hwalked.loopDepth_eq⟩
  exact List.eq_nil_of_length_eq_zero hwalked.length_eq

end Program

end Scripting
