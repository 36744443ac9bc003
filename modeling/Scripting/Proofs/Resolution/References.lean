import Scripting.Proofs.Resolution.Lexical
import Scripting.Proofs.Resolution.Places

/-!
# Which declaration a reference is to

A reference is to the declarations of its name in the scope that its distance leads to. So it is
never to a declaration in a scope that has ended before. The events of expressions and statements
are balanced; in those of an expression, every declaration is in a scope that begins and ends in the
expression itself, and the same holds of a statement that is not itself a declaration.
-/

namespace Scripting

namespace Traversal

variable {t u v : Traversal} {e : Event}

/-- The reference at a place is to the declaration at an earlier one. -/
def Refers (t : Traversal) (i k : Nat) : Prop :=
  ∃ id name j, t[i]? = some (.visited id (some name)) ∧ k < i ∧
    t[k]? = some (.declared name) ∧ j < k ∧ IsOpen (t.take i) j ∧
    Balanced ((t.take k).drop (j + 1)) ∧
    ∀ inner, j < inner → IsOpen (t.take i) inner → ¬ DeclaredIn (t.take i) name inner

/-- Every declaration is in a scope that begins and ends in the same events. -/
def Settled (t : Traversal) : Prop :=
  ∀ (k : Nat) (name : String), t[k]? = some (.declared name) →
    ∃ j < k, t[j]? = some .opened ∧ Balanced ((t.take k).drop (j + 1)) ∧
      ¬ Stays (t.drop (j + 1))

/-! ### Balanced events -/

lemma Stays.take (h : t.Stays) (n : Nat) : Stays (t.take n) := by
  intro k hk
  rw [List.take_take]
  rw [List.length_take] at hk
  rw [Nat.min_eq_left (by omega)]
  exact h k (by omega)

lemma Stays.append (ht : t.Stays) (hu : u.Stays) : Stays (t ++ u) := by
  intro n hn
  rw [List.take_append, List.count_append, List.count_append]
  rw [List.length_append] at hn
  have hfront : (t.take n).count .closed ≤ (t.take n).count .opened := by
    simpa using (ht.take n).count_le
  exact Nat.add_le_add hfront (hu _ (by omega))

lemma balanced_nil : Balanced [] :=
  ⟨by simp [Stays], rfl⟩

lemma stays_opened : Stays [.opened] := by
  decide

/-- What is no bound of a scope. -/
lemma balanced_of_ne (ho : e ≠ .opened) (hc : e ≠ .closed) : Balanced [e] := by
  have hcount : ∀ a, a = .opened ∨ a = .closed → List.count a [e] = 0 := by
    rintro a (rfl | rfl)
    · exact List.count_eq_zero_of_not_mem (by simpa using ho.symm)
    · exact List.count_eq_zero_of_not_mem (by simpa using hc.symm)
  refine ⟨fun n hn => ?_, ?_⟩
  · have hle := (List.take_sublist n [e]).count_le .closed
    rw [hcount _ (.inr rfl)] at hle
    omega
  · rw [hcount _ (.inr rfl), hcount _ (.inl rfl)]

lemma Balanced.append (ht : t.Balanced) (hu : u.Balanced) : Balanced (t ++ u) :=
  ⟨ht.1.append hu.1, by rw [List.count_append, List.count_append, ht.2, hu.2]⟩

/-- A scope around balanced events. -/
lemma Balanced.scope (h : t.Balanced) : Balanced (Event.opened :: (t ++ [Event.closed])) := by
  have hopen : Stays (.opened :: t) := stays_opened.append h.1
  have hcounts : (Event.opened :: t).count .closed < (Event.opened :: t).count .opened := by
    rw [List.count_cons_of_ne (by simp), List.count_cons_self, h.2]
    exact Nat.lt_succ_self _
  refine ⟨stays_concat_closed.mpr ⟨hopen, hcounts⟩, ?_⟩
  rw [← List.cons_append, List.count_append, List.count_append, List.count_cons_of_ne (by simp),
    List.count_cons_self, h.2]
  simp

/-- A scope that begins in balanced events ends there. -/
lemma Balanced.not_stays_drop (h : t.Balanced) {j : Nat} (hj : t[j]? = some .opened) :
    ¬ Stays (t.drop (j + 1)) := by
  intro hs
  obtain ⟨hlt, he⟩ := List.getElem?_eq_some_iff.mp hj
  have hfront := (h.1.take j).count_le
  have hback := hs.count_le
  have hsplit : t = t.take j ++ Event.opened :: t.drop (j + 1) := by
    rw [← he, ← List.drop_eq_getElem_cons hlt, List.take_append_drop]
  have hclosed := congrArg (List.count Event.closed) hsplit
  have hopened := congrArg (List.count Event.opened) hsplit
  rw [List.count_append, List.count_cons_of_ne (by simp)] at hclosed
  rw [List.count_append, List.count_cons_self] at hopened
  have heq := h.2
  omega

/-- There is one scope only that a declaration is in. -/
lemma eq_of_balanced_drop {i j : Nat} (hi : t[i]? = some .opened) (hj : t[j]? = some .opened)
    (hbi : Balanced (t.drop (i + 1))) (hbj : Balanced (t.drop (j + 1))) : i = j := by
  -- behind the inner one of two scopes, the outer one would not be balanced
  have hlt : ∀ {i j : Nat}, i < j → t[j]? = some .opened → Balanced (t.drop (i + 1)) →
      ¬ Balanced (t.drop (j + 1)) := by
    intro i j hij hj hbi hbj
    obtain ⟨hlen, he⟩ := List.getElem?_eq_some_iff.mp hj
    have hat : (t.drop (i + 1))[j - (i + 1)]? = some .opened := by
      rw [List.getElem?_drop, show i + 1 + (j - (i + 1)) = j by omega, hj]
    refine hbi.not_stays_drop hat ?_
    rw [List.drop_drop, show i + 1 + (j - (i + 1) + 1) = j + 1 by omega]
    exact hbj.1
  rcases Nat.lt_trichotomy i j with h | h | h
  · exact absurd hbj (hlt h hj hbi)
  · exact h
  · exact absurd hbi (hlt h hi hbj)

/-! ### Settled events -/

lemma settled_of_forall (h : ∀ e ∈ t, ∀ name, e ≠ .declared name) : t.Settled :=
  fun _ name hk => absurd rfl (h _ (List.mem_of_getElem? hk) name)

/-- What does not stay does so in front of anything else. -/
lemma not_stays_append (h : ¬ t.Stays) (u : Traversal) : ¬ Stays (t ++ u) := by
  intro hs
  have ht := hs.take t.length
  rw [List.take_left] at ht
  exact h ht

lemma Settled.append (ht : t.Settled) (hu : u.Settled) : Settled (t ++ u) := by
  intro k name hk
  by_cases hlt : k < t.length
  · rw [List.getElem?_append_left hlt] at hk
    obtain ⟨j, hj, hopen, hb, hs⟩ := ht k name hk
    refine ⟨j, hj, ?_, ?_, ?_⟩
    · rwa [List.getElem?_append_left (by omega)]
    · rwa [List.take_append_of_le_length (by omega)]
    · rw [List.drop_append_of_le_length (by omega)]
      exact not_stays_append hs u
  · rw [List.getElem?_append_right (by omega)] at hk
    obtain ⟨j, hj, hopen, hb, hs⟩ := hu _ name hk
    refine ⟨t.length + j, by omega, ?_, ?_, ?_⟩
    · rwa [List.getElem?_append_right (by omega), Nat.add_sub_cancel_left]
    · rwa [List.take_append, List.take_of_length_le (by omega), List.drop_append,
        List.drop_of_length_le (by omega), List.nil_append,
        show t.length + j + 1 - t.length = j + 1 by omega]
    · rwa [List.drop_append, List.drop_of_length_le (by omega), List.nil_append,
        show t.length + j + 1 - t.length = j + 1 by omega]

/-- A scope around balanced events has all their declarations. -/
lemma Balanced.settled_scope (h : t.Balanced) :
    Settled (Event.opened :: (t ++ [Event.closed])) := by
  intro k name hk
  have hlt : k < t.length + 1 := by
    by_contra hle
    rw [← List.cons_append, List.getElem?_append_right (by simp; omega)] at hk
    have := List.mem_of_getElem? hk
    simp at this
  -- the innermost scope that is open in front of the declaration
  have htake : (Event.opened :: (t ++ [Event.closed])).take k = (Event.opened :: t).take k := by
    rw [← List.cons_append, List.take_append_of_le_length (by simp; omega)]
  cases k with
  | zero => simp at hk
  | succ k =>
    have hopen : IsOpen ((Event.opened :: t).take (k + 1)) 0 := by
      refine ⟨by simp, ?_⟩
      rw [List.take_succ_cons, List.drop_succ_cons, List.drop_zero]
      exact h.1.take k
    have hne := List.ne_nil_of_mem (mem_openScopes.mpr hopen)
    have hhead := List.head?_eq_some_head hne
    rw [List.head?_eq_getElem?] at hhead
    have hin := mem_openScopes.mp (List.mem_of_getElem? hhead)
    have hj := lt_of_openScopes hhead
    have hb := (balanced_drop_iff hhead).mpr rfl
    generalize (openScopes ((Event.opened :: t).take (k + 1))).head hne = j at hin hj hb
    rw [List.length_take] at hj
    have hopened : (Event.opened :: (t ++ [Event.closed]))[j]? = some Event.opened := by
      have hat := hin.1
      rw [List.getElem?_take_of_lt (by omega)] at hat
      rwa [← List.cons_append, List.getElem?_append_left (by simp; omega)]
    exact ⟨j, by omega, hopened, htake ▸ hb, h.scope.not_stays_drop hopened⟩

/-- No reference behind settled events is to a declaration in them. -/
theorem Settled.not_refers (h : u.Settled) {i k : Nat} (hk : t.length ≤ k)
    (hk' : k < t.length + u.length) (hi : t.length + u.length ≤ i) :
    ¬ Refers (t ++ (u ++ v)) i k := by
  rintro ⟨id, name, j, -, hki, hdeclared, hjk, hopen, hb, -⟩
  have hat : u[k - t.length]? = some (.declared name) := by
    rwa [List.getElem?_append_right hk, List.getElem?_append_left (by omega)] at hdeclared
  obtain ⟨j', hj', hopened', hb', hclosed⟩ := h _ name hat
  -- the scope that the declaration is in is the one inside of the settled events
  have hopenedJ : ((t ++ (u ++ v)).take k)[t.length + j']? = some .opened := by
    rwa [List.getElem?_take_of_lt (by omega), List.getElem?_append_right (by omega),
      Nat.add_sub_cancel_left, List.getElem?_append_left (by omega)]
  have hbJ : Balanced (((t ++ (u ++ v)).take k).drop (t.length + j' + 1)) := by
    rwa [List.take_append, List.take_of_length_le hk, List.drop_append,
      List.drop_of_length_le (by omega), List.nil_append,
      show t.length + j' + 1 - t.length = j' + 1 by omega,
      List.take_append_of_le_length (by omega)]
  have hopenedj : ((t ++ (u ++ v)).take k)[j]? = some .opened := by
    have hat := hopen.1
    rw [List.getElem?_take_of_lt (by omega)] at hat
    rwa [List.getElem?_take_of_lt hjk]
  obtain rfl := eq_of_balanced_drop hopenedj hopenedJ hb hbJ
  -- this one has ended
  have hstays := hopen.2
  rw [List.take_append, List.take_of_length_le (by omega), List.drop_append,
    List.drop_of_length_le (by omega), List.nil_append,
    show t.length + j' + 1 - t.length = j' + 1 by omega, List.take_append,
    List.take_of_length_le (by omega), List.drop_append_of_le_length (by omega)] at hstays
  exact not_stays_append hclosed _ hstays

/-! ### Distances and declarations -/

/-- A reference with a distance is to a declaration. -/
lemma exists_refers {i : Nat} {id : NodeId} {name : String}
    (hi : t[i]? = some (.visited id (some name)))
    (hd : (distance? (t.take i) name).isSome) : ∃ k, t.Refers i k := by
  obtain ⟨d, hd⟩ := Option.isSome_iff_exists.mp hd
  obtain ⟨j, hopen, ⟨k, hk, hj, hdeclared, hb⟩, -, hinner⟩ := distance?_eq_some_iff.mp hd
  have hki : k < i := by
    rw [List.length_take] at hk
    omega
  rw [List.getElem?_take_of_lt hki] at hdeclared
  rw [List.take_take, Nat.min_eq_left (Nat.le_of_lt hki)] at hb
  exact ⟨k, id, name, j, hi, hki, hdeclared, hj, hopen, hb, hinner⟩

/-- A name that was declared in an open scope has a distance. -/
lemma isSome_distance? {j : Nat} {name : String} (hopen : t.IsOpen j)
    (hd : t.DeclaredIn name j) : (t.distance? name).isSome := by
  rw [distance?, List.findIdx?_isSome, List.any_eq_true]
  exact ⟨j, mem_openScopes.mpr hopen, by simpa using hd⟩

/-- A reference is to a declaration in a scope at least as far inside as any open scope in which
its name was declared. -/
lemma Refers.le_scope {i j k : Nat} {id : NodeId} {name : String} (h : t.Refers i k)
    (hi : t[i]? = some (.visited id (some name))) (hopen : IsOpen (t.take i) j)
    (hd : DeclaredIn (t.take i) name j) : j < k := by
  obtain ⟨id', name', j', hi', -, -, hjk, -, -, hinner⟩ := h
  rw [hi] at hi'
  cases hi'
  by_contra hle
  exact hinner j (by omega) hopen hd

end Traversal

open Traversal Resolution

/-! ### Events of trees -/

lemma balanced_parameterEvents (params : List Token) : (parameterEvents params).Balanced := by
  induction params with
  | nil => exact balanced_nil
  | cons param params ih => exact (balanced_of_ne (by simp) (by simp)).append ih

mutual

lemma Expr.balanced (c : ClassContext) : (e : Expr) → (e.events c).Balanced
  | .literal _ => balanced_nil
  | .grouping inner => inner.balanced c
  | .unary _ operand => operand.balanced c
  | .binary left _ right => (left.balanced c).append (right.balanced c)
  | .logical left _ right => (left.balanced c).append (right.balanced c)
  | .ternary condition first second =>
    (condition.balanced c).append ((first.balanced c).append (second.balanced c))
  | .name _ _ => balanced_of_ne (by simp) (by simp)
  | .assign _ _ value => (value.balanced c).append (balanced_of_ne (by simp) (by simp))
  | .call callee _ arguments => (callee.balanced c).append (exprs_balanced c arguments)
  | .get object _ => object.balanced c
  | .nilGet object _ => object.balanced c
  | .set object _ value => (object.balanced c).append (value.balanced c)
  | .this _ _ => balanced_of_ne (by simp) (by simp)
  | .super _ _ _ => balanced_of_ne (by simp) (by simp)
  | .lambda declaration => declaration.balanced c

lemma exprs_balanced (c : ClassContext) : (es : List Expr) → (exprsEvents c es).Balanced
  | [] => balanced_nil
  | e :: es => (e.balanced c).append (exprs_balanced c es)

lemma FunctionDecl.balanced (c : ClassContext) : (d : FunctionDecl) → (d.events c).Balanced
  | .mk _ params body => by
    have h := ((balanced_parameterEvents params).append (stmts_balanced c body)).scope
    rwa [List.append_assoc] at h

lemma functions_balanced (c : ClassContext) :
    (ds : List FunctionDecl) → (functionsEvents c ds).Balanced
  | [] => balanced_nil
  | d :: ds => (d.balanced c).append (functions_balanced c ds)

lemma GetterDecl.balanced (c : ClassContext) : (d : GetterDecl) → (d.events c).Balanced
  | .mk _ body => (stmts_balanced c body).scope

lemma getters_balanced (c : ClassContext) :
    (ds : List GetterDecl) → (gettersEvents c ds).Balanced
  | [] => balanced_nil
  | d :: ds => (d.balanced c).append (getters_balanced c ds)

lemma Stmt.balanced (c : ClassContext) : (s : Stmt) → (s.events c).Balanced
  | .expression value => value.balanced c
  | .print _ value => value.balanced c
  | .var _ none => balanced_of_ne (by simp) (by simp)
  | .var _ (some value) => Balanced.append (balanced_of_ne (by simp) (by simp)) (value.balanced c)
  | .block body => (stmts_balanced c body).scope
  | .function declaration =>
    Balanced.append (balanced_of_ne (by simp) (by simp)) (declaration.balanced c)
  | .getter declaration =>
    Balanced.append (balanced_of_ne (by simp) (by simp)) (declaration.balanced c)
  | .classDecl name none methods getters => by
    have members := (functions_balanced .plain methods).append (getters_balanced .plain getters)
    have this : Balanced [.declared "this"] := balanced_of_ne (by simp) (by simp)
    have hname : Balanced [.declared name.lexeme] := balanced_of_ne (by simp) (by simp)
    simpa [Stmt.events] using hname.append (this.append members).scope
  | .classDecl name (some superclass) methods getters => by
    have members := (functions_balanced .derived methods).append (getters_balanced .derived getters)
    have this : Balanced [.declared "this"] := balanced_of_ne (by simp) (by simp)
    have super : Balanced [.declared "super"] := balanced_of_ne (by simp) (by simp)
    have hname : Balanced [.declared name.lexeme] := balanced_of_ne (by simp) (by simp)
    simpa [Stmt.events] using hname.append ((superclass.balanced .derived).append
      (super.append (this.append members).scope).scope)
  | .ifStmt condition consequent none => (condition.balanced c).append (consequent.balanced c)
  | .ifStmt condition consequent (some alternative) =>
    (condition.balanced c).append ((consequent.balanced c).append (alternative.balanced c))
  | .whileStmt condition body => (condition.balanced c).append (body.balanced c)
  | .breakStmt _ => balanced_nil
  | .returnStmt _ none => balanced_nil
  | .returnStmt _ (some value) => value.balanced c

/-- In statements, whatever is opened is closed again. -/
theorem stmts_balanced (c : ClassContext) : (ss : List Stmt) → (stmtsEvents c ss).Balanced
  | [] => balanced_nil
  | s :: ss => (s.balanced c).append (stmts_balanced c ss)

end

lemma FunctionDecl.settled (c : ClassContext) (d : FunctionDecl) : (d.events c).Settled := by
  obtain ⟨_, params, body⟩ := d
  have h := ((balanced_parameterEvents params).append (stmts_balanced c body)).settled_scope
  rwa [List.append_assoc] at h

lemma settled_nil : Settled [] :=
  settled_of_forall (by simp)

lemma settled_visited (id : NodeId) (name? : Option String) : Settled [.visited id name?] :=
  settled_of_forall (by simp)

mutual

/-- Nothing is declared in an expression itself. -/
lemma Expr.settled (c : ClassContext) : (e : Expr) → (e.events c).Settled
  | .literal _ => settled_nil
  | .grouping inner => inner.settled c
  | .unary _ operand => operand.settled c
  | .binary left _ right => (left.settled c).append (right.settled c)
  | .logical left _ right => (left.settled c).append (right.settled c)
  | .ternary condition first second =>
    (condition.settled c).append ((first.settled c).append (second.settled c))
  | .name _ _ => settled_visited _ _
  | .assign _ _ value => (value.settled c).append (settled_visited _ _)
  | .call callee _ arguments => (callee.settled c).append (exprs_settled c arguments)
  | .get object _ => object.settled c
  | .nilGet object _ => object.settled c
  | .set object _ value => (object.settled c).append (value.settled c)
  | .this _ _ => settled_visited _ _
  | .super _ _ _ => settled_visited _ _
  | .lambda declaration => declaration.settled c

lemma exprs_settled (c : ClassContext) : (es : List Expr) → (exprsEvents c es).Settled
  | [] => settled_nil
  | e :: es => (e.settled c).append (exprs_settled c es)

end

/-! ### Events of places -/

namespace Place

/-- What is come by in a place, inside of a kind of class. -/
def events (c : ClassContext) : Place → Traversal
  | .expr e => e.events c
  | .exprs es => exprsEvents c es
  | .function d => d.events c
  | .functions ds => functionsEvents c ds
  | .getter d => d.events c
  | .getters ds => gettersEvents c ds
  | .stmt s => s.events c
  | .stmts ss => stmtsEvents c ss

/-- The events of a part are among those of a place. -/
def Contains (c : ClassContext) (x : Place) (y : Part) : Prop :=
  ∃ before after, x.events c = before ++ (y.place.events y.state.classContext ++ after)

/-- The events of a part, as they stand among those of a place. -/
lemma Contains.intro {c inside : ClassContext} {x : Place} {y : Part} (before after : Traversal)
    (hc : y.state.classContext = inside)
    (he : x.events c = before ++ (y.place.events inside ++ after)) : x.Contains c y :=
  ⟨before, after, hc ▸ he⟩

end Place

section

variable {r : Resolution} {c : ClassContext} (hr : r.classContext = c)

include hr

lemma Expr.contains_parts (e : Expr) : ∀ y ∈ e.parts r, Place.Contains c (.expr e) y := by
  -- of two parts, the second one comes behind the events of the first
  have pair : ∀ (first second : Expr), e.events c = first.events c ++ second.events c →
      ∀ y ∈ [(⟨.expr first, [], r⟩ : Part), ⟨.expr second, [], first.resolve r⟩],
        Place.Contains c (.expr e) y := fun first second he =>
    forall_mem_pair (.intro [] (second.events c) hr he)
      (.intro (first.events c) [] ((first.walked r).classContext_eq.trans hr) (by
        rw [List.append_nil]
        exact he))
  have single : ∀ inner : Expr, e.events c = inner.events c →
      ∀ y ∈ [(⟨.expr inner, [], r⟩ : Part)], Place.Contains c (.expr e) y := fun inner he =>
    forall_mem_single (.intro [] [] hr (he.trans (List.append_nil _).symm))
  cases e with
  | literal value => exact forall_mem_none
  | grouping inner => exact single inner rfl
  | unary operator operand => exact single operand rfl
  | binary left operator right => exact pair left right rfl
  | logical left operator right => exact pair left right rfl
  | ternary condition first second =>
    have hcondition := (condition.walked r).classContext_eq.trans hr
    exact forall_mem_triple (.intro [] (first.events c ++ second.events c) hr rfl)
      (.intro (condition.events c) (second.events c) hcondition rfl)
      (.intro (condition.events c ++ first.events c) []
        ((first.walked _).classContext_eq.trans hcondition)
        (by simp [Place.events, Expr.events]))
  | name id name => exact forall_mem_none
  | assign id name value =>
    exact forall_mem_single (.intro [] [.visited id (some name.lexeme)] hr rfl)
  | call callee paren arguments =>
    exact forall_mem_pair (.intro [] (exprsEvents c arguments) hr rfl)
      (.intro (callee.events c) [] ((callee.walked r).classContext_eq.trans hr)
        (by simp [Place.events, Expr.events]))
  | get object name => exact single object rfl
  | nilGet object name => exact single object rfl
  | set object name value => exact pair object value rfl
  | this id keyword => exact forall_mem_none
  | super id keyword method => exact forall_mem_none
  | lambda declaration =>
    exact forall_mem_single (.intro [] [] hr (by simp [Place.events, Expr.events]))

lemma Stmt.contains_parts (s : Stmt) : ∀ y ∈ s.parts r, Place.Contains c (.stmt s) y := by
  have introduced : ∀ name : Token, (r.introduce name).classContext = c := by
    intro name
    rw [introduce_eq]
    exact hr
  cases s with
  | expression value =>
    exact forall_mem_single (.intro [] [] hr (by simp [Place.events, Stmt.events]))
  | print keyword value =>
    exact forall_mem_single (.intro [] [] hr (by simp [Place.events, Stmt.events]))
  | var name initializer =>
    cases initializer with
    | none => exact forall_mem_none
    | some value =>
      exact forall_mem_single (.intro [.declared name.lexeme] []
        (show (r.declare name).classContext = c by rw [declare_eq]; exact hr)
        (by simp [Place.events, Stmt.events]))
  | block body => exact forall_mem_single (.intro [.opened] [.closed] hr rfl)
  | function declaration =>
    exact forall_mem_single (.intro [.declared declaration.name.lexeme] [] (introduced _)
      (by simp [Place.events, Stmt.events]))
  | getter declaration =>
    exact forall_mem_single (.intro [.declared declaration.name.lexeme] [] (introduced _)
      (by simp [Place.events, Stmt.events]))
  | classDecl name superclass methods getters =>
    cases superclass with
    | none =>
      have hmembers : (r.atMembers name none).classContext = .plain := by rw [atMembers_none_eq]
      exact forall_mem_pair
        (.intro [.declared name.lexeme, .opened, .declared "this"]
          (gettersEvents .plain getters ++ [Event.closed]) hmembers
          (by simp [Place.events, Stmt.events]))
        (.intro ([Event.declared name.lexeme, .opened, .declared "this"] ++
          functionsEvents .plain methods) [.closed]
          ((functions_walked methods _).classContext_eq.trans hmembers)
          (by simp [Place.events, Stmt.events]))
    | some superclass =>
      have habove : (r.atSuperclass name superclass).classContext = .derived :=
        (r.atSuperclass_spec name superclass).1.classContext_eq
      have hmembers : (r.atMembers name (some superclass)).classContext = .derived :=
        (r.walked_atMembers name superclass).classContext_eq.trans
          ((superclass.walked _).classContext_eq.trans habove)
      exact forall_mem_triple
        (.intro [.declared name.lexeme]
          ([Event.opened, .declared "super", .opened, .declared "this"] ++
            (functionsEvents .derived methods ++ gettersEvents .derived getters ++
              [Event.closed, .closed])) habove rfl)
        (.intro (.declared name.lexeme :: (superclass.events .derived ++
            [Event.opened, .declared "super", .opened, .declared "this"]))
          (gettersEvents .derived getters ++ [Event.closed, .closed]) hmembers
          (by simp [Place.events, Stmt.events]))
        (.intro (.declared name.lexeme :: (superclass.events .derived ++
            ([Event.opened, .declared "super", .opened, .declared "this"] ++
              functionsEvents .derived methods))) [.closed, .closed]
          ((functions_walked methods _).classContext_eq.trans hmembers)
          (by simp [Place.events, Stmt.events]))
  | ifStmt condition consequent alternative =>
    have hcondition := (condition.walked r).classContext_eq.trans hr
    cases alternative with
    | none =>
      exact forall_mem_pair (.intro [] (consequent.events c) hr rfl)
        (.intro (condition.events c) [] hcondition (by simp [Place.events, Stmt.events]))
    | some alternative =>
      exact forall_mem_triple (.intro [] (consequent.events c ++ alternative.events c) hr rfl)
        (.intro (condition.events c) (alternative.events c) hcondition rfl)
        (.intro (condition.events c ++ consequent.events c) []
          ((consequent.walked _).classContext_eq.trans hcondition)
          (by simp [Place.events, Stmt.events]))
  | whileStmt condition body =>
    exact forall_mem_pair (.intro [] (body.events c) hr rfl)
      (.intro (condition.events c) []
        (show (condition.resolve r).enterLoop.classContext = c from
          (condition.walked r).classContext_eq.trans hr)
        (by simp [Place.events, Stmt.events]))
  | breakStmt keyword => exact forall_mem_none
  | returnStmt keyword value =>
    cases value with
    | none => exact forall_mem_none
    | some value =>
      exact forall_mem_single (.intro [] []
        ((walked_failIf r _ _ _).classContext_eq.trans hr) (by simp [Place.events, Stmt.events]))

/-- What is come by in a part is come by in the place. -/
lemma Place.contains_parts (x : Place) : ∀ y ∈ x.parts r, x.Contains c y := by
  cases x with
  | expr e => exact e.contains_parts hr
  | stmt s => exact s.contains_parts hr
  | exprs es =>
    cases es with
    | nil => exact forall_mem_none
    | cons e es =>
      exact forall_mem_pair (.intro [] (exprsEvents c es) hr rfl)
        (.intro (e.events c) [] ((e.walked r).classContext_eq.trans hr)
          (by simp [Place.events, exprsEvents]))
  | stmts ss =>
    cases ss with
    | nil => exact forall_mem_none
    | cons s ss =>
      exact forall_mem_pair (.intro [] (stmtsEvents c ss) hr rfl)
        (.intro (s.events c) [] ((s.walked r).classContext_eq.trans hr)
          (by simp [Place.events, stmtsEvents]))
  | functions ds =>
    cases ds with
    | nil => exact forall_mem_none
    | cons d ds =>
      exact forall_mem_pair (.intro [] (functionsEvents c ds) hr rfl)
        (.intro (d.events c) [] ((d.walked r).classContext_eq.trans hr)
          (by simp [Place.events, functionsEvents]))
  | getters ds =>
    cases ds with
    | nil => exact forall_mem_none
    | cons d ds =>
      exact forall_mem_pair (.intro [] (gettersEvents c ds) hr rfl)
        (.intro (d.events c) [] ((d.walked r).classContext_eq.trans hr)
          (by simp [Place.events, gettersEvents]))
  | function d =>
    obtain ⟨name, params, body⟩ := d
    exact forall_mem_single (.intro (.opened :: parameterEvents params) [.closed]
      (show (r.enterFunction params).classContext = c by rw [enterFunction_eq]; exact hr) rfl)
  | getter d =>
    obtain ⟨name, body⟩ := d
    exact forall_mem_single (.intro [.opened] [.closed]
      (show (r.enterFunction []).classContext = c by rw [enterFunction_eq]; exact hr) rfl)

end

/-- What is come by in a place of a program is come by in the program. -/
theorem Located.exists_events {p : Program} {ks : List FrameKind} {r : Resolution} {x : Place}
    (h : Located p ks r x) :
    ∃ before after, p.events = before ++ (x.events r.classContext ++ after) := by
  induction h with
  | program => exact ⟨[], [], (List.append_nil _).symm⟩
  | @part ks r x y _ hy ih =>
    obtain ⟨before, after, he⟩ := ih
    obtain ⟨before', after', he'⟩ := x.contains_parts rfl y hy
    exact ⟨before ++ before', after' ++ after, by rw [he, he']; simp⟩

end Scripting
