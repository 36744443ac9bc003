import Scripting.Proofs.Resolution.Traversal

/-!
# Every node once

That the walk through a program comes by a node shows in what it leaves behind: a distance, if the
node refers to a name that is in scope, or a mistake, if the node is misplaced. Where all names are
in scope, every node leaves exactly one of these, so that no node is left out and none is come by
twice.
-/

namespace Scripting

namespace Traversal

/-- The nodes that refer to a name, in order. -/
def placed (t : Traversal) : List NodeId :=
  t.filterMap fun
    | .visited id (some _) => some id
    | _ => none

/-- The number of nodes that are misplaced. -/
def misplaced (t : Traversal) : Nat :=
  t.countP fun
    | .visited _ none => true
    | _ => false

@[simp] lemma placed_append (t t' : Traversal) : placed (t ++ t') = placed t ++ placed t' :=
  List.filterMap_append

@[simp] lemma misplaced_append (t t' : Traversal) :
    misplaced (t ++ t') = misplaced t + misplaced t' :=
  List.countP_append

lemma placed_sublist_ids (t : Traversal) : t.placed.Sublist t.ids := by
  induction t with
  | nil => exact .slnil
  | cons e t ih =>
    cases e with
    | visited id name? =>
      cases name? with
      | none => exact ih.cons id
      | some name => exact ih.cons_cons id
    | _ => exact ih

/-- Every node refers to a name or is misplaced, and not both. -/
theorem length_placed_add_misplaced (t : Traversal) :
    t.placed.length + t.misplaced = t.ids.length := by
  induction t with
  | nil => rfl
  | cons e t ih =>
    cases e with
    | visited id name? =>
      rw [ids_visited, List.length_cons, ← ih]
      cases name? with
      | none => simp [placed, misplaced, Nat.add_assoc]
      | some name => simp [placed, misplaced, Nat.add_right_comm]
    | _ => exact ih

end Traversal

/-- The fault is that a node has no meaning where it stands. -/
def StaticFault.isMisplacement : StaticFault → Bool
  | .thisOutsideClass | .superOutsideClass | .superWithoutSuperclass => true
  | .returnAtTop | .breakOutsideLoop | .readInOwnInitializer | .inheritsFromItself => false

namespace Resolution

/-- The number of misplaced nodes found so far. -/
def misplaced (r : Resolution) : Nat :=
  r.errors.toList.countP (·.fault.isMisplacement)

/-- The names that are referred to are all in a scope that stays as it is, further out than the
innermost one. -/
def InSight (r : Resolution) (t : Traversal) : Prop :=
  ∀ id name, .visited id (some name) ∈ t → ∃ scope ∈ r.scopes.tail, Record.has scope name

/-- Between two states, every node that was come by has left its mark: if its name was in scope, it
was given a distance, and if it was misplaced, there is a mistake. -/
structure Marked (t : Traversal) (r r' : Resolution) : Prop where
  found_eq : r.InSight t →
    r'.found.toList.map Prod.fst = r.found.toList.map Prod.fst ++ t.placed
  misplaced_eq : r'.misplaced = r.misplaced + t.misplaced

lemma misplaced_fail (r : Resolution) {fault : StaticFault} (h : fault.isMisplacement)
    (token : Token) : (r.fail fault token).misplaced = r.misplaced + 1 := by
  simp [fail, misplaced, h]

lemma misplaced_failIf (r : Resolution) (mistaken : Bool) {fault : StaticFault}
    (h : fault.isMisplacement = false) (token : Token) :
    (r.failIf mistaken fault token).misplaced = r.misplaced := by
  unfold failIf
  split
  · simp [fail, misplaced, h]
  · rfl

lemma misplaced_link (r : Resolution) (id : NodeId) (name : Token) :
    (r.link id name).misplaced = r.misplaced := by
  unfold link
  split <;> rfl

namespace Marked

variable {t t' : Traversal} {r r' r'' r₁ r₁' : Resolution}

/-- Steps that come by no node. -/
lemma quiet (ht : t.ids = []) (hf : r'.found = r.found) (hm : r'.misplaced = r.misplaced) :
    Marked t r r' := by
  have hlength := t.length_placed_add_misplaced
  rw [ht, List.length_nil, Nat.add_eq_zero_iff, List.length_eq_zero_iff] at hlength
  constructor
  · intro _
    rw [hf, hlength.1, List.append_nil]
  · rw [hm, hlength.2, Nat.add_zero]

lemma refl (r : Resolution) : Marked [] r r :=
  .quiet rfl rfl rfl

lemma trans (h : Marked t r r') (hs : r'.scopes.tail = r.scopes.tail) (h' : Marked t' r' r'') :
    Marked (t ++ t') r r'' := by
  constructor
  · intro hsight
    have hfound := h.found_eq fun id name hv => hsight id name (List.mem_append_left _ hv)
    have hfound' := h'.found_eq fun id name hv =>
      hs ▸ hsight id name (List.mem_append_right _ hv)
    rw [hfound', hfound, Traversal.placed_append, List.append_assoc]
  · rw [h'.misplaced_eq, h.misplaced_eq, Traversal.misplaced_append, Nat.add_assoc]

/-- Whatever is done before and behind, as long as it comes by no node. -/
lemma within (h : Marked t r₁ r₁') (front back : Traversal) (hfront : front.ids = [])
    (hback : back.ids = []) (hs : r.scopes.tail ⊆ r₁.scopes.tail) (hf : r₁.found = r.found)
    (hm : r₁.misplaced = r.misplaced) (hf' : r'.found = r₁'.found)
    (hm' : r'.misplaced = r₁'.misplaced) : Marked (front ++ (t ++ back)) r r' := by
  have hbefore : Marked front r r₁ := .quiet hfront hf hm
  have hbehind : Marked back r₁' r' := .quiet hback hf' hm'
  constructor
  · intro hsight
    have hnone : InSight r front := fun id name hv => hsight id name (List.mem_append_left _ hv)
    have hfound := h.found_eq fun id name hv => by
      obtain ⟨scope, hscope, hname⟩ :=
        hsight id name (List.mem_append_right _ (List.mem_append_left _ hv))
      exact ⟨scope, hs hscope, hname⟩
    have hplaced : back.placed = [] := List.sublist_nil.mp (hback ▸ back.placed_sublist_ids)
    rw [Traversal.placed_append, Traversal.placed_append, hplaced, List.append_nil,
      ← List.append_assoc, ← hbefore.found_eq hnone, ← hfound, hf']
  · rw [hbehind.misplaced_eq, h.misplaced_eq, hbefore.misplaced_eq, Traversal.misplaced_append,
      Traversal.misplaced_append, Nat.add_assoc, Nat.add_assoc]

/-- The body of a function. -/
lemma function {params : List Token} (h : Marked t (r.enterFunction params) r') :
    Marked (Event.opened :: (parameterEvents params ++ (t ++ [Event.closed]))) r
      (r'.leaveFunction r) := by
  have hsame := r.enterFunction_eq params
  refine h.within (.opened :: parameterEvents params) [.closed] (by simp) rfl ?_ ?_ ?_ rfl rfl
  · rw [hsame, parameterScopes_tail]
    exact r.scopes.tail_sublist.subset
  · rw [hsame]
  · rw [hsame]
    rfl

end Marked

lemma marked_introduce (r : Resolution) (name : Token) :
    Marked [.declared name.lexeme] r (r.introduce name) := by
  rw [introduce_eq]
  exact .quiet rfl rfl rfl

/-- The name of a class, in front of its superclass. -/
lemma marked_atSuperclass (r : Resolution) (name : Token) (superclass : Expr) :
    Marked [.declared name.lexeme] r (r.atSuperclass name superclass) := by
  refine .quiet rfl (r.atSuperclass_found name superclass) ?_
  unfold atSuperclass
  rw [introduce_eq]
  split
  · exact misplaced_failIf _ _ rfl _
  · rfl

/-- The members of a class without a superclass, in the scope that is opened for them. -/
lemma Marked.members {t : Traversal} {r r' : Resolution} {name : Token}
    (h : Marked t (r.atMembers name none) r') :
    Marked ([Event.declared name.lexeme, .opened, .declared "this"] ++ (t ++ [Event.closed])) r
      { r'.closeScope with classContext := r.classContext } := by
  refine h.within _ _ rfl rfl ?_ ?_ ?_ rfl rfl
  · rw [atMembers_none_eq, List.tail_cons, ← introduceScope_tail r.scopes name.lexeme]
    exact (List.tail_sublist _).subset
  · rw [atMembers_none_eq]
  · rw [atMembers_none_eq]
    rfl

/-- The members of a class with a superclass, in the scopes that are opened for them behind it. -/
lemma Marked.derivedMembers {t : Traversal} {r r' : Resolution} {name : Token} {superclass : Expr}
    (h : Marked t (r.atMembers name (some superclass)) r') :
    Marked ([Event.opened, .declared "super", .opened, .declared "this"] ++
        (t ++ [Event.closed, .closed]))
      (superclass.resolve (r.atSuperclass name superclass))
      { r'.closeScope.closeScope with classContext := r.classContext } := by
  refine h.within _ _ rfl rfl ?_ ?_ ?_ rfl rfl
  · rw [atMembers_some_eq]
    exact List.subset_cons_of_subset _ (List.tail_sublist _).subset
  · rw [atMembers_some_eq]
  · rw [atMembers_some_eq]
    rfl

/-- A node that is well-placed. -/
lemma marked_link (r : Resolution) (id : NodeId) (name : Token) :
    Marked [.visited id (some name.lexeme)] r (r.link id name) := by
  constructor
  · intro hsight
    obtain ⟨scope, hscope, hname⟩ := hsight id name.lexeme (List.mem_singleton.mpr rfl)
    have hsome : (r.distance? name.lexeme).isSome := by
      rw [distance?, List.findIdx?_isSome, List.any_eq_true]
      exact ⟨scope, List.mem_of_mem_tail hscope, hname⟩
    obtain ⟨distance, hd⟩ := Option.isSome_iff_exists.mp hsome
    simp [link, hd, Traversal.placed]
  · exact r.misplaced_link id name

/-- A node that is misplaced. -/
lemma marked_fail (r : Resolution) (id : NodeId) {fault : StaticFault} (h : fault.isMisplacement)
    (token : Token) : Marked [.visited id none] r (r.fail fault token) :=
  ⟨fun _ => by simp [fail, Traversal.placed], r.misplaced_fail h token⟩

end Resolution

open Resolution

mutual

lemma Expr.marked : (e : Expr) → {r : Resolution} → {c : ClassContext} → r.classContext = c →
    Marked (e.events c) r (e.resolve r)
  | .literal _, r, c, hc => .refl r
  | .grouping inner, r, c, hc => inner.marked hc
  | .unary _ operand, r, c, hc => operand.marked hc
  | .binary left _ right, r, c, hc => by
    have hw := left.walked r
    exact (left.marked hc).trans hw.over.tail_eq (right.marked (hw.classContext_eq.trans hc))
  | .logical left _ right, r, c, hc => by
    have hw := left.walked r
    exact (left.marked hc).trans hw.over.tail_eq (right.marked (hw.classContext_eq.trans hc))
  | .ternary condition first second, r, c, hc => by
    have hw := condition.walked r
    have hw' := hw.trans (first.walked _)
    have hfirst := first.marked (hw.classContext_eq.trans hc)
    have hsecond := second.marked (hw'.classContext_eq.trans hc)
    exact (condition.marked hc).trans hw.over.tail_eq
      (hfirst.trans (first.walked _).over.tail_eq hsecond)
  | .name id name, r, c, hc => by
    have hcheck : Marked [] r (r.failIf (r.isIncomplete name.lexeme) .readInOwnInitializer name) :=
      .quiet rfl (failIf_found r _ _ _) (r.misplaced_failIf _ rfl name)
    exact hcheck.trans (by rw [failIf_scopes]) (marked_link _ id name)
  | .assign id name value, r, c, hc =>
    (value.marked hc).trans (value.walked r).over.tail_eq (marked_link _ id name)
  | .call callee _ arguments, r, c, hc => by
    have hw := callee.walked r
    exact (callee.marked hc).trans hw.over.tail_eq
      (exprs_marked arguments (hw.classContext_eq.trans hc))
  | .get object _, r, c, hc => object.marked hc
  | .nilGet object _, r, c, hc => object.marked hc
  | .set object _ value, r, c, hc => by
    have hw := object.walked r
    exact (object.marked hc).trans hw.over.tail_eq (value.marked (hw.classContext_eq.trans hc))
  | .this id keyword, r, c, hc => by
    cases hc
    unfold Expr.events Expr.resolve
    cases r.classContext with
    | outside => exact r.marked_fail id rfl keyword
    | plain => exact r.marked_link id keyword
    | derived => exact r.marked_link id keyword
  | .super id keyword _, r, c, hc => by
    cases hc
    unfold Expr.events Expr.resolve
    cases r.classContext with
    | outside => exact r.marked_fail id rfl keyword
    | plain => exact r.marked_fail id rfl keyword
    | derived => exact r.marked_link id keyword
  | .lambda declaration, r, c, hc => declaration.marked hc

lemma exprs_marked : (es : List Expr) → {r : Resolution} → {c : ClassContext} →
    r.classContext = c → Marked (exprsEvents c es) r (resolveExprs es r)
  | [], r, c, hc => .refl r
  | e :: es, r, c, hc => by
    have hw := e.walked r
    exact (e.marked hc).trans hw.over.tail_eq (exprs_marked es (hw.classContext_eq.trans hc))

lemma FunctionDecl.marked : (d : FunctionDecl) → {r : Resolution} → {c : ClassContext} →
    r.classContext = c → Marked (d.events c) r (d.resolve r)
  | .mk _ params body, r, c, hc => by
    have hbody := stmts_marked body (r := r.enterFunction params) (c := c)
      (by rw [enterFunction_eq]; exact hc)
    exact hbody.function

lemma functions_marked : (ds : List FunctionDecl) → {r : Resolution} → {c : ClassContext} →
    r.classContext = c → Marked (functionsEvents c ds) r (resolveFunctions ds r)
  | [], r, c, hc => .refl r
  | d :: ds, r, c, hc => by
    have hw := d.walked r
    exact (d.marked hc).trans hw.over.tail_eq (functions_marked ds (hw.classContext_eq.trans hc))

lemma GetterDecl.marked : (d : GetterDecl) → {r : Resolution} → {c : ClassContext} →
    r.classContext = c → Marked (d.events c) r (d.resolve r)
  | .mk _ body, r, c, hc => by
    have hbody := stmts_marked body (r := r.enterFunction []) (c := c)
      (by rw [enterFunction_eq]; exact hc)
    exact hbody.function

lemma getters_marked : (ds : List GetterDecl) → {r : Resolution} → {c : ClassContext} →
    r.classContext = c → Marked (gettersEvents c ds) r (resolveGetters ds r)
  | [], r, c, hc => .refl r
  | d :: ds, r, c, hc => by
    have hw := d.walked r
    exact (d.marked hc).trans hw.over.tail_eq (getters_marked ds (hw.classContext_eq.trans hc))

lemma Stmt.marked : (s : Stmt) → {r : Resolution} → {c : ClassContext} → r.classContext = c →
    Marked (s.events c) r (s.resolve r)
  | .expression value, r, c, hc => value.marked hc
  | .print _ value, r, c, hc => value.marked hc
  | .var name none, r, c, hc => r.marked_introduce name
  | .var name (some value), r, c, hc => by
    have hvalue := value.marked (r := r.declare name) (c := c) (by rw [declare_eq]; exact hc)
    have hdeclared : Marked [.declared name.lexeme] r (r.declare name) := by
      rw [declare_eq]
      exact .quiet rfl rfl rfl
    have hboth := hdeclared.trans (by rw [declare_eq, enterScope_tail]) hvalue
    rw [Stmt.resolve, define_eq]
    exact ⟨hboth.found_eq, hboth.misplaced_eq⟩
  | .block body, r, c, hc => by
    have hbody := stmts_marked body (r := r.openScope) hc
    exact hbody.within [.opened] [.closed] rfl rfl r.scopes.tail_sublist.subset rfl rfl rfl rfl
  | .function declaration, r, c, hc => by
    have hname := r.marked_introduce declaration.name
    exact hname.trans (by rw [introduce_eq, introduceScope_tail])
      (declaration.marked (c := c) (by rw [introduce_eq]; exact hc))
  | .getter declaration, r, c, hc => by
    have hname := r.marked_introduce declaration.name
    exact hname.trans (by rw [introduce_eq, introduceScope_tail])
      (declaration.marked (c := c) (by rw [introduce_eq]; exact hc))
  | .classDecl name none methods getters, r, c, hc => by
    have hplain : (r.atMembers name none).classContext = .plain := by rw [atMembers_none_eq]
    have hw := functions_walked methods (r.atMembers name none)
    have hmembers := (functions_marked methods hplain).trans hw.over.tail_eq
      (getters_marked getters (hw.classContext_eq.trans hplain))
    exact hmembers.members
  | .classDecl name (some superclass) methods getters, r, c, hc => by
    obtain ⟨habove, hscopes⟩ := r.atSuperclass_spec name superclass
    have hderived : (r.atSuperclass name superclass).classContext = .derived :=
      habove.classContext_eq
    have hwSuper := superclass.walked (r.atSuperclass name superclass)
    have hinside : (r.atMembers name (some superclass)).classContext = .derived :=
      (r.walked_atMembers name superclass).classContext_eq.trans
        (hwSuper.classContext_eq.trans hderived)
    have hw := functions_walked methods (r.atMembers name (some superclass))
    have hmembers := (functions_marked methods hinside).trans hw.over.tail_eq
      (getters_marked getters (hw.classContext_eq.trans hinside))
    exact (r.marked_atSuperclass name superclass).trans (by rw [hscopes, introduceScope_tail])
      ((superclass.marked hderived).trans hwSuper.over.tail_eq hmembers.derivedMembers)
  | .ifStmt condition consequent none, r, c, hc => by
    have hw := condition.walked r
    exact (condition.marked hc).trans hw.over.tail_eq
      (consequent.marked (hw.classContext_eq.trans hc))
  | .ifStmt condition consequent (some alternative), r, c, hc => by
    have hw := condition.walked r
    have hw' := consequent.walked (condition.resolve r)
    have hconsequent := consequent.marked (hw.classContext_eq.trans hc)
    have halternative := alternative.marked
      (hw'.classContext_eq.trans (hw.classContext_eq.trans hc))
    exact (condition.marked hc).trans hw.over.tail_eq
      (hconsequent.trans hw'.tail_eq halternative)
  | .whileStmt condition body, r, c, hc => by
    have hw := condition.walked r
    have hbody := body.marked (r := (condition.resolve r).enterLoop)
      (hw.classContext_eq.trans hc)
    exact (condition.marked hc).trans hw.over.tail_eq ⟨hbody.found_eq, hbody.misplaced_eq⟩
  | .breakStmt keyword, r, c, hc =>
    .quiet rfl (failIf_found r _ _ _) (r.misplaced_failIf _ rfl keyword)
  | .returnStmt keyword none, r, c, hc =>
    .quiet rfl (failIf_found r _ _ _) (r.misplaced_failIf _ rfl keyword)
  | .returnStmt keyword (some value), r, c, hc => by
    have hcheck : Marked [] r (r.failIf (!r.inFunction) .returnAtTop keyword) :=
      .quiet rfl (failIf_found r _ _ _) (r.misplaced_failIf _ rfl keyword)
    have hvalue := value.marked ((walked_failIf r (!r.inFunction) .returnAtTop
      keyword).classContext_eq.trans hc)
    exact hcheck.trans (by rw [failIf_scopes]) hvalue

/-- Walking through statements, every node leaves its mark. -/
theorem stmts_marked : (ss : List Stmt) → {r : Resolution} → {c : ClassContext} →
    r.classContext = c → Marked (stmtsEvents c ss) r (resolveStmts ss r)
  | [], r, c, hc => .refl r
  | s :: ss, r, c, hc => by
    have hw := s.walked r
    exact (s.marked hc).trans hw.tail_eq (stmts_marked ss (hw.classContext_eq.trans hc))

end

end Scripting
