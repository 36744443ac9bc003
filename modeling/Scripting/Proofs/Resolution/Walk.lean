import Scripting.Proofs.Program.Shape
import Scripting.Proofs.Store.Growth
import Scripting.Resolution

/-!
# The walk through a program

Resolving a program is a walk through its tree. A walk only adds distances and mistakes to those
found before, gives distances to its own nodes only, and comes out of everything that it enters:
afterwards it is in the same function, class and loop, and in the same scopes. Only a declaration
changes the innermost scope.
-/

namespace Scripting

namespace Resolution

/-! ### Single steps of the walk -/

/-- The scopes with a name entered into the innermost one. -/
def enterScope (scopes : List Scope) (name : String) (complete : Bool) : List Scope :=
  match scopes with
  | [] => []
  | scope :: rest => scope.insert name complete :: rest

@[simp] lemma enterScope_cons (scope : Scope) (rest : List Scope) (name : String)
    (complete : Bool) :
    enterScope (scope :: rest) name complete = scope.insert name complete :: rest := rfl

@[simp] lemma enterScope_tail (scopes : List Scope) (name : String) (complete : Bool) :
    (enterScope scopes name complete).tail = scopes.tail := by
  cases scopes <;> rfl

@[simp] lemma enterScope_length (scopes : List Scope) (name : String) (complete : Bool) :
    (enterScope scopes name complete).length = scopes.length := by
  cases scopes <;> rfl

/-- Entering a name changes only the scopes. -/
lemma enter_eq (r : Resolution) (name : String) (complete : Bool) :
    r.enter name complete = { r with scopes := enterScope r.scopes name complete } := by
  obtain ⟨scopes, _, _, _, _, _⟩ := r
  cases scopes <;> rfl

/-- The scopes with a name declared and complete in the innermost one. -/
def introduceScope (scopes : List Scope) (name : String) : List Scope :=
  enterScope (enterScope scopes name false) name true

@[simp] lemma introduceScope_tail (scopes : List Scope) (name : String) :
    (introduceScope scopes name).tail = scopes.tail := by
  simp [introduceScope]

@[simp] lemma introduceScope_length (scopes : List Scope) (name : String) :
    (introduceScope scopes name).length = scopes.length := by
  simp [introduceScope]

lemma declare_eq (r : Resolution) (name : Token) :
    r.declare name = { r with scopes := enterScope r.scopes name.lexeme false } :=
  enter_eq r _ _

lemma define_eq (r : Resolution) (name : Token) :
    r.define name = { r with scopes := enterScope r.scopes name.lexeme true } :=
  enter_eq r _ _

lemma introduce_eq (r : Resolution) (name : Token) :
    r.introduce name = { r with scopes := introduceScope r.scopes name.lexeme } := by
  rw [introduce, define_eq, declare_eq]
  rfl

@[simp] lemma failIf_scopes (r : Resolution) (mistaken : Bool) (fault : StaticFault)
    (token : Token) : (r.failIf mistaken fault token).scopes = r.scopes := by
  unfold failIf
  split <;> rfl

@[simp] lemma failIf_found (r : Resolution) (mistaken : Bool) (fault : StaticFault)
    (token : Token) : (r.failIf mistaken fault token).found = r.found := by
  unfold failIf
  split <;> rfl

@[simp] lemma link_scopes (r : Resolution) (id : NodeId) (name : Token) :
    (r.link id name).scopes = r.scopes := by
  unfold link
  split <;> rfl

/-- The scope of a function with its parameters, around which are the given scopes. -/
def parameterScopes (params : List Token) (scopes : List Scope) : List Scope :=
  params.foldl (fun scopes param => introduceScope scopes param.lexeme) ([] :: scopes)

/-- Entering a function changes only the scopes and where the walk is. -/
lemma enterFunction_eq (r : Resolution) (params : List Token) :
    r.enterFunction params =
      { r with inFunction := true, loopDepth := 0, scopes := parameterScopes params r.scopes } := by
  have fold : ∀ (params : List Token) (r : Resolution), params.foldl introduce r =
      { r with
        scopes := params.foldl (fun scopes param => introduceScope scopes param.lexeme)
          r.scopes } := by
    intro params
    induction params with
    | nil => intro r; rfl
    | cons param params ih =>
      intro r
      rw [List.foldl_cons, List.foldl_cons, ih, introduce_eq]
  exact fold params _

lemma parameterScopes_tail (params : List Token) (scopes : List Scope) :
    (parameterScopes params scopes).tail = scopes := by
  have fold : ∀ (params : List Token) (inner : List Scope),
      (params.foldl (fun scopes param => introduceScope scopes param.lexeme) inner).tail =
        inner.tail := by
    intro params
    induction params with
    | nil => intro inner; rfl
    | cons param params ih =>
      intro inner
      rw [List.foldl_cons, ih, introduceScope_tail]
  exact fold params _

/-! ### What a walk leaves -/

/-- Between two states, distances of the given nodes were noted, in order, and mistakes. -/
structure Noted (ids : List NodeId) (r r' : Resolution) : Prop where
  found : ∃ links, r'.found.toList = r.found.toList ++ links ∧
    (links.map Prod.fst).Sublist ids
  errors : ∃ mistakes, r'.errors.toList = r.errors.toList ++ mistakes

/-- The walk from `r` to `r'` came by nodes with the given identities, and it is where it was. -/
structure Walked (ids : List NodeId) (r r' : Resolution) : Prop extends Noted ids r r' where
  inFunction_eq : r'.inFunction = r.inFunction
  classContext_eq : r'.classContext = r.classContext
  loopDepth_eq : r'.loopDepth = r.loopDepth

namespace Walked

variable {ids ids' : List NodeId} {r r' r'' : Resolution}

lemma refl (ids : List NodeId) (r : Resolution) : Walked ids r r :=
  ⟨⟨⟨[], by simp⟩, ⟨[], by simp⟩⟩, rfl, rfl, rfl⟩

/-- A change of the scopes and nothing else. -/
lemma of_eq (hf : r'.found = r.found) (he : r'.errors = r.errors)
    (hi : r'.inFunction = r.inFunction) (hc : r'.classContext = r.classContext)
    (hl : r'.loopDepth = r.loopDepth) : Walked ids r r' :=
  ⟨⟨⟨[], by simp [hf]⟩, ⟨[], by simp [he]⟩⟩, hi, hc, hl⟩

lemma trans (h : Walked ids r r') (h' : Walked ids' r' r'') : Walked (ids ++ ids') r r'' := by
  obtain ⟨links, hl, hm⟩ := h.found
  obtain ⟨links', hl', hm'⟩ := h'.found
  obtain ⟨mistakes, he⟩ := h.errors
  obtain ⟨mistakes', he'⟩ := h'.errors
  refine ⟨⟨⟨links ++ links', by simp [hl, hl'], ?_⟩, ⟨mistakes ++ mistakes', by simp [he, he']⟩⟩,
    h'.inFunction_eq.trans h.inFunction_eq, h'.classContext_eq.trans h.classContext_eq,
    h'.loopDepth_eq.trans h.loopDepth_eq⟩
  rw [List.map_append]
  exact hm.append hm'

end Walked

lemma walked_fail (ids : List NodeId) (r : Resolution) (fault : StaticFault) (token : Token) :
    Walked ids r (r.fail fault token) :=
  ⟨⟨⟨[], by simp [fail]⟩, ⟨[⟨fault, token⟩], by simp [fail]⟩⟩, rfl, rfl, rfl⟩

lemma walked_failIf (r : Resolution) (mistaken : Bool) (fault : StaticFault) (token : Token) :
    Walked [] r (r.failIf mistaken fault token) := by
  unfold failIf
  split
  · exact walked_fail [] r fault token
  · exact .refl _ r

lemma walked_link (r : Resolution) (id : NodeId) (name : Token) :
    Walked [id] r (r.link id name) := by
  unfold link
  split
  · next distance _ => exact ⟨⟨⟨[(id, distance)], by simp⟩, ⟨[], by simp⟩⟩, rfl, rfl, rfl⟩
  · exact .refl _ r

/-- A walk through something that declares nothing. -/
structure WalkedInside (ids : List NodeId) (r r' : Resolution) : Prop extends
    Walked ids r r' where
  scopes_eq : r'.scopes = r.scopes

/-- A walk through statements, which may declare something in the innermost scope. -/
structure WalkedOver (ids : List NodeId) (r r' : Resolution) : Prop extends
    Walked ids r r' where
  tail_eq : r'.scopes.tail = r.scopes.tail
  length_eq : r'.scopes.length = r.scopes.length

lemma WalkedInside.trans {ids ids' : List NodeId} {r r' r'' : Resolution}
    (h : WalkedInside ids r r') (h' : WalkedInside ids' r' r'') :
    WalkedInside (ids ++ ids') r r'' :=
  ⟨h.toWalked.trans h'.toWalked, h'.scopes_eq.trans h.scopes_eq⟩

lemma WalkedInside.over {ids : List NodeId} {r r' : Resolution} (h : WalkedInside ids r r') :
    WalkedOver ids r r' :=
  ⟨h.toWalked, by rw [h.scopes_eq], by rw [h.scopes_eq]⟩

lemma WalkedOver.trans {ids ids' : List NodeId} {r r' r'' : Resolution}
    (h : WalkedOver ids r r') (h' : WalkedOver ids' r' r'') :
    WalkedOver (ids ++ ids') r r'' :=
  ⟨h.toWalked.trans h'.toWalked, h'.tail_eq.trans h.tail_eq, h'.length_eq.trans h.length_eq⟩

/-- A function, entered from `r` and left again, declares nothing outside of itself. -/
lemma walked_function {ids : List NodeId} {r r' : Resolution} {params : List Token}
    (h : WalkedOver ids (r.enterFunction params) r') :
    WalkedInside ids r (r'.leaveFunction r) := by
  have hs : r'.scopes.tail = r.scopes := by
    rw [h.tail_eq, enterFunction_eq]
    exact parameterScopes_tail params r.scopes
  refine ⟨⟨⟨?_, ?_⟩, rfl, ?_, rfl⟩, hs⟩
  · have hf := h.found
    rwa [enterFunction_eq] at hf
  · have he := h.errors
    rwa [enterFunction_eq] at he
  · have hc := h.classContext_eq
    rwa [enterFunction_eq] at hc

end Resolution

open Resolution

/-- The state in which the body of a loop is walked through. -/
def Resolution.enterLoop (r : Resolution) : Resolution :=
  { r with loopDepth := r.loopDepth + 1 }

/-- The state in which the superclass of a class is walked through. -/
def Resolution.atSuperclass (r : Resolution) (name : Token) (superclass : Expr) : Resolution :=
  let inside := { r.introduce name with classContext := .derived }
  match superclass with
  | .name _ superName =>
    inside.failIf (superName.lexeme = name.lexeme) .inheritsFromItself superName
  | _ => inside

/-- The state in which the members of a class are walked through. -/
def Resolution.atMembers (r : Resolution) (name : Token) : Option Expr → Resolution
  | none =>
    Resolution.enter (openScope { r.introduce name with classContext := .plain }) "this" true
  | some superclass =>
    let inside := superclass.resolve (r.atSuperclass name superclass)
    (inside.openScope.enter "super" true).openScope.enter "this" true

/-- In front of its superclass, a class has its name declared. -/
lemma Resolution.atSuperclass_spec (r : Resolution) (name : Token) (superclass : Expr) :
    Walked [] { r.introduce name with classContext := .derived } (r.atSuperclass name superclass) ∧
      (r.atSuperclass name superclass).scopes = introduceScope r.scopes name.lexeme := by
  unfold atSuperclass
  rw [introduce_eq]
  split
  · exact ⟨walked_failIf _ _ _ _, failIf_scopes _ _ _ _⟩
  · exact ⟨.refl _ _, rfl⟩

lemma Resolution.atSuperclass_found (r : Resolution) (name : Token) (superclass : Expr) :
    (r.atSuperclass name superclass).found = r.found := by
  unfold atSuperclass
  rw [introduce_eq]
  split
  · rw [failIf_found]
  · rfl

lemma Resolution.atMembers_none_eq (r : Resolution) (name : Token) :
    r.atMembers name none =
      { r with
        classContext := .plain
        scopes := [("this", true)] :: introduceScope r.scopes name.lexeme } := by
  rw [atMembers, enter_eq, introduce_eq]
  rfl

lemma Resolution.atMembers_some_eq (r : Resolution) (name : Token) (superclass : Expr) :
    r.atMembers name (some superclass) =
      { superclass.resolve (r.atSuperclass name superclass) with
        scopes := [("this", true)] :: [("super", true)] ::
          (superclass.resolve (r.atSuperclass name superclass)).scopes } := by
  rw [atMembers, enter_eq, enter_eq]
  rfl

/-- Behind its superclass, a class opens scopes and nothing else. -/
lemma Resolution.walked_atMembers (r : Resolution) (name : Token) (superclass : Expr) :
    Walked [] (superclass.resolve (r.atSuperclass name superclass))
      (r.atMembers name (some superclass)) := by
  rw [atMembers_some_eq]
  exact .of_eq rfl rfl rfl rfl rfl

lemma Stmt.resolve_classDecl_none (r : Resolution) (name : Token) (methods : List FunctionDecl)
    (getters : List GetterDecl) :
    (Stmt.classDecl name none methods getters).resolve r =
      { (resolveGetters getters (resolveFunctions methods (r.atMembers name none))).closeScope with
        classContext := r.classContext } := by
  rfl

lemma Stmt.resolve_classDecl_some (r : Resolution) (name : Token) (superclass : Expr)
    (methods : List FunctionDecl) (getters : List GetterDecl) :
    (Stmt.classDecl name (some superclass) methods getters).resolve r =
      { (resolveGetters getters (resolveFunctions methods
          (r.atMembers name (some superclass)))).closeScope.closeScope with
        classContext := r.classContext } := by
  rfl

mutual

lemma Expr.walked : (e : Expr) → (r : Resolution) → WalkedInside e.ids r (e.resolve r)
  | .literal _, r => ⟨.refl _ r, rfl⟩
  | .grouping inner, r => inner.walked r
  | .unary _ operand, r => operand.walked r
  | .binary left _ right, r => (left.walked r).trans (right.walked _)
  | .logical left _ right, r => (left.walked r).trans (right.walked _)
  | .ternary condition first second, r =>
    (condition.walked r).trans ((first.walked _).trans (second.walked _))
  | .name id name, r =>
    ⟨(walked_failIf r _ _ _).trans (walked_link _ id name), by simp [Expr.resolve]⟩
  | .assign id name value, r =>
    (value.walked r).trans ⟨walked_link _ id name, link_scopes _ id name⟩
  | .call callee _ arguments, r => (callee.walked r).trans (exprs_walked arguments _)
  | .get object _, r => object.walked r
  | .nilGet object _, r => object.walked r
  | .set object _ value, r => (object.walked r).trans (value.walked _)
  | .this id keyword, r => by
    unfold Expr.resolve
    split
    · exact ⟨walked_fail _ r _ keyword, rfl⟩
    · exact ⟨walked_link r id keyword, link_scopes r id keyword⟩
  | .super id keyword _, r => by
    unfold Expr.resolve
    split
    · exact ⟨walked_fail _ r _ keyword, rfl⟩
    · exact ⟨walked_fail _ r _ keyword, rfl⟩
    · exact ⟨walked_link r id keyword, link_scopes r id keyword⟩
  | .lambda declaration, r => declaration.walked r

lemma exprs_walked : (es : List Expr) → (r : Resolution) →
    WalkedInside (exprsIds es) r (resolveExprs es r)
  | [], r => ⟨.refl _ r, rfl⟩
  | e :: es, r => (e.walked r).trans (exprs_walked es _)

lemma FunctionDecl.walked : (d : FunctionDecl) → (r : Resolution) →
    WalkedInside d.ids r (d.resolve r)
  | .mk _ params body, r => walked_function (stmts_walked body (r.enterFunction params))

lemma functions_walked : (ds : List FunctionDecl) → (r : Resolution) →
    WalkedInside (functionsIds ds) r (resolveFunctions ds r)
  | [], r => ⟨.refl _ r, rfl⟩
  | d :: ds, r => (d.walked r).trans (functions_walked ds _)

lemma GetterDecl.walked : (d : GetterDecl) → (r : Resolution) →
    WalkedInside d.ids r (d.resolve r)
  | .mk _ body, r => walked_function (stmts_walked body (r.enterFunction []))

lemma getters_walked : (ds : List GetterDecl) → (r : Resolution) →
    WalkedInside (gettersIds ds) r (resolveGetters ds r)
  | [], r => ⟨.refl _ r, rfl⟩
  | d :: ds, r => (d.walked r).trans (getters_walked ds _)

lemma Stmt.walked : (s : Stmt) → (r : Resolution) → WalkedOver s.ids r (s.resolve r)
  | .expression value, r => (value.walked r).over
  | .print _ value, r => (value.walked r).over
  | .var name none, r => by
    rw [Stmt.resolve, introduce_eq]
    exact ⟨.of_eq rfl rfl rfl rfl rfl, by simp, by simp⟩
  | .var name (some value), r => by
    have hv := value.walked (r.declare name)
    rw [Stmt.resolve, define_eq, hv.scopes_eq, declare_eq]
    rw [declare_eq] at hv
    exact ⟨⟨⟨hv.found, hv.errors⟩, hv.inFunction_eq, hv.classContext_eq, hv.loopDepth_eq⟩,
      by simp, by simp⟩
  | .block body, r => by
    have hb := stmts_walked body r.openScope
    have hs : (resolveStmts body r.openScope).scopes.tail = r.scopes := hb.tail_eq
    exact WalkedInside.over
      ⟨⟨⟨hb.found, hb.errors⟩, hb.inFunction_eq, hb.classContext_eq, hb.loopDepth_eq⟩, hs⟩
  | .function declaration, r => by
    have hd := declaration.walked (r.introduce declaration.name)
    rw [introduce_eq] at hd
    rw [Stmt.resolve, introduce_eq]
    exact ⟨⟨⟨hd.found, hd.errors⟩, hd.inFunction_eq, hd.classContext_eq, hd.loopDepth_eq⟩,
      by simp [hd.scopes_eq], by simp [hd.scopes_eq]⟩
  | .getter declaration, r => by
    have hd := declaration.walked (r.introduce declaration.name)
    rw [introduce_eq] at hd
    rw [Stmt.resolve, introduce_eq]
    exact ⟨⟨⟨hd.found, hd.errors⟩, hd.inFunction_eq, hd.classContext_eq, hd.loopDepth_eq⟩,
      by simp [hd.scopes_eq], by simp [hd.scopes_eq]⟩
  | .classDecl name none methods getters, r => by
    have hm := (functions_walked methods (r.atMembers name none)).trans (getters_walked getters _)
    rw [Stmt.resolve_classDecl_none]
    rw [atMembers_none_eq] at hm ⊢
    refine ⟨⟨⟨hm.found, hm.errors⟩, hm.inFunction_eq, rfl, hm.loopDepth_eq⟩, ?_, ?_⟩
    · simp [closeScope, hm.scopes_eq]
    · simp [closeScope, hm.scopes_eq]
  | .classDecl name (some superclass) methods getters, r => by
    obtain ⟨hc, hs⟩ := r.atSuperclass_spec name superclass
    have hw := superclass.walked (r.atSuperclass name superclass)
    have hm := (functions_walked methods (r.atMembers name (some superclass))).trans
      (getters_walked getters _)
    rw [introduce_eq] at hc
    rw [Stmt.resolve_classDecl_some]
    -- up to the scopes, the members follow the superclass and that follows the name
    have hall := (hc.trans hw.toWalked).trans
      ((r.walked_atMembers name superclass).trans hm.toWalked)
    have hscopes : (resolveGetters getters (resolveFunctions methods
        (r.atMembers name (some superclass)))).scopes.tail.tail =
          introduceScope r.scopes name.lexeme := by
      rw [hm.scopes_eq, ← hs, ← hw.scopes_eq, atMembers_some_eq]
      rfl
    refine ⟨⟨⟨hall.found, hall.errors⟩, hall.inFunction_eq, rfl, hall.loopDepth_eq⟩, ?_, ?_⟩
    · simp [closeScope, hscopes]
    · simpa [closeScope] using congrArg List.length hscopes
  | .ifStmt condition consequent none, r => (condition.walked r).over.trans (consequent.walked _)
  | .ifStmt condition consequent (some alternative), r =>
    (condition.walked r).over.trans ((consequent.walked _).trans (alternative.walked _))
  | .whileStmt condition body, r => by
    have hc := condition.walked r
    have hb := body.walked (condition.resolve r).enterLoop
    have hw : Walked body.ids (condition.resolve r)
        { body.resolve (condition.resolve r).enterLoop with
          loopDepth := (body.resolve (condition.resolve r).enterLoop).loopDepth - 1 } :=
      ⟨⟨hb.found, hb.errors⟩, hb.inFunction_eq, hb.classContext_eq, by rw [hb.loopDepth_eq]; rfl⟩
    exact ⟨hc.toWalked.trans hw, hb.tail_eq.trans (congrArg List.tail hc.scopes_eq),
      hb.length_eq.trans (congrArg List.length hc.scopes_eq)⟩
  | .breakStmt keyword, r => ⟨walked_failIf r _ _ _, by simp [Stmt.resolve], by simp [Stmt.resolve]⟩
  | .returnStmt keyword none, r =>
    ⟨walked_failIf r _ _ _, by simp [Stmt.resolve], by simp [Stmt.resolve]⟩
  | .returnStmt keyword (some value), r =>
    WalkedInside.over (WalkedInside.trans ⟨walked_failIf r _ _ _, failIf_scopes r _ _ _⟩
      (value.walked _))

lemma stmts_walked : (ss : List Stmt) → (r : Resolution) →
    WalkedOver (stmtsIds ss) r (resolveStmts ss r)
  | [], r => ⟨.refl _ r, rfl, rfl⟩
  | s :: ss, r => (s.walked r).trans (stmts_walked ss _)

end

end Scripting
