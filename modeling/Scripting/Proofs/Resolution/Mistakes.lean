import Scripting.Proofs.Resolution.Unfinished

/-!
# Mistakes

Whether something is a mistake depends on what stands around it in the program, and for a name also
on what was declared before. Here this is said about each of the things that can be mistakes, as
they follow each other in the tree, and without the state that resolving keeps. The mistakes that
resolving finds are exactly these, one after the other, and what was found to be a mistake before
makes no difference to what is found after it.
-/

namespace Scripting

/-- What can stand around something in a program. -/
inductive Enclosure where
  /-- The body of a function, a method, a getter or a lambda. -/
  | function
  /-- The body of a loop. -/
  | loop
  /-- A class, with a superclass or without one. -/
  | classDecl (derived : Bool)
  /-- The initializer of a variable that is declared at a place of the traversal. -/
  | initializer (declaredAt : Nat)
deriving DecidableEq

/-- All that stands around something, the innermost first. -/
abbrev Surroundings := List Enclosure

namespace Surroundings

/-- The variables in whose initializers something stands, by the places where they are declared. -/
def initializers (a : Surroundings) : List Nat :=
  a.filterMap fun
    | .initializer declaredAt => some declaredAt
    | _ => none

/-- The kind of the innermost class. -/
def classContext (a : Surroundings) : ClassContext :=
  let innermost := a.findSome? fun
    | .classDecl derived => some derived
    | _ => none
  match innermost with
  | none => .outside
  | some false => .plain
  | some true => .derived

@[simp] lemma classContext_classDecl (derived : Bool) (a : Surroundings) :
    classContext (.classDecl derived :: a) = if derived then .derived else .plain := by
  cases derived <;> rfl

/-- What stands around something within the innermost function. -/
def inFunction (a : Surroundings) : Surroundings :=
  a.takeWhile (· ≠ .function)

end Surroundings

/-- What can be a mistake. -/
inductive Suspect where
  | returns (keyword : Token)
  | breaks (keyword : Token)
  | receiver (keyword : Token)
  | parent (keyword : Token)
  | inherits (name superName : Token)
  | reads (name : Token)

/-- Something that can be a mistake where it stands: what is around it, and what is come by on the
way there. -/
structure Suspicion where
  suspect : Suspect
  around : Surroundings
  before : Traversal

/-- The innermost scope declares a name, and its latest declaration there is that of a variable
whose initializer is around. -/
def ReadsItself (a : Surroundings) (t : Traversal) (name : String) : Prop :=
  ∃ i ∈ t.openScopes.head?, ∃ k ∈ a.initializers, t.LatestAt name i k

instance (a : Surroundings) (t : Traversal) (name : String) : Decidable (ReadsItself a t name) :=
  inferInstanceAs (Decidable (∃ i ∈ t.openScopes.head?, _))

example : ReadsItself [.initializer 1] [.opened, .declared "a"] "a" ∧
    ¬ ReadsItself [.initializer 1] [.opened, .declared "a", .opened] "a" ∧
    ¬ ReadsItself [.initializer 0] [.declared "a"] "a" := by
  decide

/-- The mistake that something is where it stands, if it is one. -/
def Suspicion.mistake? (s : Suspicion) : Option StaticError :=
  match s.suspect with
  | .returns keyword =>
    if .function ∈ s.around then none else some ⟨.returnAtTop, keyword⟩
  | .breaks keyword =>
    if .loop ∈ s.around.inFunction then none else some ⟨.breakOutsideLoop, keyword⟩
  | .receiver keyword =>
    if s.around.classContext = .outside then some ⟨.thisOutsideClass, keyword⟩ else none
  | .parent keyword =>
    match s.around.classContext with
    | .outside => some ⟨.superOutsideClass, keyword⟩
    | .plain => some ⟨.superWithoutSuperclass, keyword⟩
    | .derived => none
  | .inherits name superName =>
    if superName.lexeme = name.lexeme then some ⟨.inheritsFromItself, superName⟩ else none
  | .reads name =>
    if ReadsItself s.around s.before name.lexeme then some ⟨.readInOwnInitializer, name⟩ else none

/-- A class may inherit from itself, if it names what it inherits from. -/
def Expr.inheritance (a : Surroundings) (t : Traversal) (name : Token) : Expr → List Suspicion
  | .name _ superName => [⟨.inherits name superName, a, t⟩]
  | _ => []

lemma Expr.before_of_mem_inheritance (a : Surroundings) (t : Traversal) (name : Token) :
    (e : Expr) → ∀ s ∈ e.inheritance a t name, s.before = t := by
  intro e
  cases e <;> simp [Expr.inheritance]

mutual

/-- What can be a mistake in an expression with surroundings, which is reached by a traversal. -/
def Expr.suspicions (a : Surroundings) (t : Traversal) : Expr → List Suspicion
  | .literal _ => []
  | .grouping inner => inner.suspicions a t
  | .unary _ operand => operand.suspicions a t
  | .binary left _ right =>
    left.suspicions a t ++ right.suspicions a (t ++ left.events a.classContext)
  | .logical left _ right =>
    left.suspicions a t ++ right.suspicions a (t ++ left.events a.classContext)
  | .ternary condition first second =>
    condition.suspicions a t ++
      (first.suspicions a (t ++ condition.events a.classContext) ++
        second.suspicions a
          (t ++ condition.events a.classContext ++ first.events a.classContext))
  | .name _ name => [⟨.reads name, a, t⟩]
  | .assign _ _ value => value.suspicions a t
  | .call callee _ arguments =>
    callee.suspicions a t ++ exprsSuspicions a (t ++ callee.events a.classContext) arguments
  | .get object _ => object.suspicions a t
  | .nilGet object _ => object.suspicions a t
  | .set object _ value =>
    object.suspicions a t ++ value.suspicions a (t ++ object.events a.classContext)
  | .this _ keyword => [⟨.receiver keyword, a, t⟩]
  | .super _ keyword _ => [⟨.parent keyword, a, t⟩]
  | .lambda declaration => declaration.suspicions a t

/-- What can be a mistake in expressions. -/
def exprsSuspicions (a : Surroundings) (t : Traversal) : List Expr → List Suspicion
  | [] => []
  | e :: es => e.suspicions a t ++ exprsSuspicions a (t ++ e.events a.classContext) es

/-- What can be a mistake in a function. -/
def FunctionDecl.suspicions (a : Surroundings) (t : Traversal) : FunctionDecl → List Suspicion
  | .mk _ params body =>
    stmtsSuspicions (.function :: a) (t ++ .opened :: parameterEvents params) body

/-- What can be a mistake in methods. -/
def functionsSuspicions (a : Surroundings) (t : Traversal) : List FunctionDecl → List Suspicion
  | [] => []
  | f :: fs => f.suspicions a t ++ functionsSuspicions a (t ++ f.events a.classContext) fs

/-- What can be a mistake in a getter. -/
def GetterDecl.suspicions (a : Surroundings) (t : Traversal) : GetterDecl → List Suspicion
  | .mk _ body => stmtsSuspicions (.function :: a) (t ++ [.opened]) body

/-- What can be a mistake in getters. -/
def gettersSuspicions (a : Surroundings) (t : Traversal) : List GetterDecl → List Suspicion
  | [] => []
  | g :: gs => g.suspicions a t ++ gettersSuspicions a (t ++ g.events a.classContext) gs

/-- What can be a mistake in a statement. -/
def Stmt.suspicions (a : Surroundings) (t : Traversal) : Stmt → List Suspicion
  | .expression value => value.suspicions a t
  | .print _ value => value.suspicions a t
  | .var _ none => []
  | .var name (some value) =>
    value.suspicions (.initializer t.length :: a) (t ++ [.declared name.lexeme])
  | .block body => stmtsSuspicions a (t ++ [.opened]) body
  | .function declaration =>
    declaration.suspicions a (t ++ [.declared declaration.name.lexeme])
  | .getter declaration => declaration.suspicions a (t ++ [.declared declaration.name.lexeme])
  | .classDecl name none methods getters =>
    let inside := .classDecl false :: a
    let members := t ++ [.declared name.lexeme, .opened, .declared "this"]
    functionsSuspicions inside members methods ++
      gettersSuspicions inside (members ++ functionsEvents .plain methods) getters
  | .classDecl name (some superclass) methods getters =>
    let inside := .classDecl true :: a
    let named := t ++ [.declared name.lexeme]
    let members := named ++ superclass.events .derived ++
      [.opened, .declared "super", .opened, .declared "this"]
    superclass.inheritance a t name ++ (superclass.suspicions inside named ++
      (functionsSuspicions inside members methods ++
        gettersSuspicions inside (members ++ functionsEvents .derived methods) getters))
  | .ifStmt condition consequent none =>
    condition.suspicions a t ++ consequent.suspicions a (t ++ condition.events a.classContext)
  | .ifStmt condition consequent (some alternative) =>
    condition.suspicions a t ++
      (consequent.suspicions a (t ++ condition.events a.classContext) ++
        alternative.suspicions a
          (t ++ condition.events a.classContext ++ consequent.events a.classContext))
  | .whileStmt condition body =>
    condition.suspicions a t ++
      body.suspicions (.loop :: a) (t ++ condition.events a.classContext)
  | .breakStmt keyword => [⟨.breaks keyword, a, t⟩]
  | .returnStmt keyword none => [⟨.returns keyword, a, t⟩]
  | .returnStmt keyword (some value) => ⟨.returns keyword, a, t⟩ :: value.suspicions a t

/-- What can be a mistake in statements. -/
def stmtsSuspicions (a : Surroundings) (t : Traversal) : List Stmt → List Suspicion
  | [] => []
  | s :: ss => s.suspicions a t ++ stmtsSuspicions a (t ++ s.events a.classContext) ss

end

/-- What can be a mistake in a program. -/
def Program.suspicions (p : Program) : List Suspicion :=
  stmtsSuspicions [] [] p

/-! ### The order of suspicions -/

/-- Suspicions that are come by one after the other, between the end of a traversal and that of the
events that follow it. -/
structure Placed (t events : Traversal) (suspicions : List Suspicion) : Prop where
  within : ∀ s ∈ suspicions, t <+: s.before ∧ s.before <+: t ++ events
  sorted : suspicions.Pairwise fun s s' => s.before <+: s'.before

namespace Placed

variable {t events events' : Traversal} {suspicions suspicions' : List Suspicion}

/-- At the end of the traversal. -/
lemma here (h : ∀ s ∈ suspicions, s.before = t) : Placed t events suspicions := by
  refine ⟨fun s hs => ?_, List.pairwise_of_forall_mem_list fun s hs s' hs' => ?_⟩
  · rw [h s hs]
    exact ⟨List.prefix_rfl, List.prefix_append t events⟩
  · have hsame : s.before = s'.before := (h s hs).trans (h s' hs').symm
    exact hsame ▸ List.prefix_rfl

lemma append (h : Placed t events suspicions) (h' : Placed (t ++ events) events' suspicions') :
    Placed t (events ++ events') (suspicions ++ suspicions') := by
  refine ⟨fun s hs => ?_, ?_⟩
  · rw [← List.append_assoc]
    rcases List.mem_append.mp hs with hs | hs
    · exact ⟨(h.within s hs).1, (h.within s hs).2.trans (List.prefix_append _ events')⟩
    · exact ⟨(List.prefix_append t events).trans (h'.within s hs).1, (h'.within s hs).2⟩
  · rw [List.pairwise_append]
    exact ⟨h.sorted, h'.sorted, fun s hs s' hs' => (h.within s hs).2.trans (h'.within s' hs').1⟩

/-- Seen from before what was opened and from behind what was closed. -/
lemma widen {start : Traversal} (h : Placed (t ++ start) events suspicions) (stop : Traversal) :
    Placed t (start ++ (events ++ stop)) suspicions := by
  refine ⟨fun s hs => ⟨?_, ?_⟩, h.sorted⟩
  · exact (List.prefix_append t start).trans (h.within s hs).1
  · rw [← List.append_assoc, ← List.append_assoc]
    exact (h.within s hs).2.trans (List.prefix_append _ stop)

end Placed

/-! ### Where the walk is -/

namespace Resolution

@[simp] lemma link_errors (r : Resolution) (id : NodeId) (name : Token) :
    (r.link id name).errors = r.errors := by
  unfold link
  split <;> rfl

lemma failIf_errors (r : Resolution) (mistaken : Bool) (fault : StaticFault) (token : Token) :
    (r.failIf mistaken fault token).errors.toList =
      r.errors.toList ++ (if mistaken then some ⟨fault, token⟩ else none).toList := by
  unfold failIf
  split
  · simp [fail]
  · simp

lemma walked_introduce (r : Resolution) (name : Token) : Walked [] r (r.introduce name) := by
  rw [introduce_eq]
  exact .of_eq rfl rfl rfl rfl rfl

/-- The walk has followed a traversal and is inside of its surroundings. -/
structure Inside (a : Surroundings) (t : Traversal) (r : Resolution) : Prop where
  inFunction_eq : r.inFunction = decide (.function ∈ a)
  classContext_eq : r.classContext = a.classContext
  loopDepth_eq : r.loopDepth = a.inFunction.count .loop
  flags : t.Flags a.initializers r.scopes
  past : ∀ k ∈ a.initializers, k < t.length

/-- On the way from `r` to `r'`, the walk has found the mistakes among the suspicions that it has
come by, and it is in the scopes where it was. -/
structure Finds (a : Surroundings) (t events : Traversal) (suspicions : List Suspicion)
    (r r' : Resolution) : Prop where
  errors_eq : r'.errors.toList = r.errors.toList ++ suspicions.filterMap Suspicion.mistake?
  flags : Traversal.Flags (t ++ events) a.initializers r'.scopes
  openScopes_eq : Traversal.openScopes (t ++ events) = t.openScopes
  placed : Placed t events suspicions

variable {a : Surroundings} {t events events' : Traversal} {ids : List NodeId}
  {suspicions suspicions' : List Suspicion} {r r' r'' : Resolution}

lemma Finds.trans (h : Finds a t events suspicions r r')
    (h' : Finds a (t ++ events) events' suspicions' r' r'') :
    Finds a t (events ++ events') (suspicions ++ suspicions') r r'' := by
  refine ⟨?_, ?_, ?_, h.placed.append h'.placed⟩
  · rw [h'.errors_eq, h.errors_eq, List.filterMap_append, List.append_assoc]
  · rw [← List.append_assoc]
    exact h'.flags
  · rw [← List.append_assoc, h'.openScopes_eq, h.openScopes_eq]

namespace Inside

section

variable (h : Inside a t r)

include h

/-- Afterwards, the walk is inside of the same. -/
lemma after (hw : Walked ids r r') (hf : Finds a t events suspicions r r') :
    Inside a (t ++ events) r' := by
  refine ⟨hw.inFunction_eq.trans h.inFunction_eq, hw.classContext_eq.trans h.classContext_eq,
    hw.loopDepth_eq.trans h.loopDepth_eq, hf.flags, fun k hk => ?_⟩
  exact Nat.lt_of_lt_of_le (h.past k hk) (by simp)

/-- One part after another. -/
lemma andThen (hw : Walked ids r r') (hf : Finds a t events suspicions r r')
    (next : Inside a (t ++ events) r' → Finds a (t ++ events) events' suspicions' r' r'') :
    Finds a t (events ++ events') (suspicions ++ suspicions') r r'' :=
  hf.trans (next (h.after hw hf))

/-- Nothing is come by. -/
lemma idle : Finds a t [] [] r r :=
  ⟨by simp, by simpa using h.flags, by simp, .here (by simp)⟩

/-- A node is come by. -/
lemma visit {id : NodeId} {name? : Option String} (hs : r'.scopes = r.scopes)
    (hp : ∀ s ∈ suspicions, s.before = t)
    (he : r'.errors.toList = r.errors.toList ++ suspicions.filterMap Suspicion.mistake?) :
    Finds a t [.visited id name?] suspicions r r' :=
  ⟨he, hs ▸ h.flags.visited id name?, Traversal.openScopes_of_ne (by simp) (by simp), .here hp⟩

lemma introduce (name : Token) : Finds a t [.declared name.lexeme] [] r (r.introduce name) := by
  rw [introduce_eq]
  exact ⟨by simp, h.flags.introduce name.lexeme h.past,
    Traversal.openScopes_of_ne (by simp) (by simp), .here (by simp)⟩

/-- A name is incomplete where it reads itself. -/
lemma isIncomplete_eq (name : String) : r.isIncomplete name = decide (ReadsItself a t name) := by
  have hname := h.flags name
  refine decide_eq_decide.mpr ?_
  unfold ReadsItself
  cases hs : r.scopes with
  | nil =>
    have hnone : t.openScopes = [] := by simpa [hs] using hname.symm
    simp [hnone]
  | cons scope rest =>
    cases ho : t.openScopes with
    | nil => simp [hs, ho] at hname
    | cons i inner =>
      rw [hs, ho, List.map_cons, List.map_cons, List.cons.injEq] at hname
      simpa [Traversal.Unfinished] using decide_eq_decide.mp hname.1

end

/-! ### Going in and out -/

lemma flags_parameters (params : List Token) {t : Traversal} {begun : List Nat}
    {scopes : List Scope} (h : t.Flags begun scopes) (hb : ∀ k ∈ begun, k < t.length) :
    Traversal.Flags (t ++ parameterEvents params) begun
      (params.foldl (fun scopes param => introduceScope scopes param.lexeme) scopes) := by
  induction params generalizing t scopes with
  | nil => simpa [parameterEvents] using h
  | cons param params ih =>
    have hflags := ih (h.introduce param.lexeme hb)
      fun k hk => Nat.lt_of_lt_of_le (hb k hk) (by simp)
    rwa [List.append_assoc] at hflags

section

variable (h : Inside a t r)

include h

lemma openScope : Inside a (t ++ [Event.opened]) r.openScope :=
  ⟨h.inFunction_eq, h.classContext_eq, h.loopDepth_eq, h.flags.opened,
    fun k hk => Nat.lt_of_lt_of_le (h.past k hk) (by simp)⟩

lemma enterFunction (params : List Token) :
    Inside (.function :: a) (t ++ Event.opened :: parameterEvents params)
      (r.enterFunction params) := by
  have hb : ∀ k ∈ a.initializers, k < (t ++ [Event.opened]).length :=
    fun k hk => Nat.lt_of_lt_of_le (h.past k hk) (by simp)
  have hflags := flags_parameters params h.flags.opened hb
  rw [List.append_assoc] at hflags
  rw [enterFunction_eq]
  refine ⟨by simp, h.classContext_eq, by simp [Surroundings.inFunction], hflags, fun k hk => ?_⟩
  exact Nat.lt_of_lt_of_le (h.past k hk) (by simp)

lemma enterLoop : Inside (.loop :: a) t r.enterLoop := by
  refine ⟨?_, h.classContext_eq, ?_, h.flags, h.past⟩
  · simp [Resolution.enterLoop, h.inFunction_eq]
  · simp [Resolution.enterLoop, Surroundings.inFunction, h.loopDepth_eq]

lemma declare (name : Token) :
    Inside (.initializer t.length :: a) (t ++ [Event.declared name.lexeme]) (r.declare name) := by
  rw [declare_eq]
  refine ⟨?_, h.classContext_eq, ?_, h.flags.declare name.lexeme, fun k hk => ?_⟩
  · simp [h.inFunction_eq]
  · simp [Surroundings.inFunction, h.loopDepth_eq]
  · rcases List.mem_cons.mp hk with rfl | hk
    · simp
    · exact Nat.lt_of_lt_of_le (h.past k hk) (by simp)

end

end Inside

/-- In a class, behind its name. -/
lemma Inside.named (h : Inside a t r) (derived : Bool) (name : Token)
    (hi : r'.inFunction = r.inFunction) (hl : r'.loopDepth = r.loopDepth)
    (hc : r'.classContext = if derived then .derived else .plain)
    (hs : r'.scopes = introduceScope r.scopes name.lexeme) :
    Inside (.classDecl derived :: a) (t ++ [Event.declared name.lexeme]) r' := by
  refine ⟨?_, ?_, ?_, ?_, fun k hk => ?_⟩
  · simp [hi, h.inFunction_eq]
  · rw [hc, Surroundings.classContext_classDecl]
  · simp [hl, h.loopDepth_eq, Surroundings.inFunction]
  · rw [hs]
    exact h.flags.introduce name.lexeme h.past
  · exact Nat.lt_of_lt_of_le (h.past k hk) (by simp)

/-- In a scope that has one name. -/
lemma Inside.openNamed (h : Inside a t r) (name : String) :
    Inside a (t ++ [Event.opened, .declared name]) (r.openScope.enter name true) := by
  have hopened := h.openScope
  have hflags := hopened.flags.introduce name hopened.past
  have hscopes : introduceScope r.openScope.scopes name =
      enterScope r.openScope.scopes name true := by
    simp [introduceScope, Resolution.openScope, Record.insert]
  rw [List.append_assoc, hscopes] at hflags
  rw [enter_eq]
  exact ⟨h.inFunction_eq, h.classContext_eq, h.loopDepth_eq, hflags,
    fun k hk => Nat.lt_of_lt_of_le (h.past k hk) (by simp)⟩

lemma openScopes_openNamed (t : Traversal) (name : String) :
    Traversal.openScopes (t ++ [Event.opened, .declared name]) = t.length :: t.openScopes := by
  rw [← Traversal.openScopes_opened, ← List.singleton_append, ← List.append_assoc]
  exact Traversal.openScopes_of_ne (by simp) (by simp)

lemma openScopes_enterFunction (t : Traversal) (params : List Token) :
    Traversal.openScopes (t ++ Event.opened :: parameterEvents params) =
      t.length :: t.openScopes := by
  rw [← Traversal.openScopes_opened, ← List.singleton_append, ← List.append_assoc]
  induction params using List.reverseRecOn with
  | nil => simp [parameterEvents]
  | append_singleton params param ih =>
    rw [parameterEvents, List.map_append, ← List.append_assoc, ← parameterEvents]
    exact (Traversal.openScopes_of_ne (by simp) (by simp)).trans ih

namespace Finds

/-- The same with other states, and inside of more or less that is no initializer. -/
lemma congr {a' : Surroundings} {r₁ r₁' : Resolution} (h : Finds a t events suspicions r r')
    (ha : a'.initializers = a.initializers) (he : r₁.errors = r.errors)
    (he' : r₁'.errors = r'.errors) (hs' : r₁'.scopes = r'.scopes) :
    Finds a' t events suspicions r₁ r₁' := by
  refine ⟨?_, ?_, h.openScopes_eq, h.placed⟩
  · rw [he, he']
    exact h.errors_eq
  · rw [ha, hs']
    exact h.flags

/-- A scope that was opened is closed. -/
lemma close {start : Traversal} (h : Finds a (t ++ start) events suspicions r r')
    (hs : Traversal.openScopes (t ++ start) = t.length :: t.openScopes) :
    Finds a t (start ++ (events ++ [Event.closed])) suspicions r r'.closeScope := by
  have htext : t ++ (start ++ (events ++ [Event.closed])) =
      t ++ start ++ events ++ [Event.closed] := by
    simp
  refine ⟨h.errors_eq, ?_, ?_, h.placed.widen [.closed]⟩
  · rw [htext]
    exact h.flags.closed
  · rw [htext, Traversal.openScopes_closed, h.openScopes_eq, hs, List.tail_cons]

lemma leaveFunction {params : List Token}
    (h : Finds (.function :: a) (t ++ Event.opened :: parameterEvents params) events suspicions
      (r.enterFunction params) r') :
    Finds a t (Event.opened :: (parameterEvents params ++ (events ++ [Event.closed]))) suspicions r
      (r'.leaveFunction r) := by
  have he : r.errors = (r.enterFunction params).errors := by
    rw [enterFunction_eq]
  exact (h.close (openScopes_enterFunction t params)).congr rfl he rfl rfl

end Finds

lemma filterMap_mistake? (s : Suspicion) :
    [s].filterMap Suspicion.mistake? = s.mistake?.toList := by
  cases hm : s.mistake? <;> simp [hm]

lemma Inside.failIf (h : Inside a t r) {mistaken : Bool} {fault : StaticFault} {token : Token}
    {s : Suspicion} (hs : s.before = t)
    (hm : s.mistake? = if mistaken then some ⟨fault, token⟩ else none) :
    Finds a t [] [s] r (r.failIf mistaken fault token) := by
  refine ⟨?_, by simpa using h.flags, by simp, .here (by simpa using hs)⟩
  rw [failIf_errors, filterMap_mistake?, hm]

lemma Inside.mistake?_breaks (h : Inside a t r) (keyword : Token) :
    Suspicion.mistake? ⟨.breaks keyword, a, t⟩ =
      if r.loopDepth = 0 then some ⟨.breakOutsideLoop, keyword⟩ else none := by
  simp only [h.loopDepth_eq, List.count_eq_zero]
  exact (ite_not ..).symm

lemma Inside.mistake?_returns (h : Inside a t r) (keyword : Token) :
    Suspicion.mistake? ⟨.returns keyword, a, t⟩ =
      if !r.inFunction then some ⟨.returnAtTop, keyword⟩ else none := by
  rw [h.inFunction_eq]
  simp [Suspicion.mistake?]

lemma atSuperclass_errors (name : Token) (superclass : Expr) :
    (r.atSuperclass name superclass).errors.toList = r.errors.toList ++
      (superclass.inheritance a t name).filterMap Suspicion.mistake? := by
  unfold atSuperclass Expr.inheritance
  rw [introduce_eq]
  cases superclass with
  | name id superName =>
    rw [failIf_errors, filterMap_mistake?]
    simp [Suspicion.mistake?]
  | _ => simp

end Resolution

open Resolution

/-! ### The walk finds the mistakes -/

mutual

lemma Expr.finds : (e : Expr) → {a : Surroundings} → {t : Traversal} → {r : Resolution} →
    Inside a t r → Finds a t (e.events a.classContext) (e.suspicions a t) r (e.resolve r)
  | .literal _, _, _, _, h => h.idle
  | .grouping inner, _, _, _, h => inner.finds h
  | .unary _ operand, _, _, _, h => operand.finds h
  | .binary left _ right, _, _, r, h =>
    h.andThen (left.walked r).toWalked (left.finds h) right.finds
  | .logical left _ right, _, _, r, h =>
    h.andThen (left.walked r).toWalked (left.finds h) right.finds
  | .ternary condition first second, _, _, r, h =>
    h.andThen (condition.walked r).toWalked (condition.finds h) fun h =>
      h.andThen (first.walked _).toWalked (first.finds h) second.finds
  | .name id name, a, t, r, h => by
    refine h.visit (by simp [Expr.resolve]) (by simp [Expr.suspicions]) ?_
    rw [Expr.resolve, link_errors, failIf_errors, h.isIncomplete_eq, Expr.suspicions,
      filterMap_mistake?]
    simp [Suspicion.mistake?]
  | .assign id name value, a, t, r, h => by
    have hlink : Finds a t (value.events a.classContext ++ [Event.visited id (some name.lexeme)])
        (value.suspicions a t ++ []) r ((value.resolve r).link id name) :=
      h.andThen (value.walked r).toWalked (value.finds h) fun h =>
        h.visit (link_scopes _ id name) (by simp) (by simp)
    rwa [List.append_nil] at hlink
  | .call callee _ arguments, _, _, r, h =>
    h.andThen (callee.walked r).toWalked (callee.finds h) (exprs_finds arguments)
  | .get object _, _, _, _, h => object.finds h
  | .nilGet object _, _, _, _, h => object.finds h
  | .set object _ value, _, _, r, h =>
    h.andThen (object.walked r).toWalked (object.finds h) value.finds
  | .this id keyword, a, t, r, h => by
    have hc := h.classContext_eq
    unfold Expr.resolve Expr.suspicions Expr.events
    cases hr : r.classContext with
    | outside =>
      exact h.visit rfl (by simp) (by simp [Suspicion.mistake?, Resolution.fail, ← hc, hr])
    | _ => exact h.visit (link_scopes _ _ _) (by simp) (by simp [Suspicion.mistake?, ← hc, hr])
  | .super id keyword _, a, t, r, h => by
    have hc := h.classContext_eq
    unfold Expr.resolve Expr.suspicions Expr.events
    cases hr : r.classContext with
    | derived =>
      exact h.visit (link_scopes _ _ _) (by simp) (by simp [Suspicion.mistake?, ← hc, hr])
    | _ => exact h.visit rfl (by simp) (by simp [Suspicion.mistake?, Resolution.fail, ← hc, hr])
  | .lambda declaration, _, _, _, h => declaration.finds h

lemma exprs_finds : (es : List Expr) → {a : Surroundings} → {t : Traversal} → {r : Resolution} →
    Inside a t r →
      Finds a t (exprsEvents a.classContext es) (exprsSuspicions a t es) r (resolveExprs es r)
  | [], _, _, _, h => h.idle
  | e :: es, _, _, r, h => h.andThen (e.walked r).toWalked (e.finds h) (exprs_finds es)

lemma FunctionDecl.finds : (d : FunctionDecl) → {a : Surroundings} → {t : Traversal} →
    {r : Resolution} → Inside a t r →
      Finds a t (d.events a.classContext) (d.suspicions a t) r (d.resolve r)
  | .mk _ params body, _, _, _, h => (stmts_finds body (h.enterFunction params)).leaveFunction

lemma functions_finds : (ds : List FunctionDecl) → {a : Surroundings} → {t : Traversal} →
    {r : Resolution} → Inside a t r →
      Finds a t (functionsEvents a.classContext ds) (functionsSuspicions a t ds) r
        (resolveFunctions ds r)
  | [], _, _, _, h => h.idle
  | d :: ds, _, _, r, h => h.andThen (d.walked r).toWalked (d.finds h) (functions_finds ds)

lemma GetterDecl.finds : (d : GetterDecl) → {a : Surroundings} → {t : Traversal} →
    {r : Resolution} → Inside a t r →
      Finds a t (d.events a.classContext) (d.suspicions a t) r (d.resolve r)
  | .mk _ body, _, _, _, h => (stmts_finds body (h.enterFunction [])).leaveFunction

lemma getters_finds : (ds : List GetterDecl) → {a : Surroundings} → {t : Traversal} →
    {r : Resolution} → Inside a t r →
      Finds a t (gettersEvents a.classContext ds) (gettersSuspicions a t ds) r
        (resolveGetters ds r)
  | [], _, _, _, h => h.idle
  | d :: ds, _, _, r, h => h.andThen (d.walked r).toWalked (d.finds h) (getters_finds ds)

lemma Stmt.finds : (s : Stmt) → {a : Surroundings} → {t : Traversal} → {r : Resolution} →
    Inside a t r → Finds a t (s.events a.classContext) (s.suspicions a t) r (s.resolve r)
  | .expression value, _, _, _, h => value.finds h
  | .print _ value, _, _, _, h => value.finds h
  | .var name none, _, _, _, h => h.introduce name
  | .var name (some value), a, t, r, h => by
    have hv := value.finds (h.declare name)
    have ho := hv.openScopes_eq
    have hf := hv.flags
    rw [List.append_assoc] at ho hf
    have ho := ho.trans (Traversal.openScopes_of_ne (by simp) (by simp))
    rw [Stmt.resolve, define_eq]
    have hp : Placed t ([Event.declared name.lexeme] ++ _) ([] ++ _) :=
      (Placed.here (by simp)).append hv.placed
    refine ⟨?_, hf.define ho h.past, ho, hp⟩
    have he := hv.errors_eq
    rwa [declare_eq] at he ⊢
  | .block body, _, _, _, h =>
    ((stmts_finds body h.openScope).close Traversal.openScopes_opened).congr rfl rfl rfl rfl
  | .function declaration, _, _, r, h =>
    h.andThen (walked_introduce r _) (h.introduce _) declaration.finds
  | .getter declaration, _, _, r, h =>
    h.andThen (walked_introduce r _) (h.introduce _) declaration.finds
  | .classDecl name none methods getters, a, t, r, h => by
    have hnamed : Inside (.classDecl false :: a) (t ++ [Event.declared name.lexeme])
        { r.introduce name with classContext := .plain } :=
      h.named false name (by rw [introduce_eq]) (by rw [introduce_eq]) rfl (by rw [introduce_eq])
    have hfront : Inside _ _ (r.atMembers name none) := hnamed.openNamed "this"
    have hmembers := hfront.andThen (functions_walked methods _).toWalked
      (functions_finds methods hfront) (getters_finds getters)
    have hclosed := hmembers.close (openScopes_openNamed _ "this")
    have he : (r.introduce name).errors = (r.atMembers name none).errors := by
      rw [atMembers_none_eq, introduce_eq]
    have hclass : Finds a (t ++ [Event.declared name.lexeme]) _ _ (r.introduce name)
        ((Stmt.classDecl name none methods getters).resolve r) :=
      hclosed.congr rfl he rfl rfl
    simpa [Stmt.events, Stmt.suspicions] using (h.introduce name).trans hclass
  | .classDecl name (some superclass) methods getters, a, t, r, h => by
    have hat := r.atSuperclass_spec name superclass
    have hin : Finds a t [.declared name.lexeme] (superclass.inheritance a t name) r
        (r.atSuperclass name superclass) :=
      ⟨atSuperclass_errors name superclass, hat.2 ▸ h.flags.introduce name.lexeme h.past,
        Traversal.openScopes_of_ne (by simp) (by simp),
        .here (superclass.before_of_mem_inheritance a t name)⟩
    have hnamed : Inside (.classDecl true :: a) (t ++ [Event.declared name.lexeme])
        (r.atSuperclass name superclass) :=
      h.named true name (by rw [hat.1.inFunction_eq, introduce_eq])
        (by rw [hat.1.loopDepth_eq, introduce_eq]) hat.1.classContext_eq hat.2
    have hsuperclass := superclass.finds hnamed
    have houter := (hnamed.after (superclass.walked _).toWalked hsuperclass).openNamed "super"
    have hfront : Inside _ _ (r.atMembers name (some superclass)) := houter.openNamed "this"
    have hmembers := hfront.andThen (functions_walked methods _).toWalked
      (functions_finds methods hfront) (getters_finds getters)
    have hclosed := (hmembers.close (openScopes_openNamed _ "this")).close
      (openScopes_openNamed _ "super")
    have he : (superclass.resolve (r.atSuperclass name superclass)).errors =
        (r.atMembers name (some superclass)).errors := by
      rw [atMembers_some_eq]
    have hclass : Finds a (t ++ [Event.declared name.lexeme]) _ _ (r.atSuperclass name superclass)
        ((Stmt.classDecl name (some superclass) methods getters).resolve r) :=
      (hsuperclass.trans (hclosed.congr rfl he rfl rfl)).congr rfl rfl rfl rfl
    simpa [Stmt.events, Stmt.suspicions] using hin.trans hclass
  | .ifStmt condition consequent none, _, _, r, h =>
    h.andThen (condition.walked r).toWalked (condition.finds h) consequent.finds
  | .ifStmt condition consequent (some alternative), _, _, r, h =>
    h.andThen (condition.walked r).toWalked (condition.finds h) fun h =>
      h.andThen (consequent.walked _).toWalked (consequent.finds h) alternative.finds
  | .whileStmt condition body, _, _, r, h =>
    h.andThen (condition.walked r).toWalked (condition.finds h) fun h =>
      (body.finds h.enterLoop).congr rfl rfl rfl rfl
  | .breakStmt keyword, _, _, r, h => h.failIf rfl (by simpa using h.mistake?_breaks keyword)
  | .returnStmt keyword none, _, _, _, h => h.failIf rfl (h.mistake?_returns keyword)
  | .returnStmt keyword (some value), a, t, r, h => by
    have hvalue := h.andThen (walked_failIf r _ _ _) (h.failIf rfl (h.mistake?_returns keyword))
      value.finds
    rwa [List.append_nil] at hvalue

theorem stmts_finds : (ss : List Stmt) → {a : Surroundings} → {t : Traversal} →
    {r : Resolution} → Inside a t r →
      Finds a t (stmtsEvents a.classContext ss) (stmtsSuspicions a t ss) r (resolveStmts ss r)
  | [], _, _, _, h => h.idle
  | s :: ss, _, _, r, h => h.andThen (s.walked r).toWalked (s.finds h) (stmts_finds ss)

end

namespace Program

/-- **Mistakes are exact.** Whatever statements are resolved, the mistakes are those among all that
can be a mistake, one for each and in the order of the traversal: a `return` with no function around
it, a `break` with no loop around it in the innermost function, a receiver with no class around it,
a `super` with no class around it or an innermost one without a superclass, a class that inherits
from its own name, and a name whose latest declaration in the innermost scope is that of a variable
with the name in its initializer. The distances are those of the traversal, which knows of no
mistake, and whatever mistakes were noted before, those that follow and the distances are the
same. -/
theorem resolve_mistakes (p : Program) :
    p.resolve.errors.toList = p.suspicions.filterMap Suspicion.mistake? ∧
    ((∀ s ∈ p.suspicions, s.before <+: p.events) ∧
      p.suspicions.Pairwise fun s s' => s.before <+: s'.before) ∧
    p.resolve.found.toList = p.events.links ∧
    ∀ noted : Array StaticError,
      let r := resolveStmts p { Resolution.start with errors := noted }
      r.errors.toList = noted.toList ++ p.resolve.errors.toList ∧ r.found = p.resolve.found := by
  have hinside (noted : Array StaticError) :
      Inside [] [] { Resolution.start with errors := noted } :=
    ⟨rfl, rfl, rfl, fun name => rfl, by simp [Surroundings.initializers]⟩
  have htraced (noted : Array StaticError) : Traced [] { Resolution.start with errors := noted } :=
    ⟨fun name => rfl, rfl⟩
  have hfinds := stmts_finds p (hinside #[])
  have herrors : p.resolve.errors.toList = p.suspicions.filterMap Suspicion.mistake? :=
    hfinds.errors_eq
  have hfound : p.resolve.found.toList = p.events.links := (stmts_traced p (htraced #[])).found_eq
  refine ⟨herrors, ⟨fun s hs => (hfinds.placed.within s hs).2, hfinds.placed.sorted⟩, hfound,
    fun noted => ⟨?_, ?_⟩⟩
  · rw [herrors]
    exact (stmts_finds p (hinside noted)).errors_eq
  · rw [← Array.toList_inj, hfound]
    exact (stmts_traced p (htraced noted)).found_eq

end Program

end Scripting
