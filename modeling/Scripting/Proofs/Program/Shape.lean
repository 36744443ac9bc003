import Mathlib.Data.List.Nodup
import Scripting.Program
import Scripting.Proofs.Token.Spelling

/-!
# The shape of programs

Two facts about a program tree decide what its names mean. The identities of its nodes, listed in
the order in which resolving comes by them, tell the nodes apart. And a well-formed tree names
things by identifiers only, spells `this` and `super` so, takes a superclass by its name, and keeps
declarations out of the branches of `if` and the bodies of `while`, so that a declaration always
stands in a list of statements.
-/

namespace Scripting

/-- A statement that enters a name into the scope it stands in. -/
def Stmt.declared? : Stmt → Option Token
  | .var name _ => some name
  | .function declaration => some declaration.name
  | .getter declaration => some declaration.name
  | .classDecl name _ _ _ => some name
  | _ => none

mutual

/-- The identities in an expression. -/
def Expr.ids : Expr → List NodeId
  | .literal _ => []
  | .grouping inner => inner.ids
  | .unary _ operand => operand.ids
  | .binary left _ right => left.ids ++ right.ids
  | .logical left _ right => left.ids ++ right.ids
  | .ternary condition first second => condition.ids ++ (first.ids ++ second.ids)
  | .name id _ => [id]
  | .assign id _ value => value.ids ++ [id]
  | .call callee _ arguments => callee.ids ++ exprsIds arguments
  | .get object _ => object.ids
  | .nilGet object _ => object.ids
  | .set object _ value => object.ids ++ value.ids
  | .this id _ => [id]
  | .super id _ _ => [id]
  | .lambda declaration => declaration.ids

/-- The identities in expressions. -/
def exprsIds : List Expr → List NodeId
  | [] => []
  | e :: es => e.ids ++ exprsIds es

/-- The identities in a function. -/
def FunctionDecl.ids : FunctionDecl → List NodeId
  | .mk _ _ body => stmtsIds body

/-- The identities in methods. -/
def functionsIds : List FunctionDecl → List NodeId
  | [] => []
  | f :: fs => f.ids ++ functionsIds fs

/-- The identities in a getter. -/
def GetterDecl.ids : GetterDecl → List NodeId
  | .mk _ body => stmtsIds body

/-- The identities in getters. -/
def gettersIds : List GetterDecl → List NodeId
  | [] => []
  | g :: gs => g.ids ++ gettersIds gs

/-- The identities in a statement. -/
def Stmt.ids : Stmt → List NodeId
  | .expression value => value.ids
  | .print _ value => value.ids
  | .var _ none => []
  | .var _ (some value) => value.ids
  | .block body => stmtsIds body
  | .function declaration => declaration.ids
  | .getter declaration => declaration.ids
  | .classDecl _ none methods getters => functionsIds methods ++ gettersIds getters
  | .classDecl _ (some superclass) methods getters =>
    superclass.ids ++ (functionsIds methods ++ gettersIds getters)
  | .ifStmt condition consequent none => condition.ids ++ consequent.ids
  | .ifStmt condition consequent (some alternative) =>
    condition.ids ++ (consequent.ids ++ alternative.ids)
  | .whileStmt condition body => condition.ids ++ body.ids
  | .breakStmt _ => []
  | .returnStmt _ none => []
  | .returnStmt _ (some value) => value.ids

/-- The identities in statements. -/
def stmtsIds : List Stmt → List NodeId
  | [] => []
  | s :: ss => s.ids ++ stmtsIds ss

end

mutual

/-- An expression that names things by identifiers only. -/
def Expr.WellFormed : Expr → Prop
  | .literal _ => True
  | .grouping inner => inner.WellFormed
  | .unary _ operand => operand.WellFormed
  | .binary left _ right => left.WellFormed ∧ right.WellFormed
  | .logical left _ right => left.WellFormed ∧ right.WellFormed
  | .ternary condition first second =>
    condition.WellFormed ∧ first.WellFormed ∧ second.WellFormed
  | .name _ name => name.IsName
  | .assign _ name value => name.IsName ∧ value.WellFormed
  | .call callee _ arguments => callee.WellFormed ∧ ExprsWellFormed arguments
  | .get object _ => object.WellFormed
  | .nilGet object _ => object.WellFormed
  | .set object _ value => object.WellFormed ∧ value.WellFormed
  | .this _ keyword => keyword.lexeme = "this"
  | .super _ keyword _ => keyword.lexeme = "super"
  | .lambda declaration => declaration.WellFormed

/-- Well-formed expressions. -/
def ExprsWellFormed : List Expr → Prop
  | [] => True
  | e :: es => e.WellFormed ∧ ExprsWellFormed es

/-- A function whose parameters are named by identifiers, with a well-formed body. -/
def FunctionDecl.WellFormed : FunctionDecl → Prop
  | .mk _ params body => (∀ param ∈ params, param.IsName) ∧ StmtsWellFormed body

/-- Well-formed methods. -/
def FunctionsWellFormed : List FunctionDecl → Prop
  | [] => True
  | f :: fs => f.WellFormed ∧ FunctionsWellFormed fs

/-- A getter with a well-formed body. -/
def GetterDecl.WellFormed : GetterDecl → Prop
  | .mk _ body => StmtsWellFormed body

/-- Well-formed getters. -/
def GettersWellFormed : List GetterDecl → Prop
  | [] => True
  | g :: gs => g.WellFormed ∧ GettersWellFormed gs

/-- A statement that names things by identifiers only, and has no declaration for a branch or for
the body of a loop. -/
def Stmt.WellFormed : Stmt → Prop
  | .expression value => value.WellFormed
  | .print _ value => value.WellFormed
  | .var name none => name.IsName
  | .var name (some value) => name.IsName ∧ value.WellFormed
  | .block body => StmtsWellFormed body
  | .function declaration => declaration.name.IsName ∧ declaration.WellFormed
  | .getter declaration => declaration.name.IsName ∧ declaration.WellFormed
  | .classDecl name none methods getters =>
    name.IsName ∧ FunctionsWellFormed methods ∧ GettersWellFormed getters
  | .classDecl name (some superclass) methods getters =>
    name.IsName ∧ (∃ id superName, superclass = .name id superName ∧ superName.IsName) ∧
      FunctionsWellFormed methods ∧ GettersWellFormed getters
  | .ifStmt condition consequent none =>
    condition.WellFormed ∧ consequent.declared? = none ∧ consequent.WellFormed
  | .ifStmt condition consequent (some alternative) =>
    condition.WellFormed ∧ (consequent.declared? = none ∧ consequent.WellFormed) ∧
      alternative.declared? = none ∧ alternative.WellFormed
  | .whileStmt condition body =>
    condition.WellFormed ∧ body.declared? = none ∧ body.WellFormed
  | .breakStmt _ => True
  | .returnStmt _ none => True
  | .returnStmt _ (some value) => value.WellFormed

/-- Well-formed statements. -/
def StmtsWellFormed : List Stmt → Prop
  | [] => True
  | s :: ss => s.WellFormed ∧ StmtsWellFormed ss

end

lemma stmtsIds_concat (ss : List Stmt) (s : Stmt) :
    stmtsIds (ss ++ [s]) = stmtsIds ss ++ s.ids := by
  induction ss with
  | nil => simp [stmtsIds]
  | cons first ss ih => simp [stmtsIds, ih]

lemma stmtsWellFormed_concat {ss : List Stmt} {s : Stmt} (hss : StmtsWellFormed ss)
    (hs : s.WellFormed) : StmtsWellFormed (ss ++ [s]) := by
  induction ss with
  | nil => exact ⟨hs, trivial⟩
  | cons first ss ih => exact ⟨hss.1, ih hss.2⟩

/-- A well-formed statement declares identifiers only. -/
lemma Stmt.declared?_isName {s : Stmt} (h : s.WellFormed) {name : Token}
    (hd : s.declared? = some name) : name.IsName := by
  cases s with
  | var declared initializer =>
    obtain rfl : declared = name := by simpa [declared?] using hd
    cases initializer with
    | none => exact h
    | some value => exact h.1
  | function declaration =>
    obtain rfl : declaration.name = name := by simpa [declared?] using hd
    exact h.1
  | getter declaration =>
    obtain rfl : declaration.name = name := by simpa [declared?] using hd
    exact h.1
  | classDecl declared superclass methods getters =>
    obtain rfl : declared = name := by simpa [declared?] using hd
    cases superclass with
    | none => exact h.1
    | some superclass => exact h.1
  | _ => simp [declared?] at hd

/-! ### Statements that end loops and functions -/

/-- A statement contains a `break` that stands in no loop and in no function of that statement. -/
inductive Stmt.Breaks : Stmt → Prop
  | here (keyword : Token) : Breaks (.breakStmt keyword)
  | block {body : List Stmt} {s : Stmt} : s ∈ body → Breaks s → Breaks (.block body)
  | consequent {condition : Expr} {s : Stmt} {alternative : Option Stmt} :
    Breaks s → Breaks (.ifStmt condition s alternative)
  | alternative {condition : Expr} {consequent s : Stmt} :
    Breaks s → Breaks (.ifStmt condition consequent (some s))

/-- A statement contains a `return` that stands in no function of that statement. -/
inductive Stmt.Returns : Stmt → Prop
  | here (keyword : Token) (value : Option Expr) : Returns (.returnStmt keyword value)
  | block {body : List Stmt} {s : Stmt} : s ∈ body → Returns s → Returns (.block body)
  | consequent {condition : Expr} {s : Stmt} {alternative : Option Stmt} :
    Returns s → Returns (.ifStmt condition s alternative)
  | alternative {condition : Expr} {consequent s : Stmt} :
    Returns s → Returns (.ifStmt condition consequent (some s))
  | loop {condition : Expr} {s : Stmt} : Returns s → Returns (.whileStmt condition s)

/-! ### Ranges of identities -/

/-- Different identities, all from `lo` on and below `hi`. -/
structure IdsWithin (lo hi : Nat) (ids : List Nat) : Prop where
  nodup : ids.Nodup
  within : ∀ id ∈ ids, lo ≤ id ∧ id < hi

namespace IdsWithin

variable {lo mid hi : Nat} {xs ys : List Nat}

lemma nil (lo hi : Nat) : IdsWithin lo hi [] :=
  ⟨List.nodup_nil, by simp⟩

lemma singleton (id : Nat) : IdsWithin id (id + 1) [id] :=
  ⟨List.nodup_singleton id, by simp⟩

lemma widen {lo' hi' : Nat} (h : IdsWithin lo hi xs) (hlo : lo' ≤ lo) (hhi : hi ≤ hi') :
    IdsWithin lo' hi' xs := by
  refine ⟨h.nodup, fun id hid => ?_⟩
  have := h.within id hid
  omega

/-- Two ranges, one after the other. -/
lemma append (hx : IdsWithin lo mid xs) (hy : IdsWithin mid hi ys) (hlo : lo ≤ mid)
    (hhi : mid ≤ hi) : IdsWithin lo hi (xs ++ ys) := by
  refine ⟨List.nodup_append.mpr ⟨hx.nodup, hy.nodup, ?_⟩, ?_⟩
  · intro x hxs y hys he
    have := hx.within x hxs
    have := hy.within y hys
    omega
  · intro id hid
    rcases List.mem_append.mp hid with hid | hid
    · have := hx.within id hid
      omega
    · have := hy.within id hid
      omega

/-- Neither the range nor being different depends on the order. -/
lemma perm (h : IdsWithin lo hi xs) (hp : xs.Perm ys) : IdsWithin lo hi ys :=
  ⟨hp.nodup h.nodup, fun id hid => h.within id (hp.mem_iff.mpr hid)⟩

end IdsWithin

end Scripting
