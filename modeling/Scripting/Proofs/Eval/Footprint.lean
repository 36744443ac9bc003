import Scripting.Proofs.Eval.Advance

/-!
# What the actions of the evaluator look at

Nearly everything that the evaluator does by itself looks at the store, the scope and the distances
only, and changes nothing but the store. The rest of the machine, which is what is held and the
world around the program, comes in at few places: where a program prints, where it runs a built-in
function or a host method, and where it constructs an instance of a host class.
-/

namespace Scripting

/-- Two machines that look the same to everything that looks at store, scope and distances only. -/
structure Machine.Alike (m m' : Machine) : Prop where
  store_eq : m'.store = m.store
  scope_eq : m'.scope = m.scope
  distances_eq : m'.distances = m.distances

namespace Machine.Alike

variable {m m' : Machine}

lemma refl (m : Machine) : m.Alike m :=
  ⟨rfl, rfl, rfl⟩

/-- Machines that are alike are so with another store. -/
lemma withStore (h : m.Alike m') (store : Store) :
    Machine.Alike { m with store } { m' with store } :=
  ⟨rfl, h.scope_eq, h.distances_eq⟩

end Machine.Alike

namespace Exec

variable {α β : Type}

/-- A result with the store that it comes with put into a machine. -/
def onto (m : Machine) : EStateM.Result Stop Machine α → EStateM.Result Stop Machine α
  | .ok a after => .ok a { m with store := after.store }
  | .error stop after => .error stop { m with store := after.store }

/-- An action that looks at store, scope and distances only, and changes the store only. -/
def Local (x : Exec α) : Prop :=
  ∀ m m' : Machine, m.Alike m' → x m' = onto m' (x m)

namespace Local

lemma ok {x : Exec α} (hx : x.Local) {m m' after : Machine} {a : α} (h : m.Alike m')
    (ho : x m = .ok a after) : x m' = .ok a { m' with store := after.store } := by
  rw [hx m m' h, ho, onto]

lemma error {x : Exec α} (hx : x.Local) {m m' after : Machine} {stop : Stop} (h : m.Alike m')
    (ho : x m = .error stop after) : x m' = .error stop { m' with store := after.store } := by
  rw [hx m m' h, ho, onto]

/-- Such an action leaves everything but the store as it was. -/
lemma exists_store {x : Exec α} (hx : x.Local) (m : Machine) :
    (∃ a store, x m = .ok a { m with store }) ∨
      ∃ stop store, x m = .error stop { m with store } := by
  cases ho : x m with
  | ok a after => exact .inl ⟨a, after.store, ho.symm.trans (hx.ok (.refl m) ho)⟩
  | error stop after => exact .inr ⟨stop, after.store, ho.symm.trans (hx.error (.refl m) ho)⟩

lemma after_eq {x : Exec α} (hx : x.Local) (m : Machine) :
    x.after m = { m with store := (x.after m).store } := by
  unfold Exec.after
  obtain ⟨a, store, ho⟩ | ⟨stop, store, ho⟩ := hx.exists_store m
  · rw [ho]
  · rw [ho]

lemma pure (a : α) : (pure a : Exec α).Local := by
  intro m m' h
  show EStateM.Result.ok a m' = .ok a { m' with store := m.store }
  rw [← h.store_eq]

lemma throw (stop : Stop) : (throw stop : Exec α).Local := by
  intro m m' h
  show EStateM.Result.error stop m' = .error stop { m' with store := m.store }
  rw [← h.store_eq]

lemma fail (cause : Cause) (line : Nat) : (Exec.fail cause line : Exec α).Local :=
  throw _

lemma ofExcept (line : Nat) (e : Except Cause α) : (Exec.ofExcept line e).Local := by
  cases e with
  | ok a => exact pure a
  | error cause => exact fail cause line

lemma bind {x : Exec α} {next : α → Exec β} (hx : x.Local) (hn : ∀ a, (next a).Local) :
    (x >>= next).Local := by
  intro m m' h
  obtain ⟨a, store, ho⟩ | ⟨stop, store, ho⟩ := hx.exists_store m
  · rw [bind_of_ok ho, bind_of_ok (hx.ok h ho), hn a _ _ (h.withStore store)]
    cases next a { m with store } <;> rfl
  · rw [bind_of_error ho, bind_of_error (hx.error h ho), onto]

/-- An action that depends on the machine, but not on what it is not to look at. -/
lemma bind_get {next : Machine → Exec β} (hsame : ∀ m m', m.Alike m' → next m' = next m)
    (hn : ∀ m, (next m).Local) : (get >>= next).Local := by
  intro m m' h
  rw [bind_of_ok (get_apply m), bind_of_ok (get_apply m'), hsame m m' h]
  exact hn m m m' h

lemma store : Exec.store.Local :=
  bind_get (fun _ _ h => by rw [h.store_eq]) fun _ => pure _

lemma updateStore (update : Store → α × Store) : (Exec.updateStore update).Local := by
  intro m m' h
  show EStateM.Result.ok (update m'.store).1 { m' with store := (update m'.store).2 } = _
  rw [h.store_eq]
  rfl

lemma changeStore (change : Store → Store) : (Exec.changeStore change).Local := by
  intro m m' h
  show EStateM.Result.ok () { m' with store := change m'.store } = _
  rw [h.store_eq]
  rfl

end Local

/-- How printing a line ends is how the sink takes it. -/
lemma print_apply (text : String) (line : Nat) (m : Machine) :
    Exec.print text line m =
      if (m.sink.writeLine text).1 then .ok () { m with sink := (m.sink.writeLine text).2 }
      else .error (.fault ⟨.outputFull, line⟩) { m with sink := (m.sink.writeLine text).2 } := by
  unfold Exec.print
  rw [bind_of_ok (modifyGet_apply _ _)]
  dsimp only
  split_ifs <;> rfl

end Exec

namespace Eval

open Exec

lemma readVariable_local (id : NodeId) (name : Token) : (readVariable id name).Local :=
  .bind_get (fun _ _ h => by rw [h.store_eq, h.scope_eq, h.distances_eq]) fun _ => .ofExcept _ _

lemma writeVariable_local (id : NodeId) (name : Token) (value : Value) :
    (writeVariable id name value).Local :=
  .bind_get (fun _ _ h => by rw [h.store_eq, h.scope_eq, h.distances_eq]) fun _ =>
    .bind (.ofExcept _ _) fun _ => .changeStore _

lemma defineHere_local (name : String) (value : Value) : (defineHere name value).Local :=
  .bind_get (fun _ _ h => by rw [h.scope_eq]) fun _ => .changeStore _

lemma makeFunction_local (declaration : FunctionDecl) : (makeFunction declaration).Local :=
  .bind_get (fun _ _ h => by rw [h.scope_eq]) fun _ => .updateStore _

lemma makeGetter_local (declaration : GetterDecl) : (makeGetter declaration).Local :=
  .bind_get (fun _ _ h => by rw [h.scope_eq]) fun _ => .updateStore _

lemma readProperty_local (object : Value) (name : Token) : (readProperty object name).Local := by
  cases object with
  | instanceRef i => exact .bind (.updateStore _) fun _ => .ofExcept _ _
  | _ => exact .fail _ _

lemma readSuper_local (id : NodeId) (keyword method : Token) :
    (readSuper id keyword method).Local := by
  refine .bind_get (fun _ _ h => by rw [h.store_eq, h.scope_eq, h.distances_eq]) fun m => ?_
  split
  · exact .fail _ _
  · refine .bind (.ofExcept _ _) fun superclass => ?_
    split
    · refine .bind (.ofExcept _ _) fun receiver => ?_
      split
      · exact .fail _ _
      · exact .updateStore _
    · exact .fail _ _

lemma declareClass_local (name : Token) (superclass : Option ClassId)
    (methods : List FunctionDecl) (getters : List GetterDecl) :
    (declareClass name superclass methods getters).Local := by
  refine .bind (defineHere_local _ _) fun _ => ?_
  refine .bind_get (fun _ _ h => by rw [h.scope_eq]) fun m => ?_
  have made : ∀ closure : FrameId, (do
      let c ← Exec.updateStore fun store =>
        let ancestors := (superclass.map store.lineage).getD []
        store.addClass
          ⟨name.lexeme, ancestors, methodRecord closure methods, getterRecord closure getters, none⟩
      let frame ← Exec.ofExcept name.line ((← Exec.store).locate m.scope name.lexeme)
      Exec.changeStore (·.define frame name.lexeme (.classRef c)) : Exec Unit).Local := by
    intro closure
    refine .bind (.updateStore _) fun c => ?_
    exact .bind .store fun _ => .bind (.ofExcept _ _) fun _ => .changeStore _
  cases superclass with
  | none => exact made m.scope
  | some c => exact .bind (.updateStore _) made

lemma resultOf_local (line : Nat) (completion : Completion) :
    (resultOf line completion).Local := by
  cases completion with
  | normal => exact .pure _
  | returned value => exact .pure _
  | broke => exact .fail _ _

/-! ### Plans -/

/-- The actions of a task that look at what is held or at the world around the program. -/
inductive Task.Outward : Task → {γ : Type} → Exec γ → Prop
  | print (keyword : Token) (value : Expr) (text : String) :
    Outward (.stmt (.print keyword value)) (Exec.print text keyword.line)
  | builtin (b : Builtin) (arguments : List Value) :
    Outward (.callable (.builtin b) arguments) (b.run arguments)
  | hostMethod (method : HostMethod) (receiver : InstanceId) (arguments : List Value) :
    Outward (.callable (.hostMethod method receiver) arguments) (method.run receiver arguments)
  | host (host : HostClass) (c : ClassId) (arguments : List Value) :
    Outward (.construct c arguments) (host.construct c arguments)

namespace Plan

/-- All actions of a plan are local ones, up to some that are outward. -/
inductive Confined (outward : {γ : Type} → Exec γ → Prop) {α : Type} : Plan α → Prop
  | done (a : α) : Confined outward (.done a)
  | act {γ : Type} {x : Exec γ} {next : γ → Plan α} :
    x.Local → (∀ g, Confined outward (next g)) → Confined outward (.act x next)
  /-- The machine is looked at for its scope. -/
  | scope (next : FrameId → Plan α) :
    (∀ f, Confined outward (next f)) → Confined outward (.act get fun m => next m.scope)
  | outward {γ : Type} {x : Exec γ} {next : γ → Plan α} :
    outward x → (∀ g, Confined outward (next g)) → Confined outward (.act x next)
  | call {mode : Mode} {t : Task} {next : t.Result → Plan α} :
    (∀ r, Confined outward (next r)) → Confined outward (.call mode t next)

variable {outward : {γ : Type} → Exec γ → Prop} {α : Type}

lemma confined_tail (t : Task) : (tail t).Confined outward :=
  .call .done

lemma confined_only {x : Exec α} (hx : x.Local) : (only x).Confined outward :=
  .act hx .done

/-- Every action of a plan is as said. -/
def Each (good : {γ : Type} → Exec γ → Prop) : Plan α → Prop
  | .done _ => True
  | .act x next => good x ∧ ∀ g, (next g).Each good
  | .call _ _ next => ∀ r, (next r).Each good

lemma Confined.each {outward good : {γ : Type} → Exec γ → Prop} {p : Plan α}
    (hp : p.Confined outward) (hlocal : ∀ {γ : Type} {x : Exec γ}, x.Local → good x)
    (hget : good (get : Exec Machine)) (houtward : ∀ {γ : Type} {x : Exec γ}, outward x → good x) :
    p.Each good := by
  induction hp with
  | done a => exact trivial
  | act hx _ ih => exact ⟨hlocal hx, ih⟩
  | scope next _ ih => exact ⟨hget, fun m => ih m.scope⟩
  | outward hx _ ih => exact ⟨houtward hx, ih⟩
  | call _ ih => exact ih

end Plan

namespace Task

open Plan

variable {outward : {γ : Type} → Exec γ → Prop}

lemma exprPlan_confined (e : Expr) : (exprPlan e).Confined outward := by
  cases e with
  | literal value => exact .done _
  | grouping inner => exact confined_tail _
  | unary operator operand => exact .call fun _ => confined_only (.ofExcept _ _)
  | binary left operator right =>
    exact .call fun _ => .call fun _ => .act .store fun _ => confined_only (.ofExcept _ _)
  | logical left operator right =>
    refine .call fun a => ?_
    split_ifs
    · exact .done _
    · exact confined_tail _
    · exact .call fun _ => .done _
    · exact .done _
  | ternary condition first second =>
    refine .call fun v => ?_
    split
    · exact confined_tail _
    · exact confined_tail _
  | name id name => exact confined_only (readVariable_local _ _)
  | assign id name value => exact .call fun _ => .act (writeVariable_local _ _ _) fun _ => .done _
  | call callee paren arguments => exact .call fun _ => .call fun _ => confined_tail _
  | get object name =>
    refine .call fun object => .act (readProperty_local _ _) fun property => .act .store fun s => ?_
    split
    · exact .call fun _ => .done _
    · exact .done _
  | nilGet object name =>
    refine .call fun v => ?_
    cases v with
    | nil => exact .done _
    | _ => exact confined_only (readProperty_local _ _)
  | set object name value =>
    refine .call fun v => ?_
    cases v with
    | instanceRef i => exact .call fun _ => .act (.changeStore _) fun _ => .done _
    | _ => exact confined_only (.fail _ _)
  | this id keyword => exact confined_only (readVariable_local _ _)
  | super id keyword method => exact confined_only (readSuper_local _ _ _)
  | lambda declaration => exact confined_only (makeFunction_local _)

lemma callPlan_confined (callee : Value) (line : Nat) (arguments : List Value) :
    (callPlan callee line arguments).Confined outward := by
  refine .act .store fun store => ?_
  cases callee with
  | callable id =>
    dsimp only
    split
    · exact confined_only (.fail _ _)
    · split
      · exact confined_tail _
      · exact confined_only (.fail _ _)
  | classRef c =>
    dsimp only
    split
    · exact confined_tail _
    · exact confined_only (.fail _ _)
  | _ => exact confined_only (.fail _ _)

lemma callablePlan_confined (k : Callable) (arguments : List Value) :
    (callablePlan k arguments).Confined (Outward (.callable k arguments)) := by
  cases k with
  | function f => exact confined_tail _
  | getter g => exact confined_tail _
  | builtin b => exact .outward (.builtin b arguments) fun _ => .done _
  | hostMethod method receiver =>
    exact .outward (.hostMethod method receiver arguments) fun _ => .done _

lemma functionPlan_confined (f : Function) (arguments : List Value) :
    (functionPlan f arguments).Confined outward := by
  refine .act (.updateStore _) fun frame => .call fun completion => ?_
  refine .act (resultOf_local _ _) fun result => ?_
  split
  · exact .act .store fun _ => confined_only (.ofExcept _ _)
  · exact .done _

lemma constructPlan_confined (c : ClassId) (arguments : List Value) :
    (constructPlan c arguments).Confined (Outward (.construct c arguments)) := by
  refine .act .store fun store => ?_
  split
  · next host _ => exact .outward (.host host c arguments) fun _ => .done _
  · refine .act (.updateStore _) fun i => ?_
    split
    · exact .done _
    · exact .act (.updateStore _) fun _ => .call fun _ => .done _

lemma stmtPlan_confined (s : Stmt) : (stmtPlan s).Confined (Outward (.stmt s)) := by
  cases s with
  | expression value => exact .call fun _ => .done _
  | print keyword value =>
    exact .call fun _ => .act .store fun _ => .outward (.print keyword value _) fun _ => .done _
  | var name initializer =>
    cases initializer with
    | none =>
      exact .scope (fun f => .act (Exec.changeStore (·.declare f name.lexeme)) fun _ =>
        .done Completion.normal) fun _ => .act (.changeStore _) fun _ => .done _
    | some value => exact .call fun _ => .act (defineHere_local _ _) fun _ => .done _
  | block body =>
    exact .scope (fun f => .act (Exec.updateStore (·.openFrame .block f [])) fun frame =>
      .call (.within frame) (.stmts body) .done) fun _ => .act (.updateStore _) fun _ => .call .done
  | function declaration =>
    exact .act (makeFunction_local _) fun _ => .act (defineHere_local _ _) fun _ => .done _
  | getter declaration =>
    exact .act (makeGetter_local _) fun _ => .act (defineHere_local _ _) fun _ => .done _
  | classDecl name superclass methods getters =>
    cases superclass with
    | none => exact .act (declareClass_local _ _ _ _) fun _ => .done _
    | some superclass =>
      refine .call fun v => ?_
      cases v with
      | classRef c => exact .act (declareClass_local _ _ _ _) fun _ => .done _
      | _ => exact confined_only (.fail _ _)
  | ifStmt condition consequent alternative =>
    refine .call fun v => ?_
    split
    · exact confined_tail _
    · cases alternative with
      | none => exact .done _
      | some other => exact confined_tail _
  | whileStmt condition body => exact confined_tail _
  | breakStmt keyword => exact .done _
  | returnStmt keyword value =>
    cases value with
    | none => exact .done _
    | some value => exact .call fun _ => .done _

/-- What a task does by itself is local, but for its outward actions. -/
theorem plan_confined (t : Task) : t.plan.Confined t.Outward := by
  cases t with
  | expr e => exact exprPlan_confined e
  | exprs es =>
    cases es with
    | nil => exact .done _
    | cons e es => exact .call fun _ => .call fun _ => .done _
  | call callee line arguments => exact callPlan_confined callee line arguments
  | callable k arguments => exact callablePlan_confined k arguments
  | function f arguments => exact functionPlan_confined f arguments
  | getter g =>
    exact .act (.updateStore _) fun _ => .call fun _ => confined_only (resultOf_local _ _)
  | construct c arguments => exact constructPlan_confined c arguments
  | stmt s => exact stmtPlan_confined s
  | loop condition body =>
    refine .call fun v => ?_
    split
    · refine .call fun completion => ?_
      cases completion with
      | normal => exact confined_tail _
      | _ => exact .done _
    · exact .done _
  | stmts ss =>
    cases ss with
    | nil => exact .done _
    | cons s rest =>
      refine .call fun completion => ?_
      cases completion with
      | normal => exact confined_tail _
      | _ => exact .done _

end Task

end Eval

end Scripting
