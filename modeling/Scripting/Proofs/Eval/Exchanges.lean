import Scripting.Proofs.Eval.Reading

/-!
# Exchanges with the world

Sockets and servers come into a run at two places only: where a host method runs, and where an
instance of a host class is constructed. Everything else leaves the network alone, and also what
instances stand for. So these exchanges, in their order, take over from one another: each finds the
network and the sockets as the one before has left them.
-/

namespace Scripting

namespace Store

/-- What an instance stands for outside of the program. -/
def handle? (s : Store) (i : InstanceId) : Option Handle :=
  (s.instances[i]?).bind Instance.handle

/-- The instances stand for the same, and those that are new for nothing. -/
structure Rests (s s' : Store) : Prop where
  handle?_eq : ∀ i, s'.handle? i = s.handle? i
  size_le : s.instances.size ≤ s'.instances.size

namespace Rests

variable {s s' s'' : Store}

lemma of_instances_eq (h : s'.instances = s.instances) : s.Rests s' :=
  ⟨fun i => by rw [handle?, h, handle?], h ▸ Nat.le_refl _⟩

lemma refl (s : Store) : s.Rests s :=
  of_instances_eq rfl

lemma trans (h : s.Rests s') (h' : s'.Rests s'') : s.Rests s'' :=
  ⟨fun i => (h'.handle?_eq i).trans (h.handle?_eq i), Nat.le_trans h.size_le h'.size_le⟩

end Rests

lemma rests_addInstance (s : Store) (c : ClassId) :
    s.Rests (s.addInstance ⟨c, [], none⟩).2 where
  handle?_eq := by
    intro i
    simp only [handle?, addInstance, Array.getElem?_push]
    split_ifs with hi
    · rw [hi, Array.getElem?_eq_none (Nat.le_refl _)]
      rfl
    · rfl
  size_le := by simp [addInstance]

lemma rests_setField (s : Store) (j : InstanceId) (name : String) (value : Value) :
    s.Rests (s.setField j name value) where
  handle?_eq := by
    intro i
    simp only [handle?, setField, Array.getElem?_modify]
    split_ifs
    · cases s.instances[i]? <;> rfl
    · rfl
  size_le := by simp [setField]

lemma instances_property (s : Store) (i : InstanceId) (name : String) :
    (s.property i name).2.instances = s.instances := by
  unfold property
  split
  · rfl
  · split
    · rfl
    · split
      · rfl
      · split
        · rfl
        · split <;> rfl

end Store

/-- The network is the same, and so is what the instances stand for. -/
structure Machine.Rests (m m' : Machine) : Prop where
  network_eq : m'.network = m.network
  store : m.store.Rests m'.store

namespace Machine.Rests

variable {m m' m'' : Machine}

lemma refl (m : Machine) : m.Rests m :=
  ⟨rfl, .refl m.store⟩

lemma trans (h : m.Rests m') (h' : m'.Rests m'') : m.Rests m'' :=
  ⟨h'.network_eq.trans h.network_eq, h.store.trans h'.store⟩

lemma enter (m : Machine) (mode : Eval.Mode) : m.Rests (mode.enter m) := by
  cases mode <;> exact ⟨rfl, .refl _⟩

lemma leave (m after : Machine) (mode : Eval.Mode) : after.Rests (mode.leave m after) := by
  cases mode <;> exact ⟨rfl, .refl _⟩

end Machine.Rests

namespace Exec

variable {α β : Type}

/-- An action that leaves the network alone, and what the instances stand for. -/
def Rests (x : Exec α) : Prop :=
  ∀ m : Machine, m.Rests (x.after m)

namespace Rests

lemma pure (a : α) : (pure a : Exec α).Rests :=
  fun m => .refl m

lemma fail (cause : Cause) (line : Nat) : (Exec.fail cause line : Exec α).Rests :=
  fun m => .refl m

lemma ofExcept (line : Nat) (e : Except Cause α) : (Exec.ofExcept line e).Rests := by
  cases e with
  | ok a => exact pure a
  | error cause => exact fail cause line

lemma bind {x : Exec α} {next : α → Exec β} (hx : x.Rests) (hn : ∀ a, (next a).Rests) :
    (x >>= next).Rests := by
  intro m
  have hm := hx m
  unfold Exec.after at hm
  cases ho : x m with
  | ok a after =>
    rw [ho] at hm
    rw [Exec.after, bind_of_ok ho]
    exact hm.trans (hn a after)
  | error stop after =>
    rw [ho] at hm
    rwa [Exec.after, bind_of_error ho]

lemma get : (get : Exec Machine).Rests :=
  fun m => .refl m

lemma store : Exec.store.Rests :=
  fun m => .refl m

lemma changeStore {change : Store → Store} (h : ∀ s : Store, s.Rests (change s)) :
    (Exec.changeStore change).Rests :=
  fun m => ⟨rfl, h m.store⟩

lemma updateStore {update : Store → α × Store} (h : ∀ s : Store, s.Rests (update s).2) :
    (Exec.updateStore update).Rests :=
  fun m => ⟨rfl, h m.store⟩

lemma print (text : String) (line : Nat) : (Exec.print text line).Rests := by
  intro m
  rw [Exec.after, print_apply]
  split_ifs <;> exact ⟨rfl, .refl _⟩

end Rests

end Exec

lemma Builtin.run_rests (b : Builtin) (arguments : List Value) : (b.run arguments).Rests := by
  have hlog : ∀ (level : LogLevel) (message : String),
      (Exec.log level .native message).Rests := fun _ _ _ => ⟨rfl, .refl _⟩
  cases b with
  | clock => exact .bind (fun m => ⟨rfl, .refl _⟩) fun _ => .pure _
  | input =>
    refine .bind (fun m => ⟨rfl, .refl _⟩) fun read => ?_
    cases read with
    | text line => exact .pure _
    | _ => exact .bind (hlog _ _) fun _ => .pure _
  | reverse => exact .bind .store fun _ => .pure _

namespace Eval

open Exec

lemma defineHere_rests (name : String) (value : Value) : (defineHere name value).Rests :=
  .bind .get fun _ => .changeStore fun _ => .of_instances_eq rfl

lemma makeFunction_rests (declaration : FunctionDecl) : (makeFunction declaration).Rests :=
  .bind .get fun _ => .updateStore fun _ => .of_instances_eq rfl

lemma makeGetter_rests (declaration : GetterDecl) : (makeGetter declaration).Rests :=
  .bind .get fun _ => .updateStore fun _ => .of_instances_eq rfl

lemma readVariable_rests (id : NodeId) (name : Token) : (readVariable id name).Rests :=
  .bind .get fun _ => .ofExcept _ _

lemma writeVariable_rests (id : NodeId) (name : Token) (value : Value) :
    (writeVariable id name value).Rests :=
  .bind .get fun _ => .bind (.ofExcept _ _) fun _ => .changeStore fun _ => .of_instances_eq rfl

lemma readProperty_rests (object : Value) (name : Token) : (readProperty object name).Rests := by
  cases object with
  | instanceRef i =>
    exact .bind (.updateStore fun s => .of_instances_eq (s.instances_property i name.lexeme))
      fun _ => .ofExcept _ _
  | _ => exact .fail _ _

lemma readSuper_rests (id : NodeId) (keyword method : Token) :
    (readSuper id keyword method).Rests := by
  refine .bind .get fun m => ?_
  split
  · exact .fail _ _
  · refine .bind (.ofExcept _ _) fun superclass => ?_
    split
    · refine .bind (.ofExcept _ _) fun receiver => ?_
      split
      · exact .fail _ _
      · exact .updateStore fun _ => .of_instances_eq rfl
    · exact .fail _ _

lemma declareClass_rests (name : Token) (superclass : Option ClassId)
    (methods : List FunctionDecl) (getters : List GetterDecl) :
    (declareClass name superclass methods getters).Rests := by
  refine .bind (defineHere_rests _ _) fun _ => .bind .get fun m => ?_
  have made : ∀ closure : FrameId, (do
      let c ← Exec.updateStore fun store =>
        let ancestors := (superclass.map store.lineage).getD []
        store.addClass
          ⟨name.lexeme, ancestors, methodRecord closure methods, getterRecord closure getters, none⟩
      let frame ← Exec.ofExcept name.line ((← Exec.store).locate m.scope name.lexeme)
      Exec.changeStore (·.define frame name.lexeme (.classRef c)) : Exec Unit).Rests := fun _ =>
    .bind (.updateStore fun _ => .of_instances_eq rfl) fun _ =>
      .bind .store fun _ => .bind (.ofExcept _ _) fun _ =>
        .changeStore fun _ => .of_instances_eq rfl
  cases superclass with
  | none => exact made m.scope
  | some c => exact .bind (.updateStore fun _ => .of_instances_eq rfl) made

lemma resultOf_rests (line : Nat) (completion : Completion) :
    (resultOf line completion).Rests := by
  cases completion with
  | broke => exact .fail _ _
  | _ => exact .pure _

/-! ### Plans -/

lemma Plan.each_only {α : Type} {x : Exec α} (hx : x.Rests) : (Plan.only x).Each Rests :=
  ⟨hx, fun _ => trivial⟩

namespace Task

lemma exprPlan_rests (e : Expr) : (exprPlan e).Each Rests := by
  cases e with
  | literal value => exact trivial
  | grouping inner => exact fun _ => trivial
  | unary operator operand => exact fun _ => Plan.each_only (.ofExcept _ _)
  | binary left operator right =>
    exact fun _ _ => ⟨.store, fun _ => Plan.each_only (.ofExcept _ _)⟩
  | logical left operator right =>
    intro a
    dsimp only
    split_ifs
    · exact trivial
    · exact fun _ => trivial
    · exact fun _ => trivial
    · exact trivial
  | ternary condition first second =>
    intro v
    dsimp only
    split
    · exact fun _ => trivial
    · exact fun _ => trivial
  | name id name => exact Plan.each_only (readVariable_rests _ _)
  | assign id name value => exact fun _ => ⟨writeVariable_rests _ _ _, fun _ => trivial⟩
  | call callee paren arguments => exact fun _ _ _ => trivial
  | get object name =>
    refine fun object => ⟨readProperty_rests _ _, fun property => ⟨.store, fun store => ?_⟩⟩
    dsimp only
    split
    · exact fun _ => trivial
    · exact trivial
  | nilGet object name =>
    intro v
    cases v with
    | nil => exact trivial
    | _ => exact Plan.each_only (readProperty_rests _ _)
  | set object name value =>
    intro v
    cases v with
    | instanceRef i =>
      exact fun _ => ⟨.changeStore fun s => s.rests_setField _ _ _, fun _ => trivial⟩
    | _ => exact Plan.each_only (.fail _ _)
  | this id keyword => exact Plan.each_only (readVariable_rests _ _)
  | super id keyword method => exact Plan.each_only (readSuper_rests _ _ _)
  | lambda declaration => exact Plan.each_only (makeFunction_rests _)

lemma stmtPlan_rests (s : Stmt) : (stmtPlan s).Each Rests := by
  cases s with
  | expression value => exact fun _ => trivial
  | print keyword value => exact fun _ => ⟨.store, fun _ => ⟨.print _ _, fun _ => trivial⟩⟩
  | var name initializer =>
    cases initializer with
    | none =>
      exact ⟨.get, fun _ => ⟨.changeStore fun _ => .of_instances_eq rfl, fun _ => trivial⟩⟩
    | some value => exact fun _ => ⟨defineHere_rests _ _, fun _ => trivial⟩
  | block body =>
    exact ⟨.get, fun _ => ⟨.updateStore fun _ => .of_instances_eq rfl, fun _ _ => trivial⟩⟩
  | function declaration =>
    exact ⟨makeFunction_rests _, fun _ => ⟨defineHere_rests _ _, fun _ => trivial⟩⟩
  | getter declaration =>
    exact ⟨makeGetter_rests _, fun _ => ⟨defineHere_rests _ _, fun _ => trivial⟩⟩
  | classDecl name superclass methods getters =>
    cases superclass with
    | none => exact ⟨declareClass_rests _ _ _ _, fun _ => trivial⟩
    | some superclass =>
      intro v
      cases v with
      | classRef c => exact ⟨declareClass_rests _ _ _ _, fun _ => trivial⟩
      | _ => exact Plan.each_only (.fail _ _)
  | ifStmt condition consequent alternative =>
    intro v
    dsimp only
    split
    · exact fun _ => trivial
    · cases alternative with
      | none => exact trivial
      | some other => exact fun _ => trivial
  | whileStmt condition body => exact fun _ => trivial
  | breakStmt keyword => exact trivial
  | returnStmt keyword value =>
    cases value with
    | none => exact trivial
    | some value => exact fun _ => trivial

lemma callPlan_rests (callee : Value) (line : Nat) (arguments : List Value) :
    (callPlan callee line arguments).Each Rests := by
  refine ⟨.store, fun store => ?_⟩
  cases callee with
  | callable id =>
    dsimp only
    split
    · exact Plan.each_only (.fail _ _)
    · split
      · exact fun _ => trivial
      · exact Plan.each_only (.fail _ _)
  | classRef c =>
    dsimp only
    split
    · exact fun _ => trivial
    · exact Plan.each_only (.fail _ _)
  | _ => exact Plan.each_only (.fail _ _)

lemma functionPlan_rests (f : Function) (arguments : List Value) :
    (functionPlan f arguments).Each Rests := by
  refine ⟨.updateStore fun _ => .of_instances_eq rfl, fun frame completion => ?_⟩
  refine ⟨resultOf_rests _ _, fun result => ?_⟩
  dsimp only
  split
  · exact ⟨.store, fun _ => Plan.each_only (.ofExcept _ _)⟩
  · exact trivial

/-- A task that is neither a host method nor the construction of an instance leaves the network
alone, up to the tasks that it calls. -/
lemma plan_rests {t : Task} (hcallable : ∀ method receiver arguments,
      t ≠ .callable (.hostMethod method receiver) arguments)
    (hconstruct : ∀ k arguments, t ≠ .construct k arguments) : t.plan.Each Rests := by
  cases t with
  | expr e => exact exprPlan_rests e
  | exprs es =>
    cases es with
    | nil => exact trivial
    | cons e es => exact fun _ _ => trivial
  | call callee line arguments => exact callPlan_rests callee line arguments
  | callable k arguments =>
    cases k with
    | function f => exact fun _ => trivial
    | getter g => exact fun _ => trivial
    | builtin b => exact Plan.each_only (b.run_rests _)
    | hostMethod method receiver => exact absurd rfl (hcallable method receiver arguments)
  | function f arguments => exact functionPlan_rests f arguments
  | getter g =>
    exact ⟨.updateStore fun _ => .of_instances_eq rfl,
      fun _ _ => Plan.each_only (resultOf_rests _ _)⟩
  | construct k arguments => exact absurd rfl (hconstruct k arguments)
  | stmt s => exact stmtPlan_rests s
  | loop condition body =>
    intro v
    dsimp only
    split
    · intro completion
      cases completion with
      | normal => exact fun _ => trivial
      | _ => exact trivial
    · exact trivial
  | stmts ss =>
    cases ss with
    | nil => exact trivial
    | cons s rest =>
      intro completion
      cases completion with
      | normal => exact fun _ => trivial
      | _ => exact trivial

/-- Constructing an instance of a class of the program, with the initializer that it has, if any. -/
def instancePlan (initializer? : Option Function) (k : ClassId) (arguments : List Value) :
    Plan Value :=
  .act (Exec.updateStore (·.addInstance ⟨k, [], none⟩)) fun i =>
    match initializer? with
    | none => .done (.instanceRef i)
    | some initializer =>
      .act (Exec.updateStore (·.bindFunction initializer (.instanceRef i))) fun bound =>
        .call .plain (.function bound arguments) fun _ => .done (.instanceRef i)

lemma instancePlan_rests (initializer? : Option Function) (k : ClassId) (arguments : List Value) :
    (instancePlan initializer? k arguments).Each Rests := by
  refine ⟨.updateStore fun s => s.rests_addInstance k, fun i => ?_⟩
  cases initializer? with
  | none => exact trivial
  | some initializer => exact ⟨.updateStore fun _ => .of_instances_eq rfl, fun _ _ => trivial⟩

/-- So does the construction of an instance of a class of the program. -/
lemma exists_of_constructPlan {steps : Nat} {k : ClassId} {m : Machine} (arguments : List Value)
    (hhost : (m.store.classes[k]?).bind Class.host = none) :
    ∃ p : Plan Value, p.Each Rests ∧
      (constructPlan k arguments).asked (perform steps) m = p.asked (perform steps) m ∧
      (constructPlan k arguments).perform (perform steps) m = p.perform (perform steps) m := by
  have hstore : Exec.store m = .ok m.store m := rfl
  refine ⟨instancePlan (m.store.findMethod? k Store.initializerName) k arguments,
    instancePlan_rests _ k arguments, ?_, ?_⟩
  · rw [constructPlan, Plan.asked]
    simp only [hstore, hhost]
    rfl
  · rw [constructPlan, Plan.perform_act, bind_of_ok hstore]
    simp only [hhost]
    rfl

end Task

lemma programPlan_rests (p : Program) : (programPlan p).Each Rests := by
  induction p with
  | nil => exact trivial
  | cons s rest ih =>
    intro completion
    cases completion with
    | broke => exact ⟨.fail _ _, fun _ => trivial⟩
    | normal => exact ih
    | returned value => exact ih

/-! ### Exchanges -/

namespace Call

/-- A call does something with the world around the program that is more than to print, to read
input or to look at the clock. -/
def isExchange (c : Call) : Bool :=
  match c.task with
  | .callable (.hostMethod _ _) _ => c.steps ≠ 0
  | .construct k _ => c.steps ≠ 0 && ((c.machine.store.classes[k]?).bind Class.host).isSome
  | _ => false

end Call

namespace Event

/-- The exchange that is over then. -/
def exchange? : Event → Option Call
  | .starts _ => none
  | .ends c => if c.isExchange then some c else none

end Event

/-- The exchanges while a task is done. -/
def Call.exchanges (steps : Nat) (t : Task) (m : Machine) : List Call :=
  (events steps t m).filterMap Event.exchange?

/-- The exchanges of a run, in their order. -/
def Run.exchanges (run : Run) : List Call :=
  run.events.filterMap Event.exchange?

lemma Run.mem_exchanges {run : Run} {c : Call} :
    c ∈ run.exchanges ↔ (∃ trail, run.Visits trail c) ∧ c.isExchange := by
  rw [← run.ends_mem_events, exchanges, List.mem_filterMap]
  constructor
  · rintro ⟨e, he, hexchange⟩
    cases e with
    | starts c => cases hexchange
    | ends c' =>
      obtain ⟨hc, rfl⟩ : c'.isExchange ∧ c' = c := by
        simpa [Event.exchange?] using hexchange
      exact ⟨he, hc⟩
  · rintro ⟨he, hc⟩
    exact ⟨_, he, if_pos hc⟩

/-- Exchanges lead from a machine to another one: in between, the network is left alone, and so is
what the instances stand for. -/
inductive ExchangePath : Machine → List Call → Machine → Prop
  | nil {m m' : Machine} : m.Rests m' → ExchangePath m [] m'
  | cons {m m' : Machine} {c : Call} {later : List Call} :
    m.Rests c.machine → ExchangePath c.after later m' → ExchangePath m (c :: later) m'

namespace ExchangePath

variable {m m' m'' : Machine} {calls later : List Call}

lemma of_rests (hm : m.Rests m') (h : ExchangePath m' calls m'') : ExchangePath m calls m'' := by
  cases h with
  | nil h => exact .nil (hm.trans h)
  | cons h hlater => exact .cons (hm.trans h) hlater

lemma append (h : ExchangePath m calls m') (h' : ExchangePath m' later m'') :
    ExchangePath m (calls ++ later) m'' := by
  induction h with
  | nil h => exact h'.of_rests h
  | cons h _ ih => exact .cons h (ih h')

lemma isWay : IsWay ExchangePath where
  append := append
  enter m mode := .nil (.enter m mode)
  leave m after mode := .nil (.leave m after mode)

end ExchangePath

/-- The way through a plan that exchanges nothing by itself. -/
lemma Plan.Each.exchangePath {α : Type} {steps : Nat} {p : Plan α} (hp : p.Each Rests)
    (hcalls : ∀ t m, ExchangePath m (Call.exchanges steps t m) ((t.perform steps).after m))
    (m : Machine) :
    ExchangePath m
      ((p.asked (Task.perform steps) m).flatMap fun next => Call.exchanges steps next.1 next.2)
      ((p.perform (Task.perform steps)).after m) :=
  ExchangePath.isWay.through hcalls (hp.moves (fun hx m => .nil (hx m)) m)

/-- A call that is an exchange makes no other call. -/
lemma Call.exchanges_of_isExchange {steps : Nat} {t : Task} {m : Machine}
    (h : Call.isExchange ⟨steps + 1, t, m⟩) :
    Call.exchanges (steps + 1) t m = [⟨steps + 1, t, m⟩] := by
  have hasked : t.plan.asked (Task.perform steps) m = [] := by
    unfold isExchange at h
    split at h
    · next ht =>
      obtain rfl : t = _ := ht
      exact Plan.asked_only _ m
    · next k arguments ht =>
      obtain rfl : t = _ := ht
      obtain ⟨host, hhost⟩ := Option.isSome_iff_exists.mp (Bool.and_eq_true _ _ ▸ h).2
      exact asked_constructPlan_host hhost
    · cases h
  simp [exchanges, events, hasked, List.filterMap_cons, Event.exchange?, h]

lemma Call.exchanges_of_not_isExchange {steps : Nat} {t : Task} {m : Machine}
    (h : ¬ Call.isExchange ⟨steps + 1, t, m⟩) :
    Call.exchanges (steps + 1) t m = (t.plan.asked (Task.perform steps) m).flatMap
      fun next => Call.exchanges steps next.1 next.2 := by
  simp [exchanges, events, List.filterMap_cons, List.filterMap_flatMap, Event.exchange?, h]

/-- The way through a call. -/
lemma Call.exchangePath (steps : Nat) (t : Task) (m : Machine) :
    ExchangePath m (Call.exchanges steps t m) ((t.perform steps).after m) := by
  induction steps generalizing t m with
  | zero =>
    have hnot : Call.isExchange ⟨0, t, m⟩ = false := by
      unfold isExchange
      dsimp only
      split <;> rfl
    have hexchanges : Call.exchanges 0 t m = [] := by
      simp [exchanges, events, List.filterMap_cons, Event.exchange?, hnot]
    rw [hexchanges, Task.perform_zero]
    exact .nil (.refl m)
  | succ steps ih =>
    by_cases h : Call.isExchange ⟨steps + 1, t, m⟩
    · rw [exchanges_of_isExchange h]
      exact .cons (c := ⟨steps + 1, t, m⟩) (.refl m) (.nil (.refl _))
    · rw [exchanges_of_not_isExchange h, Task.perform_succ]
      by_cases hconstruct : ∃ k arguments, t = .construct k arguments
      · obtain ⟨k, arguments, rfl⟩ := hconstruct
        have hhost : (m.store.classes[k]?).bind Class.host = none := by
          simpa [isExchange] using h
        obtain ⟨p, hp, hasked, hperform⟩ := Task.exists_of_constructPlan arguments hhost
        have hpath := hp.exchangePath ih m
        unfold Exec.after at hpath ⊢
        rwa [← hasked, ← hperform] at hpath
      · refine (Task.plan_rests ?_ ?_).exchangePath ih m
        · rintro method receiver arguments rfl
          exact h rfl
        · rintro k arguments rfl
          exact hconstruct ⟨k, arguments, rfl⟩

/-- The way through a run. -/
lemma Run.exchangePath (run : Run) : ExchangePath run.machine run.exchanges run.after := by
  have hexchanges : run.exchanges = ((programPlan run.program).asked (Task.perform run.steps)
      run.machine).flatMap fun next => Call.exchanges run.steps next.1 next.2 := by
    simp [exchanges, events, Call.exchanges, List.filterMap_flatMap]
  rw [hexchanges, Run.after, runProgram_eq]
  exact (programPlan_rests run.program).exchangePath (Call.exchangePath run.steps) run.machine

end Eval

end Scripting
