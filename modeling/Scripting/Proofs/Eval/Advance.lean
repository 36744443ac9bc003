import Scripting.Proofs.Eval.Plan
import Scripting.Proofs.Store.Fields

/-!
# What every action keeps

An action leaves the machine with the scope that it found and with nothing held besides what was
held before, with the same table of distances and with a store that only grew, whether it gives a
result, ends in a fault or runs out of steps. Each primitive action does so by itself; a call with
another scope comes back to the old one; so every task does so, by induction on the number of steps.
-/

namespace Scripting

/-- A machine that came from another one. -/
structure Machine.Advances (m m' : Machine) : Prop where
  scope_eq : m'.scope = m.scope
  held_eq : m'.held = m.held
  distances_eq : m'.distances = m.distances
  grows : m.store.Grows m'.store

namespace Machine.Advances

lemma refl (m : Machine) : m.Advances m :=
  ⟨rfl, rfl, rfl, .refl m.store⟩

lemma trans {a b c : Machine} (h : a.Advances b) (h' : b.Advances c) : a.Advances c :=
  ⟨h'.scope_eq.trans h.scope_eq, h'.held_eq.trans h.held_eq,
    h'.distances_eq.trans h.distances_eq, h.grows.trans h'.grows⟩

end Machine.Advances

namespace Exec

variable {α β : Type}

/-- The machine on which an action ends, however it ends. -/
def after (x : Exec α) (m : Machine) : Machine :=
  match x m with
  | .ok _ m' => m'
  | .error _ m' => m'

lemma bind_of_ok {x : Exec α} {next : α → Exec β} {m m' : Machine} {a : α}
    (h : x m = .ok a m') : (x >>= next) m = next a m' := by
  simp only [Bind.bind, EStateM.bind, h]

lemma bind_of_error {x : Exec α} {next : α → Exec β} {m m' : Machine} {stop : Stop}
    (h : x m = .error stop m') : (x >>= next) m = .error stop m' := by
  simp only [Bind.bind, EStateM.bind, h]

lemma get_apply (m : Machine) : (get : Exec Machine) m = .ok m m :=
  rfl

lemma modifyGet_apply (change : Machine → α × Machine) (m : Machine) :
    (modifyGet change : Exec α) m = .ok (change m).1 (change m).2 :=
  rfl

/-- An action that keeps the scope, what is held and the distances and makes the store grow. -/
def Advances (x : Exec α) : Prop :=
  ∀ m : Machine, m.Advances (x.after m)

namespace Advances

lemma of_ok {x : Exec α} (hx : x.Advances) {m m' : Machine} {a : α} (h : x m = .ok a m') :
    m.Advances m' := by
  have := hx m
  rwa [after, h] at this

lemma pure (a : α) : (pure a : Exec α).Advances :=
  fun m => .refl m

lemma throw (stop : Stop) : (throw stop : Exec α).Advances :=
  fun m => .refl m

lemma fail (cause : Cause) (line : Nat) : (Exec.fail cause line : Exec α).Advances :=
  throw _

lemma ofExcept (line : Nat) (e : Except Cause α) : (Exec.ofExcept line e).Advances := by
  cases e with
  | ok a => exact pure a
  | error cause => exact fail cause line

lemma bind {x : Exec α} {f : α → Exec β} (hx : x.Advances) (hf : ∀ a, (f a).Advances) :
    (x >>= f).Advances := by
  intro m
  have hm := hx m
  unfold after at hm
  cases h : x m with
  | ok a m' =>
    rw [h] at hm
    rw [after, bind_of_ok h]
    exact hm.trans (hf a m')
  | error stop m' =>
    rw [h] at hm
    rw [after, bind_of_error h]
    exact hm

lemma get : (get : Exec Machine).Advances :=
  fun m => .refl m

lemma store : Exec.store.Advances :=
  fun m => .refl m

lemma modifyGet {change : Machine → α × Machine} (h : ∀ m : Machine, m.Advances (change m).2) :
    (modifyGet change : Exec α).Advances :=
  h

lemma changeStore {change : Store → Store} (h : ∀ s : Store, s.Grows (change s)) :
    (Exec.changeStore change).Advances :=
  fun m => ⟨rfl, rfl, rfl, h m.store⟩

lemma updateStore {update : Store → α × Store} (h : ∀ s : Store, s.Grows (update s).2) :
    (Exec.updateStore update).Advances :=
  fun m => ⟨rfl, rfl, rfl, h m.store⟩

lemma print (text : String) (line : Nat) : (Exec.print text line).Advances := by
  refine bind (modifyGet fun m => ⟨rfl, rfl, rfl, .refl m.store⟩) fun taken => ?_
  split
  · exact pure ()
  · exact fail _ _

end Advances

end Exec

/-! ### Built-in functions and host classes -/

/-- A relation that leads along everything that host classes do, and along everything that built-in
functions do but reading input. -/
structure Machine.Spans (P : Machine → Machine → Prop) : Prop where
  refl : ∀ m : Machine, P m m
  trans : ∀ {a b c : Machine}, P a b → P b c → P a c
  log : ∀ (m : Machine) (level : LogLevel) (target : LogTarget) (message : String),
    P m (m.log level target message)
  withNetwork : ∀ (m : Machine) (network : Network), P m { m with network }
  withTime : ∀ (m : Machine) (time : Nat), P m { m with time }
  addInstance : ∀ (m : Machine) (classId : ClassId) (handle : Handle),
    P m { m with store := (m.store.addInstance ⟨classId, [], some handle⟩).2 }
  setHandle : ∀ (m : Machine) (i : InstanceId) (handle : Option Handle),
    P m { m with store := m.store.setHandle i handle }

namespace Machine.Spans

variable {P : Machine → Machine → Prop} (hP : Spans P)

include hP

lemma release (m : Machine) (i : InstanceId) (handle : Handle) : P m (m.release i handle) :=
  hP.trans (hP.setHandle m i none) (hP.withNetwork _ _)

lemma releaseAbandoned (m : Machine) (values : List Value) : P m (m.releaseAbandoned values) := by
  dsimp only [Machine.releaseAbandoned]
  generalize m.store.abandonedHandles (values.flatMap Value.references ++ m.roots) = abandoned
  -- one release after the other, from the machine that the earlier ones left
  induction abandoned generalizing m with
  | nil => exact hP.refl m
  | cons head rest ih => exact hP.trans (hP.release m head.1 head.2) (ih _)

end Machine.Spans

/-- An action that always gives a result, on a machine that a relation leads to. -/
def Exec.Yields {α : Type} (P : Machine → Machine → Prop) (x : Exec α) : Prop :=
  ∀ m : Machine, ∃ a m', x m = .ok a m' ∧ P m m'

namespace Exec.Yields

variable {α β : Type} {P : Machine → Machine → Prop}

lemma modify {change : Machine → Machine} (h : ∀ m : Machine, P m (change m)) :
    (modify change : Exec Unit).Yields P :=
  fun m => ⟨(), change m, rfl, h m⟩

lemma modifyGet {change : Machine → α × Machine} (h : ∀ m : Machine, P m (change m).2) :
    (modifyGet change : Exec α).Yields P :=
  fun m => ⟨(change m).1, (change m).2, rfl, h m⟩

section

variable (hP : Machine.Spans P)

include hP

lemma pure (a : α) : (pure a : Exec α).Yields P :=
  fun m => ⟨a, m, rfl, hP.refl m⟩

lemma bind {x : Exec α} {f : α → Exec β} (hx : x.Yields P) (hf : ∀ a, (f a).Yields P) :
    (x >>= f).Yields P := by
  intro m
  obtain ⟨a, m', h, hq⟩ := hx m
  obtain ⟨b, m'', h', hq'⟩ := hf a m'
  exact ⟨b, m'', (bind_of_ok h).trans h', hP.trans hq hq'⟩

/-- Something that is only done under a condition. -/
lemma when {condition : Prop} [Decidable condition] {x : Exec α} {rest : Exec β} (hx : x.Yields P)
    (hr : rest.Yields P) : (if condition then x >>= fun _ => rest else rest).Yields P := by
  split
  · exact bind hP hx fun _ => hr
  · exact hr

lemma get : (get : Exec Machine).Yields P :=
  fun m => ⟨m, m, rfl, hP.refl m⟩

lemma store : Exec.store.Yields P :=
  fun m => ⟨m.store, m, rfl, hP.refl m⟩

lemma log (level : LogLevel) (target : LogTarget) (message : String) :
    (Exec.log level target message).Yields P :=
  modify fun m => hP.log m level target message

end

end Exec.Yields

section

open Exec.Yields

variable {P : Machine → Machine → Prop} (hP : Machine.Spans P)

include hP

lemma Builtin.refuse_yields (message : String) : (Builtin.refuse message).Yields P :=
  bind hP (log hP _ _ _) fun _ => pure hP _

lemma Builtin.run_yields (b : Builtin) (arguments : List Value)
    (hinput : b = .input → ∀ (m : Machine) (input : List UInt8), P m { m with input }) :
    (b.run arguments).Yields P := by
  cases b with
  | clock => exact bind hP (modifyGet fun m => hP.withTime m _) fun _ => pure hP _
  | input =>
    refine bind hP (modifyGet fun m => hinput rfl m _) fun read => ?_
    cases read with
    | text line => exact pure hP _
    | ended => exact bind hP (log hP _ _ _) fun _ => pure hP _
    | undecodable => exact refuse_yields hP _
  | reverse => exact bind hP (store hP) fun _ => pure hP _

namespace HostClass

lemma instantiate_yields (classId : ClassId) (handle : Handle) :
    (instantiate classId handle).Yields P :=
  bind hP (modifyGet fun m => hP.addInstance m classId handle) fun _ => pure hP _

lemma connect_yields (classId : ClassId) (address : String) (port : Nat) :
    (connect classId address port).Yields P := by
  refine bind hP (modify fun m => hP.releaseAbandoned m []) fun _ => ?_
  refine bind hP (get hP) fun m => ?_
  cases m.network.connect address port with
  | error failure => exact Builtin.refuse_yields hP _
  | ok connected =>
    obtain ⟨endpoint, network⟩ := connected
    exact bind hP (modify fun m => hP.withNetwork m network) fun _ =>
      bind hP (log hP _ _ _) fun _ => instantiate_yields hP _ _

lemma listen_yields (classId : ClassId) (port : Nat) : (listen classId port).Yields P := by
  refine bind hP (get hP) fun m => when hP (modify fun m => hP.releaseAbandoned m []) ?_
  refine bind hP (get hP) fun m => ?_
  cases m.network.listen port with
  | none => exact Builtin.refuse_yields hP _
  | some listening =>
    exact bind hP (modify fun m => hP.withNetwork m _) fun _ =>
      bind hP (log hP _ _ _) fun _ => instantiate_yields hP _ _

lemma construct_yields (host : HostClass) (classId : ClassId) (arguments : List Value) :
    (host.construct classId arguments).Yields P := by
  have refused : ∀ message : String, (do
      let shown := (← Exec.store).inspectList arguments
      Builtin.refuse (message ++ shown) : Exec Value).Yields P :=
    fun message => bind hP (store hP) fun _ => Builtin.refuse_yields hP _
  cases host with
  | socket =>
    unfold construct
    dsimp only
    split
    · split
      · exact connect_yields hP _ _ _
      · exact refused _
    · exact refused _
  | serverSocket =>
    unfold construct
    dsimp only
    split
    · exact listen_yields hP _ _
    · exact refused _

end HostClass

namespace HostMethod

lemma handle?_yields (receiver : InstanceId) : (handle? receiver).Yields P :=
  bind hP (store hP) fun _ => pure hP _

lemma run_yields (method : HostMethod) (receiver : InstanceId) (arguments : List Value) :
    (method.run receiver arguments).Yields P := by
  cases method with
  | send =>
    refine bind hP (modify fun m => hP.releaseAbandoned m _) fun _ => ?_
    refine bind hP (store hP) fun store => ?_
    refine bind hP (handle?_yields hP receiver) fun handle => ?_
    split
    · refine bind hP (modifyGet fun m => hP.withNetwork m _) fun taken => ?_
      split
      · exact pure hP _
      · exact Builtin.refuse_yields hP _
    · exact Builtin.refuse_yields hP _
  | receive =>
    refine bind hP (handle?_yields hP receiver) fun handle => ?_
    split
    · refine bind hP (modifyGet fun m => hP.withNetwork m _) fun read => ?_
      cases read with
      | text line => exact pure hP _
      | ended => exact Builtin.refuse_yields hP _
      | undecodable => exact Builtin.refuse_yields hP _
    · exact Builtin.refuse_yields hP _
  | close =>
    refine bind hP (handle?_yields hP receiver) fun handle => ?_
    refine bind hP (modify fun m => hP.setHandle m receiver none) fun _ => ?_
    split
    · refine bind hP (modifyGet fun m => hP.withNetwork m _) fun connected => ?_
      split
      · exact pure hP _
      · exact Builtin.refuse_yields hP _
    · exact pure hP _
  | accept =>
    refine bind hP (handle?_yields hP receiver) fun handle => ?_
    split
    · refine bind hP (get hP) fun m => ?_
      split
      · exact bind hP (modify fun m => hP.withNetwork m _) fun _ =>
          HostClass.instantiate_yields hP _ _
      · exact Builtin.refuse_yields hP _
    · exact Builtin.refuse_yields hP _

end HostMethod

end

/-- A machine that came from another one by what changes no variable and no field and creates no
code: frames, callables and classes are the same. -/
structure Machine.Quiet (m m' : Machine) : Prop extends m.Advances m' where
  frames_eq : m'.store.frames = m.store.frames
  callables_eq : m'.store.callables = m.store.callables
  classes_eq : m'.store.classes = m.store.classes
  field?_eq : ∀ i name, m'.store.field? i name = m.store.field? i name

namespace Machine.Quiet

/-- Logging, reading input and the like do not touch the store. -/
lemma of_store_eq {m m' : Machine} (hs : m'.scope = m.scope) (hh : m'.held = m.held)
    (hd : m'.distances = m.distances) (h : m'.store = m.store) : m.Quiet m' :=
  ⟨⟨hs, hh, hd, h ▸ .refl m.store⟩, by rw [h], by rw [h], by rw [h], fun _ _ => by rw [h]⟩

lemma spans : Machine.Spans Machine.Quiet where
  refl := fun _ => .of_store_eq rfl rfl rfl rfl
  trans := fun h h' => ⟨h.toAdvances.trans h'.toAdvances, h'.frames_eq.trans h.frames_eq,
    h'.callables_eq.trans h.callables_eq, h'.classes_eq.trans h.classes_eq,
    fun i name => (h'.field?_eq i name).trans (h.field?_eq i name)⟩
  log := fun _ _ _ _ => .of_store_eq rfl rfl rfl rfl
  withNetwork := fun _ _ => .of_store_eq rfl rfl rfl rfl
  withTime := fun _ _ => .of_store_eq rfl rfl rfl rfl
  addInstance := fun m classId handle => ⟨⟨rfl, rfl, rfl, m.store.grows_addInstance _⟩, rfl, rfl,
    rfl, m.store.field?_addInstance classId (some handle)⟩
  setHandle := fun m i handle => ⟨⟨rfl, rfl, rfl, m.store.grows_setHandle i handle⟩, rfl, rfl, rfl,
    m.store.field?_setHandle i handle⟩

end Machine.Quiet

lemma Machine.quiet_releaseAbandoned (m : Machine) (values : List Value) :
    m.Quiet (m.releaseAbandoned values) :=
  Quiet.spans.releaseAbandoned m values

/-- An action that always gives a result and leaves variables and code alone. -/
def Exec.Quiet {α : Type} (x : Exec α) : Prop :=
  x.Yields Machine.Quiet

lemma Exec.Quiet.advances {α : Type} {x : Exec α} (hx : x.Quiet) : x.Advances := by
  intro m
  obtain ⟨a, m', h, hq⟩ := hx m
  rw [after, h]
  exact hq.toAdvances

lemma Builtin.run_quiet (b : Builtin) (arguments : List Value) : (b.run arguments).Quiet :=
  run_yields Machine.Quiet.spans b arguments fun _ _ _ => .of_store_eq rfl rfl rfl rfl

lemma HostClass.construct_quiet (host : HostClass) (classId : ClassId) (arguments : List Value) :
    (host.construct classId arguments).Quiet :=
  construct_yields Machine.Quiet.spans host classId arguments

lemma HostMethod.run_quiet (method : HostMethod) (receiver : InstanceId)
    (arguments : List Value) : (method.run receiver arguments).Quiet :=
  run_yields Machine.Quiet.spans method receiver arguments

/-! ### Actions of the evaluator -/

namespace Eval

lemma readVariable_advances (id : NodeId) (name : Token) : (readVariable id name).Advances :=
  .bind .get fun _ => .ofExcept _ _

lemma writeVariable_advances (id : NodeId) (name : Token) (value : Value) :
    (writeVariable id name value).Advances :=
  .bind .get fun _ => .bind (.ofExcept _ _) fun _ => .changeStore fun s => s.grows_define _ _ _

lemma defineHere_advances (name : String) (value : Value) : (defineHere name value).Advances :=
  .bind .get fun _ => .changeStore fun s => s.grows_define _ _ _

lemma makeFunction_advances (declaration : FunctionDecl) : (makeFunction declaration).Advances :=
  .bind .get fun _ => .updateStore fun s => s.grows_addCallable _

lemma makeGetter_advances (declaration : GetterDecl) : (makeGetter declaration).Advances :=
  .bind .get fun _ => .updateStore fun s => s.grows_addCallable _

lemma readProperty_advances (object : Value) (name : Token) :
    (readProperty object name).Advances := by
  cases object with
  | instanceRef i =>
    exact .bind (.updateStore fun s => s.grows_property _ _) fun _ => .ofExcept _ _
  | _ => exact .fail _ _

lemma readSuper_advances (id : NodeId) (keyword method : Token) :
    (readSuper id keyword method).Advances := by
  refine .bind .get fun m => ?_
  split
  · exact .fail _ _
  · refine .bind (.ofExcept _ _) fun superclass => ?_
    split
    · refine .bind (.ofExcept _ _) fun receiver => ?_
      split
      · exact .fail _ _
      · exact .updateStore fun s => (s.grows_bindFunction _ _).trans (Store.grows_addCallable _ _)
    · exact .fail _ _

lemma declareClass_advances (name : Token) (superclass : Option ClassId)
    (methods : List FunctionDecl) (getters : List GetterDecl) :
    (declareClass name superclass methods getters).Advances := by
  refine .bind (defineHere_advances _ _) fun _ => ?_
  refine .bind .get fun m => ?_
  have made : ∀ closure : FrameId, (do
      let c ← Exec.updateStore fun store =>
        let ancestors := (superclass.map store.lineage).getD []
        store.addClass
          ⟨name.lexeme, ancestors, methodRecord closure methods, getterRecord closure getters, none⟩
      let frame ← Exec.ofExcept name.line ((← Exec.store).locate m.scope name.lexeme)
      Exec.changeStore (·.define frame name.lexeme (.classRef c)) : Exec Unit).Advances := by
    intro closure
    refine .bind (.updateStore fun s => s.grows_addClass _) fun c => ?_
    refine .bind .store fun _ => ?_
    exact .bind (.ofExcept _ _) fun _ => .changeStore fun s => s.grows_define _ _ _
  cases superclass with
  | none => exact made m.scope
  | some c => exact .bind (.updateStore fun s => s.grows_openFrame _ _ _) made

lemma resultOf_advances (line : Nat) (completion : Completion) :
    (resultOf line completion).Advances := by
  cases completion with
  | normal => exact .pure _
  | returned value => exact .pure _
  | broke => exact .fail _ _

/-- A call comes back to the scope it was made from. -/
lemma Mode.wrap_advances {α : Type} (mode : Mode) {x : Exec α} (hx : x.Advances) :
    (mode.wrap x).Advances := by
  intro m
  have hm := hx (mode.enter m)
  have ha : (mode.wrap x).after m = mode.leave m (x.after (mode.enter m)) := by
    unfold Exec.after
    rw [wrap_apply]
    cases x (mode.enter m) <;> rfl
  rw [ha]
  refine ⟨?_, ?_, ?_, ?_⟩
  · cases mode with
    | plain => exact hm.scope_eq
    | within frame => rfl
    | holding value => rfl
  · cases mode with
    | plain => exact hm.held_eq
    | within frame => rfl
    | holding value => rfl
  · rw [leave_distances, hm.distances_eq, enter_distances]
  · rw [leave_store, ← mode.enter_store m]
    exact hm.grows

namespace Plan

/-- Every action of a plan advances. -/
def Advances {α : Type} : Plan α → Prop
  | .done _ => True
  | .act x next => x.Advances ∧ ∀ g, (next g).Advances
  | .call _ _ next => ∀ r, (next r).Advances

variable {α : Type}

lemma perform_advances {self : (t : Task) → Exec t.Result} (hself : ∀ t, (self t).Advances)
    {p : Plan α} (hp : p.Advances) : (p.perform self).Advances := by
  induction p with
  | done a => exact .pure a
  | act x next ih => exact .bind hp.1 fun g => ih g (hp.2 g)
  | call mode t next ih => exact .bind (mode.wrap_advances (hself t)) fun r => ih r (hp r)

lemma only_advances {x : Exec α} (hx : x.Advances) : (only x).Advances :=
  ⟨hx, fun _ => trivial⟩

end Plan

namespace Task

lemma exprPlan_advances (e : Expr) : (exprPlan e).Advances := by
  cases e with
  | literal value => exact trivial
  | grouping inner => exact fun _ => trivial
  | unary operator operand => exact fun _ => Plan.only_advances (.ofExcept _ _)
  | binary left operator right =>
    exact fun _ _ => ⟨.store, fun _ => Plan.only_advances (.ofExcept _ _)⟩
  | logical left operator right =>
    intro a
    dsimp only
    split_ifs
    · exact trivial
    · exact fun _ => trivial
    · exact fun _ => trivial
    · exact trivial
  | ternary condition first second =>
    intro v
    dsimp only
    split
    · exact fun _ => trivial
    · exact fun _ => trivial
  | name id name => exact Plan.only_advances (readVariable_advances _ _)
  | assign id name value => exact fun _ => ⟨writeVariable_advances _ _ _, fun _ => trivial⟩
  | call callee paren arguments => exact fun _ _ _ => trivial
  | get object name =>
    refine fun object => ⟨readProperty_advances _ _, fun property => ⟨.store, fun store => ?_⟩⟩
    dsimp only
    split
    · exact fun _ => trivial
    · exact trivial
  | nilGet object name =>
    intro v
    cases v with
    | nil => exact trivial
    | _ => exact Plan.only_advances (readProperty_advances _ _)
  | set object name value =>
    intro v
    cases v with
    | instanceRef i =>
      exact fun _ => ⟨.changeStore fun s => s.grows_setField _ _ _, fun _ => trivial⟩
    | _ => exact Plan.only_advances (.fail _ _)
  | this id keyword => exact Plan.only_advances (readVariable_advances _ _)
  | super id keyword method => exact Plan.only_advances (readSuper_advances _ _ _)
  | lambda declaration => exact Plan.only_advances (makeFunction_advances _)

lemma stmtPlan_advances (s : Stmt) : (stmtPlan s).Advances := by
  cases s with
  | expression value => exact fun _ => trivial
  | print keyword value => exact fun _ => ⟨.store, fun _ => ⟨.print _ _, fun _ => trivial⟩⟩
  | var name initializer =>
    cases initializer with
    | none => exact ⟨.get, fun _ => ⟨.changeStore fun s => s.grows_declare _ _, fun _ => trivial⟩⟩
    | some value => exact fun _ => ⟨defineHere_advances _ _, fun _ => trivial⟩
  | block body =>
    exact ⟨.get, fun _ => ⟨.updateStore fun s => s.grows_openFrame _ _ _, fun _ _ => trivial⟩⟩
  | function declaration =>
    exact ⟨makeFunction_advances _, fun _ => ⟨defineHere_advances _ _, fun _ => trivial⟩⟩
  | getter declaration =>
    exact ⟨makeGetter_advances _, fun _ => ⟨defineHere_advances _ _, fun _ => trivial⟩⟩
  | classDecl name superclass methods getters =>
    cases superclass with
    | none => exact ⟨declareClass_advances _ _ _ _, fun _ => trivial⟩
    | some superclass =>
      intro v
      cases v with
      | classRef c => exact ⟨declareClass_advances _ _ _ _, fun _ => trivial⟩
      | _ => exact Plan.only_advances (.fail _ _)
  | ifStmt condition consequent alternative =>
    intro v
    dsimp only
    split
    · exact fun _ => trivial
    · cases alternative with
      | none => exact trivial
      | some other => exact fun _ => trivial
  | whileStmt condition body => exact fun _ => trivial
  | breakStmt keyword => exact trivial
  | returnStmt keyword value =>
    cases value with
    | none => exact trivial
    | some value => exact fun _ => trivial

lemma callPlan_advances (callee : Value) (line : Nat) (arguments : List Value) :
    (callPlan callee line arguments).Advances := by
  refine ⟨.store, fun store => ?_⟩
  cases callee with
  | callable id =>
    dsimp only
    split
    · exact Plan.only_advances (.fail _ _)
    · split
      · exact fun _ => trivial
      · exact Plan.only_advances (.fail _ _)
  | classRef c =>
    dsimp only
    split
    · exact fun _ => trivial
    · exact Plan.only_advances (.fail _ _)
  | _ => exact Plan.only_advances (.fail _ _)

lemma functionPlan_advances (f : Function) (arguments : List Value) :
    (functionPlan f arguments).Advances := by
  refine ⟨.updateStore fun s => s.grows_openFrame _ _ _, fun frame completion => ?_⟩
  refine ⟨resultOf_advances _ _, fun result => ?_⟩
  dsimp only
  split
  · exact ⟨.store, fun _ => Plan.only_advances (.ofExcept _ _)⟩
  · exact trivial

lemma constructPlan_advances (c : ClassId) (arguments : List Value) :
    (constructPlan c arguments).Advances := by
  refine ⟨.store, fun store => ?_⟩
  dsimp only
  split
  · exact Plan.only_advances (HostClass.construct_quiet _ _ _).advances
  · refine ⟨.updateStore fun s => s.grows_addInstance _, fun i => ?_⟩
    dsimp only
    split
    · exact trivial
    · exact ⟨.updateStore fun s => s.grows_bindFunction _ _, fun _ _ => trivial⟩

lemma plan_advances (t : Task) : t.plan.Advances := by
  cases t with
  | expr e => exact exprPlan_advances e
  | exprs es =>
    cases es with
    | nil => exact trivial
    | cons e es => exact fun _ _ => trivial
  | call callee line arguments => exact callPlan_advances callee line arguments
  | callable k arguments =>
    cases k with
    | function f => exact fun _ => trivial
    | getter g => exact fun _ => trivial
    | builtin b => exact Plan.only_advances (b.run_quiet _).advances
    | hostMethod method receiver => exact Plan.only_advances (method.run_quiet _ _).advances
  | function f arguments => exact functionPlan_advances f arguments
  | getter g =>
    exact ⟨.updateStore fun s => s.grows_openFrame _ _ _,
      fun _ _ => Plan.only_advances (resultOf_advances _ _)⟩
  | construct c arguments => exact constructPlan_advances c arguments
  | stmt s => exact stmtPlan_advances s
  | loop condition body =>
    intro v
    dsimp only
    split
    · intro completion
      cases completion with
      | normal => exact fun _ => trivial
      | _ => exact trivial
    · exact trivial
  | stmts ss =>
    cases ss with
    | nil => exact trivial
    | cons s rest =>
      intro completion
      cases completion with
      | normal => exact fun _ => trivial
      | _ => exact trivial

/-- Whatever the evaluator is asked to do, and however that ends, the scope and what is held are the
old ones, the distances are the same and the store only grew. -/
theorem perform_advances (steps : Nat) (t : Task) : (t.perform steps).Advances := by
  induction steps generalizing t with
  | zero =>
    rw [perform_zero]
    exact .throw _
  | succ steps ih =>
    rw [perform_succ]
    exact Plan.perform_advances ih t.plan_advances

/-- With the result of a call, a plan goes on where it was, on a store that only grew. -/
lemma advances_leave {steps : Nat} {t : Task} {mode : Mode} {m after : Machine} {r : t.Result}
    (h : t.perform steps (mode.enter m) = .ok r after) : m.Advances (mode.leave m after) := by
  refine (mode.wrap_advances (t.perform_advances steps)).of_ok (a := r) ?_
  rw [Mode.wrap_apply, h]

end Task

lemma runProgram_advances (steps : Nat) (p : Program) : (runProgram steps p).Advances := by
  induction p with
  | nil => exact .pure ()
  | cons s rest ih =>
    refine .bind (Task.perform_advances steps (.stmt s)) fun completion => ?_
    cases completion with
    | broke => exact .fail _ _
    | normal => exact ih
    | returned value => exact ih

end Eval

end Scripting
