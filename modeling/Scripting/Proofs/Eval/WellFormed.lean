import Scripting.Proofs.Eval.Steps
import Scripting.Proofs.Store.WellFormed

/-!
# Running on well-formed stores

On a machine with a well-formed store, where all that is in use is there, every call finds what it
is given, and leaves such a machine together with a result that is there. When something stops half
way through, what it has done so far leaves the store well-formed, too.
-/

namespace Scripting

/-- The store is well-formed, and what is in use is there. -/
structure Machine.WellFormed (m : Machine) : Prop where
  store : m.store.WellFormed
  roots : m.store.HasAll m.roots
  sockets : m.store.Has (.classRef socketClass)

namespace Machine.WellFormed

variable {m m' : Machine}

lemma has_scope (h : m.WellFormed) : m.store.Has (.frame m.scope) :=
  h.roots _ (List.mem_cons_of_mem _ List.mem_cons_self)

/-- What is in use stays the same, so that only the store is to be looked at. -/
lemma advance (h : m.WellFormed) (ha : m.Advances m') (hs : m'.store.WellFormed) :
    m'.WellFormed := by
  refine ⟨hs, ?_, ha.grows.has h.sockets⟩
  rw [Machine.roots, ha.scope_eq, ha.held_eq]
  exact h.roots.mono ha.grows

end Machine.WellFormed

/-! ### Actions -/

namespace Exec

variable {α β : Type} {references : α → List Reference} {results : β → List Reference} {m : Machine}

/-- However an action ends, the store is well-formed then, and a result is there. -/
def Safe (references : α → List Reference) (x : Exec α) (m : Machine) : Prop :=
  match x m with
  | .ok a after => after.store.WellFormed ∧ after.store.HasAll (references a)
  | .error _ after => after.store.WellFormed

namespace Safe

lemma pure {a : α} (hm : m.store.WellFormed) (ha : m.store.HasAll (references a)) :
    Safe references (pure a) m :=
  ⟨hm, ha⟩

/-- A value that refers to nothing. -/
lemma value {v : Value} (hm : m.store.WellFormed) (hv : v.references = []) :
    Safe Value.references (Pure.pure v) m :=
  ⟨hm, hv ▸ .nil⟩

lemma fail (hm : m.store.WellFormed) (cause : Cause) (line : Nat) :
    Safe references (Exec.fail cause line) m :=
  hm

lemma ofExcept (hm : m.store.WellFormed) (line : Nat) {e : Except Cause α}
    (he : ∀ a, e = .ok a → m.store.HasAll (references a)) :
    Safe references (Exec.ofExcept line e) m := by
  cases e with
  | ok a => exact ⟨hm, he a rfl⟩
  | error cause => exact hm

/-- Behind an action that gives a result. -/
lemma of_ok {x : Exec α} {next : α → Exec β} {after : Machine} {a : α} (hx : x m = .ok a after)
    (h : Safe results (next a) after) : Safe results (x >>= next) m := by
  rw [Safe, bind_of_ok hx]
  exact h

/-- Behind an action that leaves the store alone. -/
lemma aside {change : Machine → α × Machine} {next : α → Exec β} (hm : m.store.WellFormed)
    (hs : (change m).2.store = m.store)
    (hn : ∀ a after, after.store.WellFormed → Safe results (next a) after) :
    Safe results (modifyGet change >>= next) m :=
  of_ok rfl (hn _ _ (hs ▸ hm))

/-- Behind something that is only done under a condition. -/
lemma when {condition : Prop} [Decidable condition] {change : Machine → Machine} {rest : Exec β}
    (hm : m.store.WellFormed) (hc : (change m).store.WellFormed)
    (hg : m.store.Grows (change m).store)
    (hr : ∀ after, after.store.WellFormed → m.store.Grows after.store → Safe results rest after) :
    Safe results (if condition then modify change >>= fun _ => rest else rest) m := by
  split
  · exact of_ok rfl (hr _ hc hg)
  · exact hr m hm (.refl _)

/-- Behind a result, or else not at all. -/
lemma afterExcept {line : Nat} {e : Except Cause α} {next : α → Exec β} (hm : m.store.WellFormed)
    (hn : ∀ a, e = .ok a → Safe results (next a) m) :
    Safe results (Exec.ofExcept line e >>= next) m := by
  cases e with
  | ok a => exact of_ok rfl (hn a rfl)
  | error cause => exact fail hm cause line

end Safe

end Exec

namespace Machine

lemma wellFormed_release (m : Machine) (i : InstanceId) (handle : Handle)
    (hm : m.store.WellFormed) : (m.release i handle).store.WellFormed :=
  hm.setHandle i none

lemma wellFormed_releaseAbandoned (m : Machine) (values : List Value)
    (hm : m.store.WellFormed) : (m.releaseAbandoned values).store.WellFormed := by
  dsimp only [releaseAbandoned]
  generalize m.store.abandonedHandles (values.flatMap Value.references ++ m.roots) = abandoned
  -- one release after the other, from the machine that the earlier ones left
  induction abandoned generalizing m with
  | nil => exact hm
  | cons head rest ih => exact ih _ (m.wellFormed_release head.1 head.2 hm)

end Machine

/-! ### Built-in functions and host classes -/

section

open Exec

variable {m : Machine} (hm : m.store.WellFormed)

include hm

lemma Builtin.refuse_safe {message : String} : Safe Value.references (refuse message) m :=
  .of_ok rfl (.value hm rfl)

lemma Builtin.run_safe (b : Builtin) (arguments : List Value) :
    Safe Value.references (b.run arguments) m := by
  cases b with
  | clock => exact .of_ok rfl (.value hm rfl)
  | input =>
    refine .aside hm rfl fun read after hm => ?_
    cases read with
    | text line => exact .value hm rfl
    | ended => exact .of_ok rfl (.value hm rfl)
    | undecodable => exact refuse_safe hm
  | reverse => exact .of_ok rfl (.value hm rfl)

namespace HostClass

lemma instantiate_safe {classId : ClassId} (hc : m.store.Has (.classRef classId))
    {handle : Handle} : Safe Value.references (instantiate classId handle) m := by
  refine .of_ok rfl (.pure (hm.addInstance ?_) ?_)
  · exact Store.hasAll_instance.mpr ⟨hc, nofun⟩
  · simp [Value.references, Store.Has]

lemma connect_safe {classId : ClassId} (hc : m.store.Has (.classRef classId)) (address : String)
    (port : Nat) : Safe Value.references (connect classId address port) m := by
  have hreleased := m.wellFormed_releaseAbandoned [] hm
  have hc := (m.quiet_releaseAbandoned []).grows.has hc
  refine .of_ok rfl (.of_ok rfl ?_)
  cases (m.releaseAbandoned []).network.connect address port with
  | error failure => exact Builtin.refuse_safe hreleased
  | ok connected => exact .of_ok rfl (.of_ok rfl (instantiate_safe hreleased hc))

lemma listen_safe {classId : ClassId} (hc : m.store.Has (.classRef classId)) (port : Nat) :
    Safe Value.references (listen classId port) m := by
  refine .of_ok rfl (.when hm (m.wellFormed_releaseAbandoned [] hm)
    (m.quiet_releaseAbandoned []).grows fun after hafter hg => .of_ok rfl ?_)
  cases after.network.listen port with
  | none => exact Builtin.refuse_safe hafter
  | some listening => exact .of_ok rfl (.of_ok rfl (instantiate_safe hafter (hg.has hc)))

lemma construct_safe (host : HostClass) {classId : ClassId}
    (hc : m.store.Has (.classRef classId)) (arguments : List Value) :
    Safe Value.references (host.construct classId arguments) m := by
  have refused (message : String) : Safe Value.references (do
      let shown := (← Exec.store).inspectList arguments
      Builtin.refuse (message ++ shown)) m :=
    .of_ok rfl (Builtin.refuse_safe hm)
  cases host with
  | socket =>
    unfold construct
    dsimp only
    split
    · split
      · exact connect_safe hm hc _ _
      · exact refused _
    · exact refused _
  | serverSocket =>
    unfold construct
    dsimp only
    split
    · exact listen_safe hm hc _
    · exact refused _

end HostClass

namespace HostMethod

lemma run_safe (method : HostMethod) (receiver : InstanceId) (arguments : List Value)
    (hc : m.store.Has (.classRef Machine.socketClass)) :
    Safe Value.references (method.run receiver arguments) m := by
  cases method with
  | send =>
    have hreleased := m.wellFormed_releaseAbandoned
      [.instanceRef receiver, arguments.headD (.text "")] hm
    refine .of_ok rfl (.of_ok rfl (.of_ok rfl ?_))
    split
    · refine .aside hreleased rfl fun taken after hm => ?_
      split
      · exact .value hm rfl
      · exact Builtin.refuse_safe hm
    · exact Builtin.refuse_safe hreleased
  | receive =>
    refine .of_ok rfl ?_
    split
    · refine .aside hm rfl fun read after hm => ?_
      cases read with
      | text line => exact .value hm rfl
      | ended => exact Builtin.refuse_safe hm
      | undecodable => exact Builtin.refuse_safe hm
    · exact Builtin.refuse_safe hm
  | close =>
    have hclosed := hm.setHandle receiver none
    refine .of_ok rfl (.of_ok rfl ?_)
    split
    · refine .aside hclosed rfl fun connected after hm => ?_
      split
      · exact .value hm rfl
      · exact Builtin.refuse_safe hm
    · exact .value hclosed rfl
  | accept =>
    refine .of_ok rfl ?_
    split
    · refine .of_ok rfl ?_
      split
      · exact .of_ok rfl (HostClass.instantiate_safe hm hc)
      · exact Builtin.refuse_safe hm
    · exact Builtin.refuse_safe hm

end HostMethod

end

/-! ### Actions of the evaluator -/

namespace Eval

section

open Exec

variable {m : Machine} (hm : m.store.WellFormed)

include hm

lemma readVariable_safe (id : NodeId) (name : Token) :
    Safe Value.references (readVariable id name) m := by
  refine .of_ok rfl (.ofExcept hm _ fun value hv => ?_)
  split at hv
  · exact hm.hasAll_getAt hv
  · exact hm.hasAll_get hv

lemma defineHere_safe (name : String) {value : Value} (hv : m.store.HasAll value.references) :
    Safe (fun _ => []) (defineHere name value) m :=
  .of_ok rfl ⟨hm.define _ _ hv, .nil⟩

lemma writeVariable_safe (id : NodeId) (name : Token) {value : Value}
    (hv : m.store.HasAll value.references) :
    Safe (fun _ => []) (writeVariable id name value) m := by
  refine .of_ok rfl (.afterExcept hm fun f _ => ?_)
  exact ⟨hm.define _ _ hv, .nil⟩

lemma makeFunction_safe (declaration : FunctionDecl) (hs : m.store.Has (.frame m.scope)) :
    Safe Value.references (makeFunction declaration) m := by
  refine .of_ok rfl ⟨hm.addCallable ?_, ?_⟩
  · exact Store.HasAll.cons_iff.mpr ⟨hs, .nil⟩
  · exact Store.HasAll.cons_iff.mpr ⟨Store.WellFormed.has_addCallable _, .nil⟩

lemma makeGetter_safe (declaration : GetterDecl) (hs : m.store.Has (.frame m.scope)) :
    Safe Value.references (makeGetter declaration) m := by
  refine .of_ok rfl ⟨hm.addCallable ?_, ?_⟩
  · exact Store.HasAll.cons_iff.mpr ⟨hs, .nil⟩
  · exact Store.HasAll.cons_iff.mpr ⟨Store.WellFormed.has_addCallable _, .nil⟩

lemma readProperty_safe {object : Value} (name : Token) (ho : m.store.HasAll object.references) :
    Safe Value.references (readProperty object name) m := by
  cases object with
  | instanceRef i =>
    obtain ⟨hstore, hvalue⟩ := hm.property (ho _ List.mem_cons_self) name.lexeme
    exact .of_ok rfl (.ofExcept hstore _ hvalue)
  | _ => exact .fail hm _ _

lemma readSuper_safe (id : NodeId) (keyword method : Token) :
    Safe Value.references (readSuper id keyword method) m := by
  refine .of_ok rfl ?_
  split
  · exact .fail hm _ _
  · refine .afterExcept hm fun superclass _ => ?_
    split
    · refine .afterExcept hm fun receiver hreceiver => ?_
      split
      · exact .fail hm _ _
      · next function hfound =>
        refine ⟨hm.addBound (hm.has_findMethod? hfound) (hm.hasAll_getAt hreceiver), ?_⟩
        exact Store.HasAll.cons_iff.mpr ⟨Store.WellFormed.has_addCallable _, .nil⟩
    · exact .fail hm _ _

omit hm in
/-- The members of a new class are closed over the frame that was opened for them. -/
lemma hasAll_newClass {s : Store} {closure : FrameId} (hc : s.Has (.frame closure))
    {ancestors : List ClassId} (ha : ∀ c ∈ ancestors.head?, s.Has (.classRef c)) (name : String)
    (methods : List FunctionDecl) (getters : List GetterDecl) :
    s.HasAll (Class.references
      ⟨name, ancestors, methodRecord closure methods, getterRecord closure getters, none⟩) := by
  refine Store.hasAll_class.mpr ⟨ha, fun name f hf => ?_, fun name g hg => ?_⟩
  · exact Record.forall_mem_foldl_insert (P := fun f : Function => s.Has (.frame f.closure))
      _ _ (fun _ _ => hc) (by simp) _ hf
  · exact Record.forall_mem_foldl_insert (P := fun g : Getter => s.Has (.frame g.closure))
      _ _ (fun _ _ => hc) (by simp) _ hg

lemma declareClass_safe (name : Token) {superclass : Option ClassId}
    (methods : List FunctionDecl) (getters : List GetterDecl)
    (hs : m.store.Has (.frame m.scope))
    (hsuper : ∀ c ∈ superclass, m.store.Has (.classRef c)) :
    Safe (fun _ => []) (declareClass name superclass methods getters) m := by
  have hnamed : (m.store.define m.scope name.lexeme .nil).WellFormed := hm.define _ _ .nil
  have hgrows := m.store.grows_define m.scope name.lexeme .nil
  have made {m' : Machine} (hm' : m'.store.WellFormed) {closure : FrameId}
      (hc : m'.store.Has (.frame closure)) (hsuper : ∀ c ∈ superclass, m'.store.Has (.classRef c)) :
      Safe (fun _ => []) (do
        let c ← Exec.updateStore fun store =>
          let ancestors := (superclass.map store.lineage).getD []
          store.addClass ⟨name.lexeme, ancestors, methodRecord closure methods,
            getterRecord closure getters, none⟩
        let frame ← Exec.ofExcept name.line ((← Exec.store).locate m.scope name.lexeme)
        Exec.changeStore (·.define frame name.lexeme (.classRef c)) : Exec Unit) m' := by
    have hclass : (m'.store.addClass ⟨name.lexeme, (superclass.map m'.store.lineage).getD [],
        methodRecord closure methods, getterRecord closure getters, none⟩).2.WellFormed := by
      cases superclass with
      | none =>
        refine hm'.addClass (hasAll_newClass hc ?_ _ _ _) (.inl rfl)
        simp
      | some c =>
        refine hm'.addClass (hasAll_newClass hc ?_ _ _ _) (.inr ⟨c, rfl⟩)
        exact hsuper
    refine .of_ok rfl (.of_ok rfl (.afterExcept hclass fun frame _ => ⟨?_, .nil⟩))
    refine hclass.define _ _ (Store.HasAll.cons_iff.mpr ⟨?_, .nil⟩)
    simp [Store.Has, Store.addClass]
  refine .of_ok rfl (.of_ok rfl ?_)
  cases superclass with
  | none => exact made hnamed (hgrows.has hs) (by simp)
  | some c =>
    have hc := hgrows.has (hsuper c rfl)
    have hopened :
        (withSuperclass (m.store.define m.scope name.lexeme .nil) m.scope c).2.WellFormed := by
      refine hnamed.openFrame .superclass (hgrows.has hs) fun _ _ hm => ?_
      obtain ⟨rfl, rfl⟩ := Prod.mk.inj (List.mem_singleton.mp hm)
      exact Store.HasAll.cons_iff.mpr ⟨hc, .nil⟩
    refine .of_ok rfl (made hopened (Store.WellFormed.has_openFrame _ _ _) ?_)
    rintro _ ⟨⟩
    exact (Store.grows_openFrame _ _ _ _).has hc

end

/-! ### Calls -/

/-- What a list of values refers to. -/
def valuesReferences (values : List Value) : List Reference :=
  values.flatMap Value.references

/-- What the end of a statement refers to. -/
def completionReferences : Completion → List Reference
  | .returned value => value.references
  | _ => []

/-- What a task is given. -/
def Task.references : Task → List Reference
  | .call callee _ arguments => callee.references ++ valuesReferences arguments
  | .callable k arguments => k.references ++ valuesReferences arguments
  | .function f arguments => .frame f.closure :: valuesReferences arguments
  | .getter g => [.frame g.closure]
  | .construct c arguments => .classRef c :: valuesReferences arguments
  | _ => []

/-- What the result of a task refers to. -/
def Task.resultReferences : (t : Task) → t.Result → List Reference
  | .exprs _, values => valuesReferences values
  | .stmt _, completion => completionReferences completion
  | .loop _ _, completion => completionReferences completion
  | .stmts _, completion => completionReferences completion
  | .expr _, value => Value.references value
  | .call _ _ _, value => Value.references value
  | .callable _ _, value => Value.references value
  | .function _ _, value => Value.references value
  | .getter _, value => Value.references value
  | .construct _ _, value => Value.references value

/-- What a call adds to what is in use. -/
def Mode.references : Mode → List Reference
  | .plain => []
  | .within frame => [.frame frame]
  | .holding value => value.references

/-- What stops leaves a well-formed store, however far it has got. -/
def leavesHeap (_ : Stop) (after : Machine) : Prop :=
  after.store.WellFormed

/-- Every call starts with a well-formed machine and with what is there, and so it ends. -/
def heapLaw : Law where
  ready := fun _ c => c.machine.WellFormed ∧ c.machine.store.HasAll c.task.references
  done := fun _ c r after => after.WellFormed ∧ after.store.HasAll (c.task.resultReferences r)
  stopped := fun _ _ => leavesHeap

section

open Exec

variable {α : Type} {steps : Nat} {trail : List Call} {result : α → Machine → Prop} {m : Machine}

lemma Mode.wellFormed_enter {mode : Mode} (hm : m.WellFormed)
    (hr : m.store.HasAll mode.references) : (mode.enter m).WellFormed := by
  obtain ⟨hg, hs⟩ := Store.HasAll.cons_iff.mp hm.roots
  cases mode with
  | plain => exact hm
  | within frame =>
    exact ⟨hm.store, Store.HasAll.cons_iff.mpr ⟨hg, Store.HasAll.cons_iff.mpr
      ⟨hr _ List.mem_cons_self, hs⟩⟩, hm.sockets⟩
  | holding value =>
    obtain ⟨hscope, hheld⟩ := Store.HasAll.cons_iff.mp hs
    exact ⟨hm.store, Store.HasAll.cons_iff.mpr ⟨hg, Store.HasAll.cons_iff.mpr
      ⟨hscope, Store.HasAll.append_iff.mpr ⟨hr, hheld⟩⟩⟩, hm.sockets⟩

/-- A call is given what is there, and what comes then can rely on its result. -/
lemma heap_call {mode : Mode} {t : Task} {next : t.Result → Plan α} (hm : m.WellFormed)
    (hr : m.store.HasAll mode.references) (ht : m.store.HasAll t.references)
    (hn : ∀ r after, m.Advances after → after.WellFormed →
      after.store.HasAll (t.resultReferences r) →
        (next r).Keeps heapLaw steps trail result leavesHeap after) :
    (Plan.call mode t next).Keeps heapLaw steps trail result leavesHeap m := by
  refine ⟨⟨Mode.wellFormed_enter hm hr, ?_⟩, fun r after hp hd => ?_⟩
  · rw [mode.enter_store]
    exact ht
  · have ha : m.Advances (mode.leave m after) := Task.advances_leave hp
    refine hn r _ ha (hm.advance ha ?_) ?_
    · rw [mode.leave_store]
      exact hd.1.store
    · rw [mode.leave_store]
      exact hd.2

/-- A call at the end of a plan, with the result of the whole. -/
lemma heap_tail {t : Task} {result : t.Result → Machine → Prop} (hm : m.WellFormed)
    (ht : m.store.HasAll t.references)
    (hd : ∀ r after, after.WellFormed → after.store.HasAll (t.resultReferences r) →
      result r after) :
    (Plan.tail t).Keeps heapLaw steps trail result leavesHeap m :=
  heap_call hm .nil ht fun r after _ hafter hr => hd r after hafter hr

lemma heap_act {γ : Type} {references : γ → List Reference} {x : Exec γ} {next : γ → Plan α}
    (hm : m.WellFormed) (hx : Safe references x m) (ha : x.Advances)
    (hn : ∀ g after, m.Advances after → after.WellFormed → after.store.HasAll (references g) →
      (next g).Keeps heapLaw steps trail result leavesHeap after) :
    (Plan.act x next).Keeps heapLaw steps trail result leavesHeap m := by
  unfold Safe at hx
  constructor
  · intro g after ho
    rw [ho] at hx
    exact hn g after (ha.of_ok ho) (hm.advance (ha.of_ok ho) hx.1) hx.2
  · intro stop after ho
    rw [ho] at hx
    exact hx

lemma heap_only {references : α → List Reference} {x : Exec α} (hm : m.WellFormed)
    (hx : Safe references x m) (ha : x.Advances)
    (hd : ∀ a after, after.WellFormed → after.store.HasAll (references a) → result a after) :
    (Plan.only x).Keeps heapLaw steps trail result leavesHeap m :=
  heap_act hm hx ha fun a after _ hafter hr => hd a after hafter hr

lemma heap_fail {cause : Cause} {line : Nat} (hm : m.WellFormed) :
    (Plan.only (Exec.fail cause line) : Plan α).Keeps heapLaw steps trail result leavesHeap m :=
  Plan.keeps_fail hm.store

/-- A frame is opened inside of one that is there, with variables that hold what is there. -/
lemma heap_openFrame {kind : FrameKind} {f : FrameId} {vars : Record (Option Value)}
    {next : FrameId → Plan α} (hm : m.WellFormed) (hf : m.store.Has (.frame f))
    (hv : ∀ name slot, (name, slot) ∈ vars → m.store.HasAll (slotReferences slot))
    (hn : ∀ frame after, m.Advances after → after.WellFormed → after.store.Has (.frame frame) →
      (next frame).Keeps heapLaw steps trail result leavesHeap after) :
    (Plan.act (Exec.updateStore (·.openFrame kind f vars)) next).Keeps heapLaw steps trail result
      leavesHeap m := by
  have hsafe : Safe (fun frame => [Reference.frame frame])
      (Exec.updateStore (·.openFrame kind f vars)) m :=
    ⟨hm.store.openFrame kind hf hv,
      Store.HasAll.cons_iff.mpr ⟨Store.WellFormed.has_openFrame _ _ _, .nil⟩⟩
  exact heap_act hm hsafe (.updateStore fun s => s.grows_openFrame _ _ _)
    fun frame after ha hafter hframe => hn frame after ha hafter (hframe _ List.mem_cons_self)

lemma references_applyUnary {operator : TokenKind} {operand value : Value}
    (h : Value.applyUnary operator operand = .ok value) : value.references = [] := by
  unfold Value.applyUnary at h
  split at h
  · split at h
    · obtain rfl := Except.ok.inj h
      rfl
    · cases h
  · obtain rfl := Except.ok.inj h
    rfl
  · cases h

/-- An operator gives one of its operands, or a value that refers to nothing. -/
lemma references_applyBinary {store : Store} {operator : TokenKind} {a b value : Value}
    (h : Value.applyBinary store operator a b = .ok value) :
    value.references = [] ∨ value = a ∨ value = b := by
  have compared {test : Ordering → Bool} (h : Value.compareBy test a b = .ok value) :
      value.references = [] := by
    unfold Value.compareBy at h
    cases ho : Value.ordering? a b with
    | ok order =>
      rw [ho] at h
      cases h
      rfl
    | error cause =>
      rw [ho] at h
      cases h
  have counted {operation : Float → Float → Float}
      (h : Value.onNumbers operation a b = .ok value) : value.references = [] := by
    unfold Value.onNumbers at h
    split at h
    · cases h
      rfl
    · cases h
  unfold Value.applyBinary at h
  split at h
  · cases h
    exact .inl rfl
  · cases h
    exact .inl rfl
  · exact .inl (compared h)
  · exact .inl (compared h)
  · exact .inl (compared h)
  · exact .inl (compared h)
  · exact .inl (counted h)
  · exact .inl (counted h)
  · unfold Value.divide at h
    split at h
    · split_ifs at h
      cases h
      exact .inl rfl
    · cases h
  · unfold Value.add at h
    split at h
    · cases h
      exact .inl rfl
    · cases h
      exact .inl rfl
    · cases h
      exact .inl rfl
    · cases h
  · split at h
    · cases h
      exact .inr (.inr rfl)
    · cases h
      exact .inr (.inl rfl)
  · cases h

/-! ### Plans -/

lemma heap_exprPlan (e : Expr) (hm : m.WellFormed) :
    (Task.exprPlan e).Keeps heapLaw steps trail
      (fun value after => after.WellFormed ∧ after.store.HasAll value.references) leavesHeap m := by
  cases e with
  | literal value => cases value <;> exact ⟨hm, .nil⟩
  | grouping inner => exact heap_tail hm .nil fun _ _ h hr => ⟨h, hr⟩
  | unary operator operand =>
    refine heap_call hm .nil .nil fun value after _ h hr => ?_
    refine Plan.keeps_ofExcept (fun value hv => ⟨h, ?_⟩) fun _ _ => h.store
    exact references_applyUnary hv ▸ .nil
  | binary left operator right =>
    refine heap_call hm .nil .nil fun a after _ h ha => ?_
    refine heap_call h ha .nil fun b after' hadv h' hb => ?_
    refine Plan.keeps_store (Plan.keeps_ofExcept (fun value hv => ⟨h', ?_⟩) fun _ _ => h'.store)
    rcases references_applyBinary hv with hv | rfl | rfl
    · exact hv ▸ .nil
    · exact Store.HasAll.mono ha hadv.grows
    · exact hb
  | logical left operator right =>
    refine heap_call hm .nil .nil fun a after _ h ha => ?_
    split_ifs
    · exact ⟨h, ha⟩
    · exact heap_tail h .nil fun _ _ h hr => ⟨h, hr⟩
    · exact heap_call h ha .nil fun value after _ h hr => ⟨h, hr⟩
    · exact ⟨h, ha⟩
  | ternary condition first second =>
    refine heap_call hm .nil .nil fun a after _ h _ => ?_
    split
    · exact heap_tail h .nil fun _ _ h hr => ⟨h, hr⟩
    · exact heap_tail h .nil fun _ _ h hr => ⟨h, hr⟩
  | name id name =>
    exact heap_only hm (readVariable_safe hm.store id name) (readVariable_advances id name)
      fun _ _ h hr => ⟨h, hr⟩
  | this id keyword =>
    exact heap_only hm (readVariable_safe hm.store id keyword) (readVariable_advances id keyword)
      fun _ _ h hr => ⟨h, hr⟩
  | assign id name value =>
    refine heap_call hm .nil .nil fun v after _ h hv => ?_
    exact heap_act h (writeVariable_safe h.store id name hv) (writeVariable_advances id name v)
      fun _ _ hadv h _ => ⟨h, Store.HasAll.mono hv hadv.grows⟩
  | call callee paren arguments =>
    refine heap_call hm .nil .nil fun value after _ h hr => ?_
    refine heap_call h hr .nil fun values after' hadv h' hrs => ?_
    exact heap_tail h' (Store.HasAll.append_iff.mpr ⟨Store.HasAll.mono hr hadv.grows, hrs⟩)
      fun _ _ h hr => ⟨h, hr⟩
  | get object name =>
    refine heap_call hm .nil .nil fun object after _ h ho => ?_
    refine heap_act h (readProperty_safe h.store name ho) (readProperty_advances object name)
      fun property after' hadv h' hp => Plan.keeps_store ?_
    cases hg : after'.store.getter? property with
    | none => exact ⟨h', hp⟩
    | some g =>
      have hclosure := h'.store.has_getter? hg
      exact heap_call h' (Store.HasAll.mono ho hadv.grows)
        (Store.HasAll.cons_iff.mpr ⟨hclosure, .nil⟩) fun _ _ _ h hr => ⟨h, hr⟩
  | nilGet object name =>
    refine heap_call hm .nil .nil fun object after _ h ho => ?_
    cases object with
    | nil => exact ⟨h, .nil⟩
    | _ =>
      exact heap_only h (readProperty_safe h.store name ho) (readProperty_advances _ name)
        fun _ _ h hr => ⟨h, hr⟩
  | set object name value =>
    refine heap_call hm .nil .nil fun object after _ h ho => ?_
    cases object with
    | instanceRef i =>
      refine heap_call h ho .nil fun value after' _ h' hv => ?_
      have hset := h'.store.setField i name.lexeme hv
      refine Plan.keeps_changeStore ?_
      have hadv := (Advances.changeStore fun s => s.grows_setField i name.lexeme value) after'
      exact ⟨h'.advance hadv hset, Store.HasAll.mono hv hadv.grows⟩
    | _ => exact heap_fail h
  | super id keyword method =>
    exact heap_only hm (readSuper_safe hm.store id keyword method)
      (readSuper_advances id keyword method) fun _ _ h hr => ⟨h, hr⟩
  | lambda declaration =>
    exact heap_only hm (makeFunction_safe hm.store declaration hm.has_scope)
      (makeFunction_advances declaration) fun _ _ h hr => ⟨h, hr⟩

lemma heap_exprsPlan (es : List Expr) (hm : m.WellFormed) :
    (Task.exprsPlan es).Keeps heapLaw steps trail
      (fun values after => after.WellFormed ∧ after.store.HasAll (valuesReferences values))
      leavesHeap m := by
  cases es with
  | nil => exact ⟨hm, .nil⟩
  | cons e es =>
    refine heap_call hm .nil .nil fun value after _ h hv => ?_
    refine heap_call h hv .nil fun values after' hadv h' hvs => ⟨h', ?_⟩
    exact Store.HasAll.append_iff.mpr ⟨Store.HasAll.mono hv hadv.grows, hvs⟩

lemma heap_callPlan (callee : Value) (line : Nat) (arguments : List Value) (hm : m.WellFormed)
    (hr : m.store.HasAll (Task.call callee line arguments).references) :
    (Task.callPlan callee line arguments).Keeps heapLaw steps trail
      (fun value after => after.WellFormed ∧ after.store.HasAll value.references) leavesHeap m := by
  obtain ⟨hcallee, harguments⟩ := Store.HasAll.append_iff.mp hr
  refine Plan.keeps_store ?_
  cases callee with
  | callable id =>
    dsimp only
    cases hk : m.store.callables[id]? with
    | none => exact heap_fail hm
    | some k =>
      dsimp only
      split_ifs
      · exact heap_tail hm
          (Store.HasAll.append_iff.mpr ⟨hm.store.callable id k hk, harguments⟩)
          fun _ _ h hr => ⟨h, hr⟩
      · exact heap_fail hm
  | classRef id =>
    dsimp only
    split_ifs
    · exact heap_tail hm (Store.HasAll.cons_iff.mpr ⟨hcallee _ List.mem_cons_self, harguments⟩)
        fun _ _ h hr => ⟨h, hr⟩
    · exact heap_fail hm
  | _ => exact heap_fail hm

lemma heap_callablePlan (k : Callable) (arguments : List Value) (hm : m.WellFormed)
    (hr : m.store.HasAll (Task.callable k arguments).references) :
    (Task.callablePlan k arguments).Keeps heapLaw steps trail
      (fun value after => after.WellFormed ∧ after.store.HasAll value.references) leavesHeap m := by
  obtain ⟨hk, harguments⟩ := Store.HasAll.append_iff.mp hr
  cases k with
  | function f =>
    exact heap_tail hm (Store.HasAll.cons_iff.mpr ⟨hk _ List.mem_cons_self, harguments⟩)
      fun _ _ h hr => ⟨h, hr⟩
  | getter g => exact heap_tail hm hk fun _ _ h hr => ⟨h, hr⟩
  | builtin builtin =>
    exact heap_only hm (builtin.run_safe hm.store arguments)
      (builtin.run_quiet arguments).advances fun _ _ h hr => ⟨h, hr⟩
  | hostMethod method receiver =>
    exact heap_only hm (method.run_safe hm.store receiver arguments hm.sockets)
      (method.run_quiet receiver arguments).advances fun _ _ h hr => ⟨h, hr⟩

lemma resultOf_safe (line : Nat) {completion : Completion} (hm : m.store.WellFormed)
    (hr : m.store.HasAll (completionReferences completion)) :
    Safe Value.references (resultOf line completion) m := by
  cases completion with
  | normal => exact .value hm rfl
  | returned value => exact .pure hm hr
  | broke => exact .fail hm _ _

/-- Parameters hold the arguments. -/
lemma hasAll_bindParameters {s : Store} (params : List Token) {arguments : List Value}
    (ha : s.HasAll (valuesReferences arguments)) (name : String) (slot : Option Value)
    (h : (name, slot) ∈ bindParameters params arguments) : s.HasAll (slotReferences slot) := by
  refine Record.forall_mem_foldl_insert (P := fun slot => s.HasAll (slotReferences slot))
    (fun b : Token × Value => b.1.lexeme) (fun b => some b.2) (fun b hb => ?_) (by simp) _ h
  exact Store.HasAll.flatMap_iff.mp ha b.2 (List.of_mem_zip hb).2

lemma heap_functionPlan (f : Function) (arguments : List Value) (hm : m.WellFormed)
    (hr : m.store.HasAll (Task.function f arguments).references) :
    (Task.functionPlan f arguments).Keeps heapLaw steps trail
      (fun value after => after.WellFormed ∧ after.store.HasAll value.references) leavesHeap m := by
  obtain ⟨hclosure, harguments⟩ := Store.HasAll.cons_iff.mp hr
  refine heap_openFrame hm hclosure (hasAll_bindParameters _ harguments)
    fun frame after _ h hframe => ?_
  refine heap_call h (Store.HasAll.cons_iff.mpr ⟨hframe, .nil⟩) .nil fun completion _ _ h hc => ?_
  refine heap_act h (resultOf_safe _ h.store hc) (resultOf_advances _ _)
    fun value after _ h hv => ?_
  split_ifs
  · refine Plan.keeps_store (Plan.keeps_ofExcept (fun value hv => ⟨h, ?_⟩) fun _ _ => h.store)
    exact h.store.hasAll_getAt hv
  · exact ⟨h, hv⟩

lemma heap_getterPlan (g : Getter) (hm : m.WellFormed)
    (hr : m.store.HasAll (Task.getter g).references) :
    (Task.getterPlan g).Keeps heapLaw steps trail
      (fun value after => after.WellFormed ∧ after.store.HasAll value.references) leavesHeap m := by
  refine heap_openFrame hm (hr _ List.mem_cons_self) (by simp) fun frame after _ h hframe => ?_
  refine heap_call h (Store.HasAll.cons_iff.mpr ⟨hframe, .nil⟩) .nil fun completion _ _ h hc => ?_
  exact heap_only h (resultOf_safe _ h.store hc) (resultOf_advances _ _) fun _ _ h hv => ⟨h, hv⟩

lemma heap_constructPlan (id : ClassId) (arguments : List Value) (hm : m.WellFormed)
    (hr : m.store.HasAll (Task.construct id arguments).references) :
    (Task.constructPlan id arguments).Keeps heapLaw steps trail
      (fun value after => after.WellFormed ∧ after.store.HasAll value.references) leavesHeap m := by
  obtain ⟨hclass, harguments⟩ := Store.HasAll.cons_iff.mp hr
  refine Plan.keeps_store ?_
  cases (m.store.classes[id]?).bind Class.host with
  | some host =>
    exact heap_only hm (host.construct_safe hm.store hclass arguments)
      (host.construct_quiet id arguments).advances fun _ _ h hr => ⟨h, hr⟩
  | none =>
    have hadded : Safe (fun i => [Reference.instanceRef i])
        (Exec.updateStore (·.addInstance ⟨id, [], none⟩)) m := by
      refine ⟨hm.store.addInstance (Store.hasAll_instance.mpr ⟨hclass, nofun⟩), ?_⟩
      simp [Store.Has]
    refine heap_act hm hadded (.updateStore fun s => s.grows_addInstance _)
      fun i after hadv h hi => ?_
    cases hinit : m.store.findMethod? id Store.initializerName with
    | none => exact ⟨h, hi⟩
    | some initializer =>
      have hclosure := hadv.grows.has (hm.store.has_findMethod? hinit)
      have hbound : Safe (fun f => [Reference.frame f.closure])
          (Exec.updateStore (·.bindFunction initializer (.instanceRef i))) after :=
        ⟨h.store.openReceiver hclosure hi,
          Store.HasAll.cons_iff.mpr ⟨Store.WellFormed.has_openFrame _ _ _, .nil⟩⟩
      refine heap_act h hbound (.updateStore fun s => s.grows_bindFunction _ _)
        fun f after' hadv' h' hf => ?_
      have harguments := (harguments.mono hadv.grows).mono hadv'.grows
      refine heap_call h' .nil (Store.HasAll.cons_iff.mpr ⟨hf _ List.mem_cons_self, harguments⟩)
        fun _ after'' hadv'' h'' _ => ⟨h'', ?_⟩
      exact (Store.HasAll.mono hi hadv'.grows).mono hadv''.grows

lemma heap_stmtPlan (s : Stmt) (hm : m.WellFormed) :
    (Task.stmtPlan s).Keeps heapLaw steps trail
      (fun completion after =>
        after.WellFormed ∧ after.store.HasAll (completionReferences completion)) leavesHeap m := by
  cases s with
  | expression value => exact heap_call hm .nil .nil fun _ _ _ h _ => ⟨h, .nil⟩
  | print keyword value =>
    refine heap_call hm .nil .nil fun value after _ h _ => Plan.keeps_store ?_
    have hprint : Safe (fun _ => []) (Exec.print (after.store.display value) keyword.line)
        after := by
      refine .aside h.store rfl fun taken _ hm => ?_
      split
      · exact .pure hm .nil
      · exact .fail hm _ _
    exact heap_act h hprint (.print _ _) fun _ _ _ h _ => ⟨h, .nil⟩
  | var name initializer =>
    cases initializer with
    | none =>
      refine Plan.keeps_get (Plan.keeps_changeStore ⟨?_, .nil⟩)
      exact hm.advance ((Advances.changeStore fun s => s.grows_declare m.scope name.lexeme) m)
        (hm.store.declare _ _)
    | some value =>
      refine heap_call hm .nil .nil fun v after _ h hv => ?_
      exact heap_act h (defineHere_safe h.store _ hv) (defineHere_advances _ _)
        fun _ _ _ h _ => ⟨h, .nil⟩
  | block body =>
    refine Plan.keeps_get (heap_openFrame hm hm.has_scope (by simp) fun frame after _ h hf => ?_)
    exact heap_call h (Store.HasAll.cons_iff.mpr ⟨hf, .nil⟩) .nil fun _ _ _ h hr => ⟨h, hr⟩
  | function declaration =>
    refine heap_act hm (makeFunction_safe hm.store declaration hm.has_scope)
      (makeFunction_advances _) fun value after _ h hv => ?_
    exact heap_act h (defineHere_safe h.store _ hv) (defineHere_advances _ _)
      fun _ _ _ h _ => ⟨h, .nil⟩
  | getter declaration =>
    refine heap_act hm (makeGetter_safe hm.store declaration hm.has_scope)
      (makeGetter_advances _) fun value after _ h hv => ?_
    exact heap_act h (defineHere_safe h.store _ hv) (defineHere_advances _ _)
      fun _ _ _ h _ => ⟨h, .nil⟩
  | classDecl name superclass methods getters =>
    cases superclass with
    | none =>
      exact heap_act hm (declareClass_safe hm.store name methods getters hm.has_scope nofun)
        (declareClass_advances _ _ _ _) fun _ _ _ h _ => ⟨h, .nil⟩
    | some superclass =>
      refine heap_call hm .nil .nil fun value after _ h hv => ?_
      cases value with
      | classRef id =>
        refine heap_act h (declareClass_safe h.store name methods getters h.has_scope ?_)
          (declareClass_advances _ (some id) _ _) fun _ _ _ h _ => ⟨h, .nil⟩
        rintro _ ⟨⟩
        exact hv _ List.mem_cons_self
      | _ => exact heap_fail h
  | ifStmt condition consequent alternative =>
    refine heap_call hm .nil .nil fun value after _ h _ => ?_
    split_ifs
    · exact heap_tail h .nil fun _ _ h hr => ⟨h, hr⟩
    · cases alternative with
      | none => exact ⟨h, .nil⟩
      | some other => exact heap_tail h .nil fun _ _ h hr => ⟨h, hr⟩
  | whileStmt condition body => exact heap_tail hm .nil fun _ _ h hr => ⟨h, hr⟩
  | breakStmt keyword => exact ⟨hm, .nil⟩
  | returnStmt keyword value =>
    cases value with
    | none => exact ⟨hm, .nil⟩
    | some value => exact heap_call hm .nil .nil fun _ _ _ h hr => ⟨h, hr⟩

lemma heap_loopPlan (condition : Expr) (body : Stmt) (hm : m.WellFormed) :
    (Task.loopPlan condition body).Keeps heapLaw steps trail
      (fun completion after =>
        after.WellFormed ∧ after.store.HasAll (completionReferences completion)) leavesHeap m := by
  refine heap_call hm .nil .nil fun value after _ h _ => ?_
  split_ifs
  · refine heap_call h .nil .nil fun completion after' _ h' hr => ?_
    cases completion with
    | normal => exact heap_tail h' .nil fun _ _ h hr => ⟨h, hr⟩
    | broke => exact ⟨h', .nil⟩
    | returned value => exact ⟨h', hr⟩
  · exact ⟨h, .nil⟩

lemma heap_stmtsPlan (ss : List Stmt) (hm : m.WellFormed) :
    (Task.stmtsPlan ss).Keeps heapLaw steps trail
      (fun completion after =>
        after.WellFormed ∧ after.store.HasAll (completionReferences completion)) leavesHeap m := by
  cases ss with
  | nil => exact ⟨hm, .nil⟩
  | cons s ss =>
    refine heap_call hm .nil .nil fun completion after _ h hr => ?_
    cases completion with
    | normal => exact heap_tail h .nil fun _ _ h hr => ⟨h, hr⟩
    | broke => exact ⟨h, .nil⟩
    | returned value => exact ⟨h, hr⟩

end

/-- Everything that the evaluator does keeps the heap well-formed. -/
theorem heapLaw_sound : heapLaw.Sound where
  exhausted := fun _ _ _ h => h.1.store
  keeps := by
    rintro trail steps t m ⟨hm, hr⟩
    cases t with
    | expr e => exact heap_exprPlan e hm
    | exprs es => exact heap_exprsPlan es hm
    | call callee line arguments => exact heap_callPlan callee line arguments hm hr
    | callable k arguments => exact heap_callablePlan k arguments hm hr
    | function f arguments => exact heap_functionPlan f arguments hm hr
    | getter g => exact heap_getterPlan g hm hr
    | construct id arguments => exact heap_constructPlan id arguments hm hr
    | stmt s => exact heap_stmtPlan s hm
    | loop condition body => exact heap_loopPlan condition body hm
    | stmts ss => exact heap_stmtsPlan ss hm

/-! ### Runs -/

namespace Call

variable {trail : List Call} {c : Call}

/-- However a call ends, it leaves a well-formed machine. -/
lemma wellFormed_after (h : heapLaw.ready trail c) : c.after.WellFormed := by
  refine h.1.advance (c.task.perform_advances c.steps c.machine) ?_
  unfold after Exec.after
  cases ho : c.task.perform c.steps c.machine with
  | ok r after => exact (heapLaw_sound.settles c.steps trail c.task c.machine r after h ho).1.store
  | error stop after =>
    obtain ⟨_, _, after', -, -, hs, hstop⟩ := heapLaw_sound.stopped_of_error h ho
    rw [← hs]
    exact hstop

end Call

namespace Run

variable {run : Run}

/-- The statements of a program keep the heap well-formed, one after the other. -/
lemma heap_programPlan (steps : Nat) (p : Program) {m : Machine} (hm : m.WellFormed) :
    (programPlan p).Keeps heapLaw steps [] (fun _ after => after.store.WellFormed) leavesHeap
      m := by
  induction p generalizing m with
  | nil => exact hm.store
  | cons s rest ih =>
    refine heap_call hm .nil .nil fun completion after _ h _ => ?_
    cases completion with
    | broke => exact Plan.keeps_fail h.store
    | normal => exact ih h
    | returned value => exact ih h

/-- On a well-formed machine, a run keeps the heap well-formed at all times, and leaves it so. -/
theorem wellFormed (hm : run.machine.WellFormed) :
    (∀ trail c, run.Visits trail c → heapLaw.ready trail c) ∧ run.after.WellFormed := by
  have hkeeps := heap_programPlan run.steps run.program hm
  constructor
  · rintro trail c ⟨⟨steps, t, m⟩, ⟨hs, ha⟩, hr⟩
    obtain rfl : steps = run.steps := hs
    have hready := heapLaw_sound.ready_of_reaches
      (hkeeps.of_asks (heapLaw_sound.settles run.steps) ha) hr
    rwa [List.append_nil] at hready
  · refine hm.advance (runProgram_advances run.steps run.program run.machine) ?_
    unfold after Exec.after
    rw [runProgram_eq]
    cases ho : (programPlan run.program).perform (Task.perform run.steps) run.machine with
    | ok a end_ => exact hkeeps.of_ok (heapLaw_sound.settles run.steps) ho
    | error stop end_ =>
      rcases hkeeps.of_error (heapLaw_sound.settles run.steps) ho with hs | ⟨t, m, end', ha, hp, hs⟩
      · exact hs
      · -- the call that stopped has kept it, too
        have hready := hkeeps.of_asks (heapLaw_sound.settles run.steps) ha
        obtain ⟨_, _, _, -, -, hst, hstop⟩ := heapLaw_sound.stopped_of_error hready hp
        show end_.store.WellFormed
        rw [← hs, ← hst]
        exact hstop

end Run

end Eval

end Scripting
