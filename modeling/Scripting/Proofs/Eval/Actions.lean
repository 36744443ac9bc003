import Scripting.Proofs.Eval.Steps
import Scripting.Proofs.Store.Receivers

/-!
# What a call does by itself

Whatever program it belongs to, a call does only a few kinds of things by itself. `Act` has what it
does to the store: it writes variables and fields, opens frames, and creates callables, classes and
instances. `Asked` has the calls that it makes: for a part of its code in the same frame or in a new
one, for a value that is called with as many arguments as it takes, or for the code of a callable.
`Call.acts` says that there is nothing else.
-/

namespace Scripting

open Resolution

/-- The declaration that a callable runs, and the frame that it is closed over. -/
def Callable.code? : Callable → Option (Place × FrameId)
  | .function f => some (.function f.declaration, f.closure)
  | .getter g => some (.getter g.declaration, g.closure)
  | _ => none

namespace Store

/-- A frame holds a receiver, directly inside of another frame. -/
def Receives (s : Store) (f closure : FrameId) : Prop :=
  ∃ frame, s.frames[f]? = some frame ∧ frame.kind = .receiver ∧ frame.outer.head? = some closure

/-- A callable is a member of a class with its receiver. -/
inductive BindsMember (s : Store) : Callable → Prop
  | method {c : ClassId} {cls : Class} {name : String} {m : Function} {f : FrameId} :
    s.classes[c]? = some cls → Record.get? cls.methods name = some m → s.Receives f m.closure →
      BindsMember s (.function { m with closure := f })
  | getter {c : ClassId} {cls : Class} {name : String} {g : Getter} {f : FrameId} :
    s.classes[c]? = some cls → Record.get? cls.getters name = some g → s.Receives f g.closure →
      BindsMember s (.getter { g with closure := f })

variable {s : Store} {c : ClassId} {name : String}

lemma receives_openReceiver (s : Store) (closure : FrameId) (receiver : Value) :
    (s.openReceiver closure receiver).2.Receives (s.openReceiver closure receiver).1 closure :=
  ⟨_, frames_openFrame s .receiver closure _, rfl, rfl⟩

lemma BindsMember.exists_binds {k : Callable} (h : s.BindsMember k) :
    ∃ c d f, k.code? = some (d, f) ∧ s.Binds c d f := by
  cases h with
  | @method c cls name m f hc hm hf =>
    obtain ⟨frame, hf, hk, ho⟩ := hf
    have hhas : cls.Has (.function m.declaration) m.closure := .method hm
    exact ⟨c, _, f, rfl, cls, m.closure, frame, hc, hhas, hf, hk, ho⟩
  | @getter c cls name g f hc hg hf =>
    obtain ⟨frame, hf, hk, ho⟩ := hf
    have hhas : cls.Has (.getter g.declaration) g.closure := .getter hg
    exact ⟨c, _, f, rfl, cls, g.closure, frame, hc, hhas, hf, hk, ho⟩

lemma exists_of_findMethod? {m : Function} (h : s.findMethod? c name = some m) :
    ∃ (k : ClassId) (cls : Class), s.classes[k]? = some cls ∧
      Record.get? cls.methods name = some m := by
  obtain ⟨k, -, hk⟩ := List.exists_of_findSome?_eq_some h
  exact ⟨k, Option.bind_eq_some_iff.mp hk⟩

lemma exists_of_findGetter? {g : Getter} (h : s.findGetter? c name = some g) :
    ∃ (k : ClassId) (cls : Class), s.classes[k]? = some cls ∧
      Record.get? cls.getters name = some g := by
  obtain ⟨k, -, hk⟩ := List.exists_of_findSome?_eq_some h
  exact ⟨k, Option.bind_eq_some_iff.mp hk⟩

/-- A method that is found comes to be a member with its receiver. -/
lemma bindsMember_of_findMethod? {m : Function} (h : s.findMethod? c name = some m)
    (receiver : Value) :
    (s.bindFunction m receiver).2.BindsMember (.function (s.bindFunction m receiver).1) := by
  obtain ⟨k, cls, hc, hm⟩ := exists_of_findMethod? h
  exact .method hc hm (s.receives_openReceiver m.closure receiver)

lemma bindsMember_of_findGetter? {g : Getter} (h : s.findGetter? c name = some g)
    (receiver : Value) :
    (s.bindGetter g receiver).2.BindsMember (.getter (s.bindGetter g receiver).1) := by
  obtain ⟨k, cls, hc, hg⟩ := exists_of_findGetter? h
  exact .getter hc hg (s.receives_openReceiver g.closure receiver)

end Store

namespace Eval

namespace Task

/-- The code that a task goes through in the current scope. -/
def place? : Task → Option Place
  | .expr e => some (.expr e)
  | .exprs es => some (.exprs es)
  | .stmt s => some (.stmt s)
  | .loop condition body => some (.stmt (.whileStmt condition body))
  | .stmts ss => some (.stmts ss)
  | _ => none

/-- The declaration that a task runs, and the frame that it is closed over. -/
def code? : Task → Option (Place × FrameId)
  | .function f _ => some (.function f.declaration, f.closure)
  | .getter g => some (.getter g.declaration, g.closure)
  | _ => none

lemma place?_eq_none_of_code? {t : Task} {code : Place × FrameId} (h : t.code? = some code) :
    t.place? = none ∧ ∀ k arguments, t ≠ .callable k arguments := by
  cases t with
  | function f arguments => exact ⟨rfl, by simp⟩
  | getter g => exact ⟨rfl, by simp⟩
  | _ => cases h

/-- A call that goes through code runs no declaration and no callable. -/
lemma code?_eq_none_of_place? {t : Task} {x : Place} (h : t.place? = some x) :
    t.code? = none ∧ ∀ k arguments, t ≠ .callable k arguments := by
  cases t with
  | expr e => exact ⟨rfl, by simp⟩
  | exprs es => exact ⟨rfl, by simp⟩
  | stmt s => exact ⟨rfl, by simp⟩
  | loop condition body => exact ⟨rfl, by simp⟩
  | stmts ss => exact ⟨rfl, by simp⟩
  | _ => cases h

/-- The name of the variable that a task itself writes to. -/
def written? : Task → Option Token
  | .expr (.assign _ name _) => some name
  | .stmt s => s.declared?
  | _ => none

end Task

namespace Call

/-- A call makes a function or a getter of a declaration, at a place in the store. -/
def Creates (c : Call) (id : CallableId) : Prop :=
  c.steps ≠ 0 ∧ id = c.machine.store.callables.size ∧
    ((∃ d, c.task = .expr (.lambda d)) ∨ (∃ d, c.task = .stmt (.function d)) ∨
      ∃ d, c.task = .stmt (.getter d))

/-- A call declares a class, at a place in the store, whose superclass is found to be another class.
The ancestors of the new class are this one and those that it has then. -/
def Derives (c : Call) (derived superclass : ClassId) (ancestors : List ClassId) : Prop :=
  ∃ steps name value methods getters after, c.steps = steps + 1 ∧
    c.task = .stmt (.classDecl name (some value) methods getters) ∧
    evaluate steps value c.machine = .ok (.classRef superclass) after ∧
    derived = after.store.classes.size ∧ ancestors = after.store.lineage superclass

end Call

/-- What a call does to the store. -/
inductive Act (c : Call) : Store → Store → Prop
  /-- Something that neither variables nor fields nor code show. -/
  | aside {s s' : Store} : s.Grows s' → s'.frames = s.frames → s'.callables = s.callables →
    s'.classes = s.classes → (∀ i name, s'.field? i name = s.field? i name) → Act c s s'
  | trans {s s' s'' : Store} : Act c s s' → Act c s' s'' → Act c s s''
  | write {s : Store} {name : Token} (f : FrameId) (slot : Option Value) :
    c.task.written? = some name → Act c s (s.setSlot f name.lexeme slot)
  | field {s : Store} {object value : Expr} {name : Token} (i : InstanceId) (v : Value) :
    c.task = .expr (.set object name value) → Act c s (s.setField i name.lexeme v)
  | block {s : Store} (f : FrameId) : Act c s (s.openFrame .block f []).2
  | call {s : Store} {vars : Record (Option Value)} (f : FrameId) :
    (vars = [] ∨ ∃ function arguments, c.task = .function function arguments ∧
      vars = bindParameters function.declaration.params arguments) →
        Act c s (s.openFrame .call f vars).2
  /-- A receiver is an instance, or else it comes from another frame. -/
  | receiver {s : Store} {value : Value} (f : FrameId) :
    ((∃ i, value = .instanceRef i) ∨ ∃ g, s.slot? g "this" = some (some value)) →
      Act c s (s.openReceiver f value).2
  | superclass {s : Store} (f : FrameId) (superclass : ClassId) :
    Act c s (withSuperclass s f superclass).2
  /-- A function or a getter that is declared in the code of the call. -/
  | closure {s : Store} {k : Callable} {x d : Place} : c.machine.store.Grows s →
    c.Creates s.callables.size → c.task.place? = some x → x.Holds [] d →
      k.code? = some (d, c.machine.scope) → (∀ f, k = .function f → f.isInitializer = false) →
        Act c s (s.addCallable k).2
  | member {s : Store} {k : Callable} : s.BindsMember k → Act c s (s.addCallable k).2
  | host {s : Store} (method : HostMethod) (i : InstanceId) :
    Act c s (s.addCallable (.hostMethod method i)).2
  /-- A class, with members that are closed over the scope of the call, or over a frame for the
  superclass. -/
  | class_ {s : Store} {name : Token} {superclass : Option Expr} {methods : List FunctionDecl}
      {getters : List GetterDecl} {closure : FrameId} {ancestors : List ClassId} :
    c.task = .stmt (.classDecl name superclass methods getters) →
      (closure = c.machine.scope ∧ c.machine.store.Grows s ∨
        ∃ k, s.slot? closure "super" = some (some (.classRef k)) ∧
          c.Derives s.classes.size k ancestors) →
        Act c s (s.addClass ⟨name.lexeme, ancestors, methodRecord closure methods,
          getterRecord closure getters, none⟩).2

/-- What a call that another one makes is for. -/
inductive Asked (c c' : Call) : Prop
  /-- A part of the code, in the same scope. -/
  | part {x x' : Place} : c.task.place? = some x → c'.task.place? = some x' → x.Holds [] x' →
    c.machine.store.Grows c'.machine.store → c'.machine.scope = c.machine.scope → Asked c c'
  | block {x x' : Place} : c.task.place? = some x → c'.task.place? = some x' →
    x.Holds [.block] x' → c.machine.store.Grows c'.machine.store →
      c'.machine.store.frames[c'.machine.scope]? =
        some ⟨.block, c.machine.store.chain c.machine.scope, []⟩ → Asked c c'
  /-- The body of a function or of a getter. -/
  | body {d x' : Place} {f : FrameId} {vars : Record (Option Value)} :
    c.task.code? = some (d, f) → c'.task.place? = some x' → d.Holds [.call] x' →
      c.machine.store.Grows c'.machine.store →
        c'.machine.store.frames[c'.machine.scope]? = some ⟨.call, c.machine.store.chain f, vars⟩ →
          Asked c c'
  /-- A value, before it is known what can be called there. -/
  | value {callee : Value} {line : Nat} {arguments : List Value} :
    c'.task = .call callee line arguments → Asked c c'
  /-- What a value has turned out to be, with as many arguments as that takes. -/
  | callable {k : Callable} {arguments : List Value} (id : CallableId) :
    c'.task = .callable k arguments → c'.machine.store.callables[id]? = some k →
      arguments.length = k.arity → Asked c c'
  | construct {k : ClassId} {arguments : List Value} : c'.task = .construct k arguments →
    arguments.length = c'.machine.store.classArity k → Asked c c'
  | runFunction {f : Function} {arguments : List Value} :
    c.task = .callable (.function f) arguments → c'.task = .function f arguments →
      c'.machine = c.machine → Asked c c'
  | runGetter {g : Getter} {arguments : List Value} :
    c.task = .callable (.getter g) arguments → c'.task = .getter g → c'.machine = c.machine →
      Asked c c'
  /-- A getter that is read as a property. -/
  | getter {g : Getter} (id : CallableId) : c'.task = .getter g →
    c'.machine.store.callables[id]? = some (.getter g) → Asked c c'
  /-- The initializer of a class, with a new instance as its receiver. -/
  | initializer {k : ClassId} {f : Function} {g : FrameId} {arguments : List Value} :
    c.task = .construct k arguments → (c.machine.store.classes[k]?).bind Class.host = none →
      c.machine.store.findMethod? k Store.initializerName = some f →
        c'.task = .function { f with closure := g } arguments →
          c'.machine.store.BindsMember (.function { f with closure := g }) → Asked c c'

/-! ### Single steps -/

lemma Act.of_eq {c : Call} {s s' : Store} (h : s' = s) : Act c s s' := by
  subst h
  exact .aside (.refl s') rfl rfl rfl fun _ _ => rfl

lemma Act.of_quiet {c : Call} {α : Type} {x : Exec α} (hx : x.Quiet) (m : Machine) :
    Act c m.store (x.after m).store := by
  obtain ⟨a, m', h, hq⟩ := hx m
  rw [Exec.after, h]
  exact .aside hq.grows hq.frames_eq hq.callables_eq hq.classes_eq hq.field?_eq

lemma after_ofExcept {α : Type} (line : Nat) (e : Except Cause α) (m : Machine) :
    (Exec.ofExcept line e).after m = m := by
  cases e with
  | ok a => rfl
  | error cause => rfl

lemma after_resultOf (line : Nat) (completion : Completion) (m : Machine) :
    (resultOf line completion).after m = m := by
  cases completion with
  | normal => rfl
  | returned value => rfl
  | broke => rfl

lemma store_after_print (text : String) (line : Nat) (m : Machine) :
    ((Exec.print text line).after m).store = m.store := by
  rcases hw : m.sink.writeLine text with ⟨taken, sink⟩
  have he : Exec.print text line m =
      (if taken then pure () else Exec.fail .outputFull line : Exec Unit) { m with sink } := by
    simp only [Exec.print, Bind.bind, EStateM.bind, Exec.modifyGet_apply, hw]
  rw [Exec.after, he]
  cases taken with
  | true => rfl
  | false => rfl

section

variable {steps : Nat} {c : Call} {m : Machine}

/-- One action after the other. -/
lemma act_afterOk {α β : Type} {x : Exec α} {next : α → Exec β} {a : α} {m' : Machine}
    (hx : x m = .ok a m') (h : Act c m.store m'.store)
    (hn : Act c m'.store ((next a).after m').store) :
    Act c m.store ((x >>= next).after m).store := by
  rw [Exec.after, Exec.bind_of_ok hx]
  exact h.trans hn

/-- Behind a result, or else not at all. -/
lemma act_afterExcept {α β : Type} {line : Nat} {e : Except Cause α} {next : α → Exec β}
    (hn : ∀ a, e = .ok a → Act c m.store ((next a).after m).store) :
    Act c m.store ((Exec.ofExcept line e >>= next).after m).store := by
  cases e with
  | ok a => exact hn a rfl
  | error cause => exact .of_eq rfl

lemma act_writeVariable {id : NodeId} {token : Token} (hw : c.task.written? = some token)
    (value : Value) : Act c m.store ((writeVariable id token value).after m).store :=
  act_afterExcept fun f _ => .write f (some value) hw

lemma act_property (s : Store) (i : InstanceId) (name : String) :
    Act c s (s.property i name).2 := by
  unfold Store.property
  split
  · exact .of_eq rfl
  · split
    · exact .of_eq rfl
    · split
      · next g hg =>
        exact .trans (.receiver g.closure (.inl ⟨i, rfl⟩))
          (.member (Store.bindsMember_of_findGetter? hg _))
      · split
        · next f hf =>
          exact .trans (.receiver f.closure (.inl ⟨i, rfl⟩))
            (.member (Store.bindsMember_of_findMethod? hf _))
        · split
          · exact .host _ _
          · exact .of_eq rfl

lemma act_readProperty (object : Value) (name : Token) :
    Act c m.store ((readProperty object name).after m).store := by
  cases object with
  | instanceRef i =>
    have he : (readProperty (.instanceRef i) name).after m =
        { m with store := (m.store.property i name.lexeme).2 } := by
      rw [Exec.after, readProperty_instanceRef]
      exact after_ofExcept _ _ _
    rw [he]
    exact act_property m.store i name.lexeme
  | _ => exact .of_eq rfl

lemma act_readSuper (id : NodeId) (keyword method : Token) :
    Act c m.store ((readSuper id keyword method).after m).store := by
  unfold readSuper
  refine act_afterOk (Exec.get_apply m) (.of_eq rfl) ?_
  split
  · exact .of_eq rfl
  · refine act_afterExcept fun superclass _ => ?_
    split
    · refine act_afterExcept fun receiver hthis => ?_
      split
      · exact .of_eq rfl
      · next function hfound =>
        obtain ⟨g, -, hslot⟩ := Store.getAt_eq_ok.mp hthis
        exact .trans (.receiver function.closure (.inr ⟨g, hslot⟩))
          (.member (Store.bindsMember_of_findMethod? hfound receiver))
    · exact .of_eq rfl

/-- The last steps of a class declaration: the class is created and bound to its name. -/
lemma act_bindClass {scope closure : FrameId} {name : Token} {superclass : Option ClassId}
    {methods : List FunctionDecl} {getters : List GetterDecl}
    (hw : c.task.written? = some name)
    (hclass : Act c m.store (m.store.addClass
      ⟨name.lexeme, (superclass.map m.store.lineage).getD [], methodRecord closure methods,
        getterRecord closure getters, none⟩).2) :
    Act c m.store (Exec.after (do
      let c ← Exec.updateStore fun store =>
        let ancestors := (superclass.map store.lineage).getD []
        store.addClass
          ⟨name.lexeme, ancestors, methodRecord closure methods, getterRecord closure getters, none⟩
      let frame ← Exec.ofExcept name.line ((← Exec.store).locate scope name.lexeme)
      Exec.changeStore (·.define frame name.lexeme (.classRef c)) : Exec Unit) m).store := by
  refine act_afterOk rfl hclass (act_afterOk rfl (.of_eq rfl) ?_)
  exact act_afterExcept fun frame _ => .write frame _ hw

lemma act_declareClass {name : Token} {superclass : Option Expr} {found : Option ClassId}
    {methods : List FunctionDecl} {getters : List GetterDecl}
    (ht : c.task = .stmt (.classDecl name superclass methods getters))
    (hm : c.machine.Advances m)
    (hd : ∀ k, found = some k → c.Derives m.store.classes.size k (m.store.lineage k)) :
    Act c m.store ((declareClass name found methods getters).after m).store := by
  have hw : c.task.written? = some name := by
    rw [ht]
    rfl
  unfold declareClass
  refine act_afterOk rfl (.write m.scope (some .nil) hw) (act_afterOk rfl (.of_eq rfl) ?_)
  cases found with
  | none =>
    refine act_afterOk rfl (.of_eq rfl) (act_bindClass hw (.class_ ht (.inl ⟨hm.scope_eq, ?_⟩)))
    exact hm.grows.trans (m.store.grows_define m.scope name.lexeme .nil)
  | some k =>
    refine act_afterOk rfl (.superclass m.scope k)
      (act_bindClass hw (.class_ ht (.inr ⟨k, ?_, hd k rfl⟩)))
    exact Store.slot?_openFrame _ _ _ _ _

/-! ### Expressions -/

lemma holds_part {x x' : Place} {opened : List FrameKind} {state : Resolution}
    (h : ⟨x', opened, state⟩ ∈ x.parts .start) : x.Holds opened x' := by
  have hh := Place.Holds.part .self h
  rwa [List.append_nil] at hh

/-- A call for a part of the code. -/
lemma asked_part {x x' : Place} {t : Task} {mode : Mode} (hx : c.task.place? = some x)
    (ht : t.place? = some x') (hh : x.Holds [] x') (ha : c.machine.Advances m)
    (hmode : (mode.enter m).scope = m.scope) : Asked c ⟨steps, t, mode.enter m⟩ := by
  refine .part hx ht hh ?_ (hmode.trans ha.scope_eq)
  rw [mode.enter_store]
  exact ha.grows

lemma exists_of_getter? {s : Store} {value : Value} {g : Getter} (h : s.getter? value = some g) :
    ∃ id : CallableId, s.callables[id]? = some (.getter g) := by
  unfold Store.getter? at h
  split at h
  · split at h
    · next g' hk =>
      obtain rfl : g' = g := by simpa using h
      exact ⟨_, hk⟩
    · cases h
  · cases h

lemma exprPlan_acts (e : Expr) (m : Machine) :
    (Task.exprPlan e).Does (Task.perform steps) (Act ⟨steps + 1, .expr e, m⟩)
      (fun t m' => Asked ⟨steps + 1, .expr e, m⟩ ⟨steps, t, m'⟩) m := by
  have hstart : m.Advances m := .refl m
  have same : ∀ {s : Store}, Act ⟨steps + 1, .expr e, m⟩ s s := .of_eq rfl
  cases e with
  | literal value => exact trivial
  | grouping inner =>
    exact Plan.does_tail (asked_part rfl rfl (holds_part List.mem_cons_self) hstart rfl)
  | unary operator operand =>
    refine ⟨asked_part rfl rfl (holds_part List.mem_cons_self) hstart rfl, fun v after _ _ => ?_⟩
    exact Plan.does_only (.of_eq (by rw [after_ofExcept]))
  | binary left operator right =>
    refine ⟨asked_part rfl rfl (holds_part List.mem_cons_self) hstart rfl, fun a after _ ha => ?_⟩
    refine ⟨asked_part rfl rfl (holds_part (List.mem_cons_of_mem _ List.mem_cons_self)) ha rfl,
      fun c after' _ _ => ?_⟩
    exact Plan.does_of_ok rfl same (Plan.does_only (.of_eq (by rw [after_ofExcept])))
  | logical left operator right =>
    refine ⟨asked_part rfl rfl (holds_part List.mem_cons_self) hstart rfl, fun a after _ ha => ?_⟩
    have hr : (Place.expr (.logical left operator right)).Holds [] (.expr right) :=
      holds_part (List.mem_cons_of_mem _ List.mem_cons_self)
    dsimp only
    split_ifs
    · exact trivial
    · exact Plan.does_tail (asked_part rfl rfl hr ha rfl)
    · exact ⟨asked_part rfl rfl hr ha rfl, fun _ _ _ _ => trivial⟩
    · exact trivial
  | ternary condition first second =>
    refine ⟨asked_part rfl rfl (holds_part List.mem_cons_self) hstart rfl, fun a after _ ha => ?_⟩
    dsimp only
    split
    · exact Plan.does_tail
        (asked_part rfl rfl (holds_part (List.mem_cons_of_mem _ List.mem_cons_self)) ha rfl)
    · exact Plan.does_tail (asked_part rfl rfl
        (holds_part (List.mem_cons_of_mem _ (List.mem_cons_of_mem _ List.mem_cons_self))) ha rfl)
  | name id name => exact Plan.does_only (.of_eq (congrArg _ (after_ofExcept _ _ m)))
  | assign id name value =>
    refine ⟨asked_part rfl rfl (holds_part List.mem_cons_self) hstart rfl, fun v after _ _ => ?_⟩
    exact ⟨act_writeVariable rfl v, fun _ _ _ => trivial⟩
  | call callee paren arguments =>
    refine ⟨asked_part rfl rfl (holds_part List.mem_cons_self) hstart rfl, fun v after _ ha => ?_⟩
    refine ⟨asked_part rfl rfl (holds_part (List.mem_cons_of_mem _ List.mem_cons_self)) ha rfl,
      fun vs after' _ _ => ?_⟩
    exact Plan.does_tail (.value rfl)
  | get object name =>
    refine ⟨asked_part rfl rfl (holds_part List.mem_cons_self) hstart rfl, fun v after _ _ => ?_⟩
    refine ⟨act_readProperty v name, fun property after' _ => ?_⟩
    refine Plan.does_of_ok rfl same ?_
    split
    · next g hg =>
      obtain ⟨id, hk⟩ := exists_of_getter? hg
      exact ⟨.getter id rfl hk, fun _ _ _ _ => trivial⟩
    · exact trivial
  | nilGet object name =>
    refine ⟨asked_part rfl rfl (holds_part List.mem_cons_self) hstart rfl, fun v after _ _ => ?_⟩
    cases v with
    | nil => exact trivial
    | _ => exact Plan.does_only (act_readProperty _ name)
  | set object name value =>
    refine ⟨asked_part rfl rfl (holds_part List.mem_cons_self) hstart rfl, fun v after _ ha => ?_⟩
    cases v with
    | instanceRef i =>
      refine ⟨asked_part rfl rfl (holds_part (List.mem_cons_of_mem _ List.mem_cons_self)) ha rfl,
        fun v after' _ _ => ?_⟩
      exact Plan.does_of_ok rfl (.field i v rfl) trivial
    | _ => exact Plan.does_only same
  | this id keyword => exact Plan.does_only (.of_eq (congrArg _ (after_ofExcept _ _ m)))
  | super id keyword method => exact Plan.does_only (act_readSuper id keyword method)
  | lambda declaration =>
    refine Plan.does_only (.closure (.refl _) ⟨?_, rfl, .inl ⟨declaration, rfl⟩⟩ rfl
      (holds_part List.mem_cons_self) rfl ?_)
    · exact Nat.succ_ne_zero steps
    · rintro f ⟨⟩
      rfl

/-! ### Calls -/

lemma exprsPlan_acts (es : List Expr) (m : Machine) :
    (Task.exprsPlan es).Does (Task.perform steps) (Act ⟨steps + 1, .exprs es, m⟩)
      (fun t m' => Asked ⟨steps + 1, .exprs es, m⟩ ⟨steps, t, m'⟩) m := by
  cases es with
  | nil => exact trivial
  | cons e es =>
    refine ⟨asked_part rfl rfl (holds_part List.mem_cons_self) (.refl m) rfl,
      fun _ after _ ha => ?_⟩
    exact ⟨asked_part rfl rfl (holds_part (List.mem_cons_of_mem _ List.mem_cons_self)) ha rfl,
      fun _ _ _ _ => trivial⟩

lemma callPlan_acts (callee : Value) (line : Nat) (arguments : List Value) (m : Machine) :
    (Task.callPlan callee line arguments).Does (Task.perform steps)
      (Act ⟨steps + 1, .call callee line arguments, m⟩)
      (fun t m' => Asked ⟨steps + 1, .call callee line arguments, m⟩ ⟨steps, t, m'⟩) m := by
  have same : ∀ {s : Store}, Act ⟨steps + 1, .call callee line arguments, m⟩ s s := .of_eq rfl
  refine Plan.does_of_ok rfl same ?_
  cases callee with
  | callable id =>
    dsimp only
    cases hk : m.store.callables[id]? with
    | none => exact Plan.does_only same
    | some k =>
      dsimp only
      split_ifs with ha
      · exact Plan.does_tail (.callable id rfl hk ha)
      · exact Plan.does_only same
  | classRef id =>
    dsimp only
    split_ifs with ha
    · exact Plan.does_tail (.construct rfl ha)
    · exact Plan.does_only same
  | _ => exact Plan.does_only same

lemma callablePlan_acts (k : Callable) (arguments : List Value) (m : Machine) :
    (Task.callablePlan k arguments).Does (Task.perform steps)
      (Act ⟨steps + 1, .callable k arguments, m⟩)
      (fun t m' => Asked ⟨steps + 1, .callable k arguments, m⟩ ⟨steps, t, m'⟩) m := by
  cases k with
  | function f => exact Plan.does_tail (.runFunction rfl rfl rfl)
  | getter g => exact Plan.does_tail (.runGetter rfl rfl rfl)
  | builtin builtin => exact Plan.does_only (.of_quiet (builtin.run_quiet arguments) m)
  | hostMethod method receiver =>
    exact Plan.does_only (.of_quiet (method.run_quiet receiver arguments) m)

lemma functionPlan_acts (f : Function) (arguments : List Value) (m : Machine) :
    (Task.functionPlan f arguments).Does (Task.perform steps)
      (Act ⟨steps + 1, .function f arguments, m⟩)
      (fun t m' => Asked ⟨steps + 1, .function f arguments, m⟩ ⟨steps, t, m'⟩) m := by
  refine Plan.does_of_ok rfl (.call f.closure (.inr ⟨f, arguments, rfl, rfl⟩))
    ⟨?_, fun completion after _ _ => ?_⟩
  · exact .body rfl rfl (holds_part List.mem_cons_self)
      (m.store.grows_openFrame _ _ _) (Store.frames_openFrame m.store _ _ _)
  · refine ⟨.of_eq (by rw [after_resultOf]), fun result after' _ => ?_⟩
    split_ifs
    · exact Plan.does_of_ok rfl (.of_eq rfl) (Plan.does_only (.of_eq (by rw [after_ofExcept])))
    · exact trivial

lemma getterPlan_acts (g : Getter) (m : Machine) :
    (Task.getterPlan g).Does (Task.perform steps) (Act ⟨steps + 1, .getter g, m⟩)
      (fun t m' => Asked ⟨steps + 1, .getter g, m⟩ ⟨steps, t, m'⟩) m := by
  refine Plan.does_of_ok rfl (.call g.closure (.inl rfl)) ⟨?_, fun completion after _ _ => ?_⟩
  · exact .body rfl rfl (holds_part List.mem_cons_self)
      (m.store.grows_openFrame _ _ _) (Store.frames_openFrame m.store _ _ _)
  · exact Plan.does_only (.of_eq (by rw [after_resultOf]))

lemma constructPlan_acts (id : ClassId) (arguments : List Value) (m : Machine) :
    (Task.constructPlan id arguments).Does (Task.perform steps)
      (Act ⟨steps + 1, .construct id arguments, m⟩)
      (fun t m' => Asked ⟨steps + 1, .construct id arguments, m⟩ ⟨steps, t, m'⟩) m := by
  refine Plan.does_of_ok rfl (.of_eq rfl) ?_
  cases hhost : (m.store.classes[id]?).bind Class.host with
  | some host => exact Plan.does_only (.of_quiet (host.construct_quiet id arguments) m)
  | none =>
    refine Plan.does_of_ok rfl (.aside (m.store.grows_addInstance _) rfl rfl rfl
      (m.store.field?_addInstance id none)) ?_
    cases hinit : m.store.findMethod? id Store.initializerName with
    | none => exact trivial
    | some initializer =>
      refine Plan.does_of_ok rfl (.receiver initializer.closure (.inl ⟨_, rfl⟩)) ?_
      refine ⟨.initializer rfl hhost hinit rfl ?_, fun _ _ _ _ => trivial⟩
      exact Store.bindsMember_of_findMethod? (s := (m.store.addInstance ⟨id, [], none⟩).2) hinit _

/-! ### Statements -/

lemma stmtPlan_acts (s : Stmt) (m : Machine) :
    (Task.stmtPlan s).Does (Task.perform steps) (Act ⟨steps + 1, .stmt s, m⟩)
      (fun t m' => Asked ⟨steps + 1, .stmt s, m⟩ ⟨steps, t, m'⟩) m := by
  have hstart : m.Advances m := .refl m
  have same : ∀ {store : Store}, Act ⟨steps + 1, .stmt s, m⟩ store store := .of_eq rfl
  cases s with
  | expression value =>
    exact ⟨asked_part rfl rfl (holds_part List.mem_cons_self) hstart rfl, fun _ _ _ _ => trivial⟩
  | print keyword value =>
    refine ⟨asked_part rfl rfl (holds_part List.mem_cons_self) hstart rfl, fun v after _ _ => ?_⟩
    refine Plan.does_of_ok rfl same ⟨.of_eq ?_, fun _ _ _ => trivial⟩
    exact store_after_print _ _ _
  | var name initializer =>
    cases initializer with
    | none => exact Plan.does_of_ok rfl same (Plan.does_of_ok rfl (.write m.scope none rfl) trivial)
    | some value =>
      refine ⟨asked_part rfl rfl (holds_part List.mem_cons_self) hstart rfl,
        fun v after _ _ => ?_⟩
      exact Plan.does_of_ok rfl (.write _ (some v) rfl) trivial
  | block body =>
    refine Plan.does_of_ok rfl same (Plan.does_of_ok rfl (.block m.scope) ?_)
    refine ⟨.block rfl rfl (holds_part List.mem_cons_self)
      (m.store.grows_openFrame _ _ _) ?_, fun _ _ _ _ => trivial⟩
    exact Store.frames_openFrame m.store _ _ _
  | function declaration =>
    refine Plan.does_of_ok rfl (.closure (.refl _) ⟨?_, rfl, .inr (.inl ⟨declaration, rfl⟩)⟩ rfl
      (holds_part List.mem_cons_self) rfl ?_) ?_
    · exact Nat.succ_ne_zero steps
    · rintro f ⟨⟩
      rfl
    · exact Plan.does_of_ok rfl (.write m.scope _ rfl) trivial
  | getter declaration =>
    refine Plan.does_of_ok rfl (.closure (.refl _) ⟨?_, rfl, .inr (.inr ⟨declaration, rfl⟩)⟩ rfl
      (holds_part List.mem_cons_self) rfl nofun) ?_
    · exact Nat.succ_ne_zero steps
    · exact Plan.does_of_ok rfl (.write m.scope _ rfl) trivial
  | classDecl name superclass methods getters =>
    cases superclass with
    | none => exact ⟨act_declareClass rfl hstart nofun, fun _ _ _ => trivial⟩
    | some superclass =>
      refine ⟨asked_part rfl rfl (holds_part List.mem_cons_self) hstart rfl,
        fun v after ho ha => ?_⟩
      cases v with
      | classRef id =>
        refine ⟨act_declareClass rfl ha ?_, fun _ _ _ => trivial⟩
        rintro _ ⟨⟩
        exact ⟨steps, name, superclass, methods, getters, after, rfl, rfl, ho, rfl, rfl⟩
      | _ => exact Plan.does_only same
  | ifStmt condition consequent alternative =>
    cases alternative with
    | none =>
      refine ⟨asked_part rfl rfl (holds_part List.mem_cons_self) hstart rfl,
        fun v after _ ha => ?_⟩
      dsimp only
      split_ifs
      · exact Plan.does_tail
          (asked_part rfl rfl (holds_part (List.mem_cons_of_mem _ List.mem_cons_self)) ha rfl)
      · exact trivial
    | some other =>
      refine ⟨asked_part rfl rfl (holds_part List.mem_cons_self) hstart rfl,
        fun v after _ ha => ?_⟩
      dsimp only
      split_ifs
      · exact Plan.does_tail
          (asked_part rfl rfl (holds_part (List.mem_cons_of_mem _ List.mem_cons_self)) ha rfl)
      · exact Plan.does_tail (asked_part rfl rfl
          (holds_part (List.mem_cons_of_mem _ (List.mem_cons_of_mem _ List.mem_cons_self))) ha rfl)
  | whileStmt condition body => exact Plan.does_tail (asked_part rfl rfl .self hstart rfl)
  | breakStmt keyword => exact trivial
  | returnStmt keyword value =>
    cases value with
    | none => exact trivial
    | some value =>
      exact ⟨asked_part rfl rfl (holds_part List.mem_cons_self) hstart rfl, fun _ _ _ _ => trivial⟩

lemma loopPlan_acts (condition : Expr) (body : Stmt) (m : Machine) :
    (Task.loopPlan condition body).Does (Task.perform steps)
      (Act ⟨steps + 1, .loop condition body, m⟩)
      (fun t m' => Asked ⟨steps + 1, .loop condition body, m⟩ ⟨steps, t, m'⟩) m := by
  refine ⟨asked_part rfl rfl (holds_part List.mem_cons_self) (.refl m) rfl,
    fun v after _ ha => ?_⟩
  dsimp only
  split_ifs
  · refine ⟨asked_part rfl rfl (holds_part (List.mem_cons_of_mem _ List.mem_cons_self)) ha rfl,
      fun completion after' _ ha' => ?_⟩
    cases completion with
    | normal => exact Plan.does_tail (asked_part rfl rfl .self (ha.trans ha') rfl)
    | broke => exact trivial
    | returned value => exact trivial
  · exact trivial

lemma stmtsPlan_acts (ss : List Stmt) (m : Machine) :
    (Task.stmtsPlan ss).Does (Task.perform steps) (Act ⟨steps + 1, .stmts ss, m⟩)
      (fun t m' => Asked ⟨steps + 1, .stmts ss, m⟩ ⟨steps, t, m'⟩) m := by
  cases ss with
  | nil => exact trivial
  | cons s ss =>
    refine ⟨asked_part rfl rfl (holds_part List.mem_cons_self) (.refl m) rfl,
      fun completion after _ ha => ?_⟩
    cases completion with
    | normal =>
      exact Plan.does_tail
        (asked_part rfl rfl (holds_part (List.mem_cons_of_mem _ List.mem_cons_self)) ha rfl)
    | broke => exact trivial
    | returned value => exact trivial

end

/-- All that a call does by itself. -/
theorem Call.acts (c : Call) : c.Does (Act c) (Asked c) := by
  obtain ⟨steps, t, m⟩ := c
  rintro steps rfl
  cases t with
  | expr e => exact exprPlan_acts e m
  | exprs es => exact exprsPlan_acts es m
  | call callee line arguments => exact callPlan_acts callee line arguments m
  | callable k arguments => exact callablePlan_acts k arguments m
  | function f arguments => exact functionPlan_acts f arguments m
  | getter g => exact getterPlan_acts g m
  | construct id arguments => exact constructPlan_acts id arguments m
  | stmt s => exact stmtPlan_acts s m
  | loop condition body => exact loopPlan_acts condition body m
  | stmts ss => exact stmtsPlan_acts ss m

end Eval

end Scripting
