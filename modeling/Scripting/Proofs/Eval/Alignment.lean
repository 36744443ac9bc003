import Scripting.Proofs.Eval.Faults
import Scripting.Proofs.Eval.Flow
import Scripting.Proofs.Store.Alignment

/-!
# Evaluation keeps frames aligned

`siteLaw` says of every call of a run that its code stands somewhere in the programs, in scopes that
the frames of the current scope fit. While the initializer of a variable is evaluated, the variable
is pending; where a call stops inside of an initializer, it stays so. An access to a pending
variable that its frame does not have is *premature*: it is the only way to an internal fault.
-/

namespace Scripting

namespace Eval

open Resolution

namespace Call

/-- A call executes the declaration of a variable of a frame, with an initializer. All that it calls
is the evaluation of the initializer. -/
def Begins (c : Call) (f : FrameId) (name : String) : Prop :=
  ∃ (token : Token) (value : Expr), c.task = .stmt (.var token (some value)) ∧ token.IsName ∧
    token.lexeme = name ∧ c.machine.scope = f

/-- A call evaluates a reference that reads or assigns a variable of a frame, and does so on a
machine: a read does at once, an assignment when it has its value. -/
inductive Accesses (c : Call) : FrameId → String → Machine → Prop
  | read {steps : Nat} {id : NodeId} {token : Token} {distance : Nat} {f : FrameId} :
    c.steps = steps + 1 → c.task = .expr (.name id token) →
      c.machine.distances.get? id = some distance →
        (c.machine.store.chain c.machine.scope)[distance]? = some f →
          Accesses c f token.lexeme c.machine
  | write {steps : Nat} {id : NodeId} {token : Token} {value : Expr} {v : Value}
      {after : Machine} {distance : Nat} {f : FrameId} :
    c.steps = steps + 1 → c.task = .expr (.assign id token value) →
      c.machine.distances.get? id = some distance →
        (c.machine.store.chain c.machine.scope)[distance]? = some f →
          evaluate steps value c.machine = .ok v after → Accesses c f token.lexeme after

/-- A call accesses a variable that its frame does not have. -/
def Premature (c : Call) (f : FrameId) (name : String) : Prop :=
  ∃ m, c.Accesses f name m ∧ m.store.slot? f name = none

/-- The causes of which a call may stop by itself. -/
def MayFail (c : Call) (cause : Cause) : Prop :=
  cause.Ordinary ∨ ∃ f name, c.Premature f name ∧ cause = .noBinding name 0

end Call

/-- What a run builds on: the programs that were accepted so far, itself included, the table with
their distances, and the variables whose declaration was begun in an earlier run and has not been
completed. -/
structure Background where
  programs : List Program
  table : Distances
  begun : FrameId → String → Prop
  accepted : ∀ p ∈ programs, p.Accepted table
  ofWord_eq : ∀ f name, begun f name → TokenKind.ofWord name = .identifier

namespace Background

/-- Variables that were begun before, or whose initializer is being evaluated. -/
def Pending (b : Background) (trail : List Call) (f : FrameId) (name : String) : Prop :=
  b.begun f name ∨ ∃ v ∈ trail, v.Begins f name

variable {b : Background} {trail : List Call}

lemma Pending.cons {f : FrameId} {name : String} (h : b.Pending trail f name) (c : Call) :
    b.Pending (c :: trail) f name := by
  rcases h with hb | ⟨v, hv, hn⟩
  · exact .inl hb
  · exact .inr ⟨v, List.mem_cons_of_mem _ hv, hn⟩

lemma Pending.of_cons {c : Call} {f : FrameId} {name : String}
    (h : b.Pending (c :: trail) f name) : c.Begins f name ∨ b.Pending trail f name := by
  rcases h with hb | ⟨v, hv, hn⟩
  · exact .inr (.inl hb)
  · rcases List.mem_cons.mp hv with rfl | hv
    · exact .inl hn
    · exact .inr (.inr ⟨v, hv, hn⟩)

/-- A call that begins no declaration leaves pending what is. -/
lemma pending_cons {c : Call} (hc : ∀ f name, ¬ c.Begins f name) :
    b.Pending (c :: trail) = b.Pending trail := by
  funext f name
  apply propext
  constructor
  · intro h
    rcases h.of_cons with hn | h
    · exact absurd hn (hc f name)
    · exact h
  · exact fun h => h.cons c

/-- Only identifiers are pending. -/
lemma Pending.ofWord_eq {f : FrameId} {name : String} (h : b.Pending trail f name) :
    TokenKind.ofWord name = .identifier := by
  rcases h with hb | ⟨v, -, token, value, -, hn, rfl, -⟩
  · exact b.ofWord_eq f name hb
  · exact hn.ofWord_eq

lemma not_pending_this {f : FrameId} : ¬ b.Pending trail f "this" :=
  fun h => TokenKind.ofWord_this_ne h.ofWord_eq

lemma not_pending_super {f : FrameId} : ¬ b.Pending trail f "super" :=
  fun h => TokenKind.ofWord_super_ne h.ofWord_eq

/-- A machine on which the programs can run. -/
structure Carries (b : Background) (trail : List Call) (m : Machine) : Prop where
  distances_eq : m.distances = b.table
  sited : m.store.Sited b.programs (b.Pending trail)

lemma Carries.advance {m m' : Machine} (h : b.Carries trail m) (ha : m.Advances m')
    (hs : m'.store.Sited b.programs (b.Pending trail)) : b.Carries trail m' :=
  ⟨ha.distances_eq.trans h.distances_eq, hs⟩

end Background

/-- An expression may be evaluated in a frame. The name of a superclass is looked for when that of
the class itself has not come in yet. -/
def StandsExpr (programs : List Program) (pending : FrameId → String → Prop) (s : Store)
    (f : FrameId) (e : Expr) : Prop :=
  ∃ p ∈ programs, ∃ ks r scopes, Located p ks r (.expr e) ∧
    s.Aligned pending (s.chain f) ks scopes ∧
    (r.scopes = scopes ∨ ∃ id token name, e = .name id token ∧ token.lexeme ≠ name ∧
      r.scopes = introduceScope scopes name)

/-- What a task needs: its code stands somewhere, and there are as many arguments as parameters. -/
def Task.Ready (programs : List Program) (pending : FrameId → String → Prop) (m : Machine) :
    Task → Prop
  | .expr e => StandsExpr programs pending m.store m.scope e
  | .exprs es => m.store.Stands programs pending m.scope (.exprs es)
  | .call _ _ _ => True
  | .callable k arguments =>
    m.store.StandsCallable programs pending k ∧ arguments.length = k.arity
  | .function f arguments =>
    m.store.StandsCallable programs pending (.function f) ∧
      arguments.length = f.declaration.params.length
  | .getter g => m.store.StandsCallable programs pending (.getter g)
  | .construct c arguments => arguments.length = m.store.classArity c
  | .stmt s => m.store.Stands programs pending m.scope (.stmt s)
  | .loop condition body =>
    m.store.Stands programs pending m.scope (.expr condition) ∧
      m.store.Stands programs pending m.scope (.stmt body)
  | .stmts ss => m.store.Stands programs pending m.scope (.stmts ss)

/-- What a task leaves: a statement that completes has declared its name. -/
def Task.Declares (scope : FrameId) (after : Store) : (t : Task) → t.Result → Prop
  | .stmt s, .normal => ∀ name, s.declared? = some name →
    (after.slot? scope name.lexeme).isSome
  | _, _ => True

/-- Every call finds its code where it stands, with frames that fit the scopes there. -/
def siteLaw (b : Background) : Law where
  ready := fun trail c =>
    b.Carries trail c.machine ∧ c.task.Ready b.programs (b.Pending trail) c.machine
  done := fun trail c r after =>
    after.store.Sited b.programs (b.Pending trail) ∧ c.task.Declares c.machine.scope after.store r
  stopped := fun trail c stop after =>
    after.store.Sited b.programs (b.Pending trail) ∧
      ∀ fault, stop = .fault fault → c.MayFail fault.cause

/-! ### Single steps -/

section

variable {b : Background} {steps : Nat} {trail : List Call} {α : Type}
  {result : α → Machine → Prop} {halt : Stop → Machine → Prop} {c : Call} {m : Machine}

lemma stopped_of_ordinary {cause : Cause} {line : Nat}
    (hs : m.store.Sited b.programs (b.Pending trail)) (hc : cause.Ordinary) :
    (siteLaw b).stopped trail c (.fault ⟨cause, line⟩) m := by
  refine ⟨hs, fun fault hf => .inl ?_⟩
  cases hf
  exact hc

/-- A call keeps the law if its task is ready and so is what comes then. -/
lemma keeps_call {mode : Mode} {t : Task} {next : t.Result → Plan α} (hm : b.Carries trail m)
    (hr : t.Ready b.programs (b.Pending trail) (mode.enter m))
    (hn : ∀ r after, t.perform steps (mode.enter m) = .ok r after →
      m.Advances (mode.leave m after) → b.Carries trail (mode.leave m after) →
        t.Declares (mode.enter m).scope after.store r → t.Flows r →
          (next r).Keeps (siteLaw b) steps trail result halt (mode.leave m after)) :
    (Plan.call mode t next).Keeps (siteLaw b) steps trail result halt m := by
  refine ⟨⟨⟨?_, ?_⟩, hr⟩, fun r after hp hd => ?_⟩
  · rw [Mode.enter_distances, hm.distances_eq]
  · rw [Mode.enter_store]
    exact hm.sited
  · have ha : m.Advances (mode.leave m after) := Task.advances_leave hp
    refine hn r after hp ha (hm.advance ha ?_) hd.2 (Task.flows hp)
    rw [Mode.leave_store]
    exact hd.1

/-- Everything that is asked of a call at the end of a plan. -/
lemma keeps_tail {t : Task} {result : t.Result → Machine → Prop} (hm : b.Carries trail m)
    (hr : t.Ready b.programs (b.Pending trail) m)
    (hd : ∀ r after, b.Carries trail after → t.Declares m.scope after.store r →
      result r after) :
    (Plan.tail t).Keeps (siteLaw b) steps trail result halt m :=
  keeps_call hm hr fun r after _ _ hc hd' _ => hd r after hc hd'

lemma readProperty_instanceRef (i : InstanceId) (name : Token) (m : Machine) :
    readProperty (.instanceRef i) name m =
      Exec.ofExcept name.line (m.store.property i name.lexeme).1
        { m with store := (m.store.property i name.lexeme).2 } :=
  rfl

lemma keeps_readProperty {object : Value} {name : Token} {next : Value → Plan α}
    (hm : b.Carries trail m)
    (hn : ∀ value after, m.Advances after → b.Carries trail after →
      (next value).Keeps (siteLaw b) steps trail result ((siteLaw b).stopped trail c) after) :
    (Plan.act (readProperty object name) next).Keeps (siteLaw b) steps trail result
      ((siteLaw b).stopped trail c) m := by
  have ha := readProperty_advances object name
  cases object with
  | instanceRef i =>
    have hs := hm.sited.property i name.lexeme
    cases ho : (m.store.property i name.lexeme).1 with
    | ok value =>
      have he : readProperty (.instanceRef i) name m =
          .ok value { m with store := (m.store.property i name.lexeme).2 } := by
        rw [readProperty_instanceRef, ho]
        rfl
      exact Plan.keeps_of_ok he (hn value _ (ha.of_ok he) (hm.advance (ha.of_ok he) hs))
    | error cause =>
      have he : readProperty (.instanceRef i) name m =
          .error (.fault ⟨cause, name.line⟩)
            { m with store := (m.store.property i name.lexeme).2 } := by
        rw [readProperty_instanceRef, ho]
        rfl
      exact Plan.keeps_of_error he (stopped_of_ordinary hs (ordinary_of_property ho))
  | _ => exact Plan.keeps_of_error rfl (stopped_of_ordinary hm.sited (by decide))

lemma keeps_quiet {x : Exec α} (hx : x.Quiet) (hm : b.Carries trail m)
    (hr : ∀ a after, b.Carries trail after → result a after) :
    (Plan.only x).Keeps (siteLaw b) steps trail result halt m := by
  obtain ⟨a, m', he, hq⟩ := hx m
  have hs : m'.store.Sited b.programs (b.Pending trail) :=
    hm.sited.congr hq.grows hq.frames_eq hq.callables_eq hq.classes_eq
  exact Plan.keeps_of_ok he (hr a m' (hm.advance hq.toAdvances hs))

/-! ### References -/

lemma findIdx?_introduceScope {name other : String} (h : other ≠ name) (scopes : List Scope) :
    (introduceScope scopes name).findIdx? (Record.has · other) =
      scopes.findIdx? (Record.has · other) := by
  cases scopes with
  | nil => rfl
  | cons scope rest => simp [introduceScope, List.findIdx?_cons, h]

/-- The distance of a reference leads to the innermost scope with its name. -/
lemma StandsExpr.get?_eq {pending : FrameId → String → Prop} {s : Store} {f : FrameId} {e : Expr}
    (h : StandsExpr b.programs pending s f e) {id : NodeId} {token : Token}
    (hr : e.reference? = some (id, token)) :
    ∃ ks scopes, s.Aligned pending (s.chain f) ks scopes ∧
      b.table.get? id = scopes.findIdx? (Record.has · token.lexeme) := by
  obtain ⟨p, hp, ks, r, scopes, hl, ha, hs⟩ := h
  have hd := (hl.site (b.accepted p hp)).get?_eq hr
  refine ⟨ks, scopes, ha, hd.trans ?_⟩
  rcases hs with hs | ⟨id', token', name, rfl, hn, hs⟩
  · rw [distance?, hs]
  · obtain ⟨rfl, rfl⟩ : id' = id ∧ token' = token := by simpa [Expr.reference?] using hr
    rw [distance?, hs, findIdx?_introduceScope hn]

/-- At the distance of a reference is a frame that has the variable, unless that is pending. -/
lemma StandsExpr.getElem? {e : Expr} (h : StandsExpr b.programs (b.Pending trail) m.store m.scope e)
    (hm : b.Carries trail m) {id : NodeId} {token : Token} {distance : Nat}
    (hr : e.reference? = some (id, token)) (hd : m.distances.get? id = some distance) :
    ∃ f, (m.store.chain m.scope)[distance]? = some f ∧
      ((m.store.slot? f token.lexeme).isSome ∨ b.Pending trail f token.lexeme) := by
  obtain ⟨ks, scopes, ha, hg⟩ := h.get?_eq hr
  rw [hm.distances_eq, hg] at hd
  obtain ⟨f, kind, hf, -, hb⟩ := ha.getElem?_of_distance hd
  exact ⟨f, hf, hb⟩

/-- The frame in which a reference assigns: at its distance, or else that of the globals. -/
def variableFrame (m : Machine) (id : NodeId) (name : String) : Except Cause FrameId :=
  match m.distances.get? id with
  | some distance => m.store.locateAt m.scope distance name
  | none => m.store.locate Machine.globals name

/-- The value that a reference reads: at its distance, or else that of the globals. -/
def variableValue (m : Machine) (id : NodeId) (name : String) : Except Cause Value :=
  match m.distances.get? id with
  | some distance => m.store.getAt m.scope distance name
  | none => m.store.get Machine.globals name

lemma readVariable_apply (id : NodeId) (token : Token) (m : Machine) :
    readVariable id token m = Exec.ofExcept token.line (variableValue m id token.lexeme) m :=
  rfl

lemma writeVariable_of_ok {id : NodeId} {token : Token} {f : FrameId}
    (h : variableFrame m id token.lexeme = .ok f) (value : Value) :
    writeVariable id token value m =
      .ok () { m with store := m.store.define f token.lexeme value } := by
  change (Exec.ofExcept token.line (variableFrame m id token.lexeme) >>= _) m = _
  rw [h]
  rfl

lemma writeVariable_of_error {id : NodeId} {token : Token} {cause : Cause}
    (h : variableFrame m id token.lexeme = .error cause) (value : Value) :
    writeVariable id token value m = .error (.fault ⟨cause, token.line⟩) m := by
  change (Exec.ofExcept token.line (variableFrame m id token.lexeme) >>= _) m = _
  rw [h]
  rfl

section

variable {id : NodeId} {name : String} {distance : Nat} {f : FrameId}
  (hd : m.distances.get? id = some distance)
  (hf : (m.store.chain m.scope)[distance]? = some f)

include hd hf

/-- A reference with a distance is about the frame there, and about none if that does not have the
variable. -/
lemma variableFrame_of_distance :
    variableFrame m id name =
      if (m.store.slot? f name).isSome then .ok f else .error (.noBinding name 0) := by
  simp only [variableFrame, hd, Store.locateAt, hf]

lemma variableValue_of_distance :
    variableValue m id name =
      (m.store.slot? f name).elim (.error (.noBinding name 0)) Store.readSlot := by
  simp only [variableValue, hd, Store.getAt, hf]
  cases m.store.slot? f name with
  | none => rfl
  | some slot => rfl

end

lemma keeps_readVariable {result : Value → Machine → Prop} {e : Expr} {id : NodeId}
    {token : Token} (hm : b.Carries trail m)
    (hs : StandsExpr b.programs (b.Pending trail) m.store m.scope e)
    (hr : e.reference? = some (id, token)) (hd : ∀ value, result value m)
    (hfail : ∀ distance f, m.distances.get? id = some distance →
      (m.store.chain m.scope)[distance]? = some f → m.store.slot? f token.lexeme = none →
        b.Pending trail f token.lexeme → c.MayFail (.noBinding token.lexeme 0)) :
    (Plan.only (readVariable id token)).Keeps (siteLaw b) steps trail result
      ((siteLaw b).stopped trail c) m := by
  refine Plan.Keeps.congr (Plan.keeps_ofExcept (fun value _ => hd value) ?_)
    (readVariable_apply id token m)
  intro cause hc
  cases hg : m.distances.get? id with
  | none =>
    rw [variableValue, hg] at hc
    exact stopped_of_ordinary hm.sited (ordinary_of_get hc)
  | some distance =>
    obtain ⟨f, hf, hb⟩ := hs.getElem? hm hr hg
    rw [variableValue_of_distance hg hf] at hc
    cases hslot : m.store.slot? f token.lexeme with
    | some slot =>
      rw [hslot] at hc
      exact stopped_of_ordinary hm.sited (ordinary_of_readSlot hc)
    | none =>
      rw [hslot] at hc hb
      cases hc
      refine ⟨hm.sited, fun fault he => ?_⟩
      cases he
      exact hfail distance f hg hf hslot (by simpa using hb)

lemma keeps_writeVariable {e : Expr} {id : NodeId} {token : Token} {value : Value}
    {next : Unit → Plan α} (hm : b.Carries trail m)
    (hs : StandsExpr b.programs (b.Pending trail) m.store m.scope e)
    (hr : e.reference? = some (id, token)) (hname : token.IsName)
    (hn : ∀ after, b.Carries trail after →
      (next ()).Keeps (siteLaw b) steps trail result ((siteLaw b).stopped trail c) after)
    (hfail : ∀ distance f, m.distances.get? id = some distance →
      (m.store.chain m.scope)[distance]? = some f → m.store.slot? f token.lexeme = none →
        c.MayFail (.noBinding token.lexeme 0)) :
    (Plan.act (writeVariable id token value) next).Keeps (siteLaw b) steps trail result
      ((siteLaw b).stopped trail c) m := by
  -- the frame is found first, and then only the write is left
  cases hl : variableFrame m id token.lexeme with
  | ok f =>
    have he := writeVariable_of_ok hl value
    exact Plan.keeps_of_ok he (hn _ (hm.advance
      ((writeVariable_advances id token value).of_ok he) (hm.sited.setSlot f hname.ne_super _)))
  | error cause =>
    refine Plan.keeps_of_error (writeVariable_of_error hl value) ⟨hm.sited, fun fault hf => ?_⟩
    cases hf
    cases hg : m.distances.get? id with
    | none =>
      rw [variableFrame, hg] at hl
      exact .inl (ordinary_of_locate hl)
    | some distance =>
      obtain ⟨f, hf, -⟩ := hs.getElem? hm hr hg
      rw [variableFrame_of_distance hg hf] at hl
      split at hl
      · cases hl
      · next hslot =>
        cases hl
        exact hfail distance f hg hf (by simpa using hslot)

/-- A `super` finds a class and, one frame further in, a receiver. -/
lemma StandsExpr.getAt_super {id : NodeId} {keyword method : Token}
    (h : StandsExpr b.programs (b.Pending trail) m.store m.scope (.super id keyword method))
    (hm : b.Carries trail m) :
    ∃ distance superclass, m.distances.get? id = some (distance + 1) ∧
      m.store.getAt m.scope (distance + 1) keyword.lexeme = .ok (.classRef superclass) ∧
      ∀ cause, m.store.getAt m.scope distance "this" = .error cause → cause.Ordinary := by
  obtain ⟨p, hp, ks, r, scopes, hl, ha, hs | ⟨_, _, _, he, -⟩⟩ := h
  · have hsite := hl.site (b.accepted p hp)
    have hkey : keyword.lexeme = "super" := hsite.wellFormed
    obtain ⟨distance, scope, hd, hscope, hthis⟩ := hsite.distance?_super
    have hg : b.table.get? id = r.distance? keyword.lexeme := hsite.get?_eq rfl
    rw [hkey, hd] at hg
    rw [distance?, hs] at hd
    rw [hs] at hscope
    obtain ⟨f, kind, hf, -, hb⟩ := ha.getElem?_of_distance hd
    obtain ⟨f', kind', hf', -, hfits⟩ := ha.getElem? hscope
    obtain ⟨slot, hslot⟩ : ∃ slot, m.store.slot? f "super" = some slot := by
      rcases hb with hb | hb
      · exact Option.isSome_iff_exists.mp hb
      · exact absurd hb Background.not_pending_super
    obtain ⟨superclass, rfl⟩ := hm.sited.super f slot hslot
    refine ⟨distance, superclass, ?_, ?_, ?_⟩
    · rw [hm.distances_eq, hg]
    · simp only [Store.getAt, hf, hkey, hslot]
      rfl
    · intro cause hc
      rcases hfits.has "this" hthis with hb | hb
      · obtain ⟨slot, hslot⟩ := Option.isSome_iff_exists.mp hb
        simp only [Store.getAt, hf', hslot] at hc
        exact ordinary_of_readSlot hc
      · exact absurd hb Background.not_pending_this
  · cases he

section

variable {id : NodeId} {keyword method : Token} {distance : Nat} {superclass : ClassId}
  (hg : m.distances.get? id = some (distance + 1))
  (hsuper : m.store.getAt m.scope (distance + 1) keyword.lexeme = .ok (.classRef superclass))

include hg hsuper

lemma readSuper_of_no_receiver {cause : Cause}
    (ht : m.store.getAt m.scope distance "this" = .error cause) :
    readSuper id keyword method m = .error (.fault ⟨cause, keyword.line⟩) m := by
  simp only [readSuper, Bind.bind, EStateM.bind, Exec.get_apply, hg, hsuper, Exec.ofExcept,
    Pure.pure, EStateM.pure, Nat.add_sub_cancel, ht]
  rfl

variable {receiver : Value} (ht : m.store.getAt m.scope distance "this" = .ok receiver)

include ht

lemma readSuper_of_no_method
    (hfound : m.store.findMethod? superclass method.lexeme = none) :
    readSuper id keyword method m =
      .error (.fault ⟨.undefinedProperty method.lexeme, method.line⟩) m := by
  simp only [readSuper, Bind.bind, EStateM.bind, Exec.get_apply, hg, hsuper, Exec.ofExcept,
    Pure.pure, EStateM.pure, Nat.add_sub_cancel, ht, hfound]
  rfl

lemma readSuper_of_method {function : Function}
    (hfound : m.store.findMethod? superclass method.lexeme = some function) :
    readSuper id keyword method m =
      .ok ((m.store.bindFunction function receiver).2.addFunction
        (m.store.bindFunction function receiver).1).1
        { m with
          store := ((m.store.bindFunction function receiver).2.addFunction
            (m.store.bindFunction function receiver).1).2 } := by
  simp only [readSuper, Bind.bind, EStateM.bind, Exec.get_apply, hg, hsuper, Exec.ofExcept,
    Pure.pure, EStateM.pure, Nat.add_sub_cancel, ht, hfound]
  rfl

end

lemma keeps_readSuper {result : Value → Machine → Prop} {id : NodeId} {keyword method : Token}
    (hm : b.Carries trail m)
    (hs : StandsExpr b.programs (b.Pending trail) m.store m.scope (.super id keyword method))
    (hd : ∀ value after, b.Carries trail after → result value after) :
    (Plan.only (readSuper id keyword method)).Keeps (siteLaw b) steps trail result
      ((siteLaw b).stopped trail c) m := by
  obtain ⟨distance, superclass, hg, hsuper, hthis⟩ := hs.getAt_super hm
  cases ht : m.store.getAt m.scope distance "this" with
  | error cause =>
    exact Plan.keeps_of_error (readSuper_of_no_receiver hg hsuper ht)
      (stopped_of_ordinary hm.sited (hthis cause ht))
  | ok receiver =>
    cases hfound : m.store.findMethod? superclass method.lexeme with
    | none =>
      exact Plan.keeps_of_error (readSuper_of_no_method hg hsuper ht hfound)
        (stopped_of_ordinary hm.sited (Cause.ordinary_undefinedProperty _))
    | some function =>
      have he := readSuper_of_method hg hsuper ht hfound
      have ha := (readSuper_advances id keyword method).of_ok he
      exact Plan.keeps_of_ok he (hd _ _ (hm.advance ha
        (hm.sited.addBound (hm.sited.findMethod? hfound) receiver)))

/-! ### Expressions -/

lemma stands_advance {x : Place} {m' : Machine}
    (h : m.store.Stands b.programs (b.Pending trail) m.scope x) (ha : m.Advances m') :
    m'.store.Stands b.programs (b.Pending trail) m'.scope x := by
  rw [ha.scope_eq]
  exact h.mono ha.grows fun _ _ hp => .inr hp

namespace StandsExpr

variable {programs : List Program} {pending : FrameId → String → Prop} {s : Store} {f : FrameId}
  {e : Expr}

lemma of_stands (h : s.Stands programs pending f (.expr e)) :
    StandsExpr programs pending s f e := by
  obtain ⟨p, hp, ks, r, hl, ha⟩ := h
  exact ⟨p, hp, ks, r, r.scopes, hl, ha, .inl rfl⟩

/-- A part of an expression. -/
lemma part {x : Place} {state : Resolution → Resolution} (h : StandsExpr programs pending s f e)
    (hs : ∀ r, (state r).scopes = r.scopes) (hy : ∀ r, ⟨x, [], state r⟩ ∈ e.parts r) :
    s.Stands programs pending f x := by
  obtain ⟨p, hp, ks, r, scopes, hl, ha, rfl | ⟨id, token, name, rfl, -⟩⟩ := h
  · exact Store.Stands.part ⟨p, hp, ks, r, hl, ha⟩ hs hy
  · simpa [Expr.parts] using hy r

lemma advance {m' : Machine} (h : StandsExpr b.programs (b.Pending trail) m.store m.scope e)
    (ha : m.Advances m') : StandsExpr b.programs (b.Pending trail) m'.store m'.scope e := by
  obtain ⟨p, hp, ks, r, scopes, hl, hal, hs⟩ := h
  refine ⟨p, hp, ks, r, scopes, hl, ?_, hs⟩
  rw [ha.scope_eq]
  exact hal.mono_chain ha.grows fun _ _ hp => .inr hp

lemma isName_of_assign {id : NodeId} {token : Token} {value : Expr}
    (h : StandsExpr b.programs pending s f (.assign id token value)) : token.IsName := by
  obtain ⟨p, hp, ks, r, scopes, hl, -, -⟩ := h
  exact (hl.site (b.accepted p hp)).wellFormed.1

lemma lexeme_of_this {id : NodeId} {keyword : Token}
    (h : StandsExpr b.programs pending s f (.this id keyword)) : keyword.lexeme = "this" := by
  obtain ⟨p, hp, ks, r, scopes, hl, -, -⟩ := h
  exact (hl.site (b.accepted p hp)).wellFormed

end StandsExpr

/-- Evaluating an expression keeps the law. -/
lemma exprPlan_keeps (e : Expr) (hm : b.Carries trail m)
    (hs : StandsExpr b.programs (b.Pending trail) m.store m.scope e) :
    (Task.exprPlan e).Keeps (siteLaw b) steps trail
      ((siteLaw b).done trail ⟨steps + 1, .expr e, m⟩)
      ((siteLaw b).stopped trail ⟨steps + 1, .expr e, m⟩) m := by
  have done : ∀ value after, b.Carries trail after →
      (siteLaw b).done trail ⟨steps + 1, .expr e, m⟩ value after :=
    fun _ _ h => ⟨h.sited, trivial⟩
  cases e with
  | literal value => exact done _ _ hm
  | grouping inner =>
    have hi := hs.part (fun _ => rfl) fun r => List.mem_cons_self
    exact keeps_tail hm (.of_stands hi) fun value after hc _ => done value after hc
  | unary operator operand =>
    have ho := hs.part (fun _ => rfl) fun r => List.mem_cons_self
    refine keeps_call hm (.of_stands ho) fun value after _ _ hc _ _ => ?_
    refine Plan.keeps_ofExcept (fun a _ => done a _ hc) fun cause h => ?_
    exact stopped_of_ordinary hc.sited (ordinary_of_applyUnary h)
  | binary left operator right =>
    have hl := hs.part (fun _ => rfl) fun r => List.mem_cons_self
    have hr := hs.part (fun r => (left.walked r).scopes_eq)
      fun r => List.mem_cons_of_mem _ List.mem_cons_self
    refine keeps_call hm (.of_stands hl) fun a after _ ha hc _ _ => ?_
    have hr := stands_advance hr ha
    refine keeps_call hc (.of_stands hr) fun c after' _ _ hc' _ _ => ?_
    refine Plan.keeps_store (Plan.keeps_ofExcept (fun a _ => done a _ hc') fun cause h => ?_)
    exact stopped_of_ordinary hc'.sited (ordinary_of_applyBinary h)
  | logical left operator right =>
    have hl := hs.part (fun _ => rfl) fun r => List.mem_cons_self
    have hr := hs.part (fun r => (left.walked r).scopes_eq)
      fun r => List.mem_cons_of_mem _ List.mem_cons_self
    refine keeps_call hm (.of_stands hl) fun a after _ ha hc _ _ => ?_
    have hr := StandsExpr.of_stands (stands_advance hr ha)
    split_ifs
    · exact done a _ hc
    · exact keeps_tail hc hr fun value after hc _ => done value after hc
    · exact keeps_call hc hr fun value after _ _ hc _ _ => done value _ hc
    · exact done a _ hc
  | ternary condition first second =>
    have hcond := hs.part (fun _ => rfl) fun r => List.mem_cons_self
    have hfirst := hs.part (fun r => (condition.walked r).scopes_eq)
      fun r => List.mem_cons_of_mem _ List.mem_cons_self
    have hsecond := hs.part
      (fun r => ((condition.walked r).trans (first.walked _)).scopes_eq)
      fun r => List.mem_cons_of_mem _ (List.mem_cons_of_mem _ List.mem_cons_self)
    refine keeps_call hm (.of_stands hcond) fun a after _ ha hc _ _ => ?_
    have hfirst := StandsExpr.of_stands (stands_advance hfirst ha)
    have hsecond := StandsExpr.of_stands (stands_advance hsecond ha)
    dsimp only
    split
    · exact keeps_tail hc hfirst fun value after hc _ => done value after hc
    · exact keeps_tail hc hsecond fun value after hc _ => done value after hc
  | name id name =>
    refine keeps_readVariable hm hs rfl (fun value => done value m hm) ?_
    intro distance f hd hf hslot _
    exact .inr ⟨f, name.lexeme, ⟨m, .read rfl rfl hd hf, hslot⟩, rfl⟩
  | assign id name value =>
    have hv := hs.part (fun _ => rfl) fun r => List.mem_cons_self
    refine keeps_call hm (.of_stands hv) fun v after hp ha hc _ _ => ?_
    refine keeps_writeVariable hc (hs.advance ha) rfl hs.isName_of_assign
      (fun after hc => done v after hc) ?_
    intro distance f hd hf hslot
    obtain ⟨frame, hframe⟩ := hv.exists_frame
    have hd : m.distances.get? id = some distance := by
      rw [← ha.distances_eq]
      exact hd
    have hf : (m.store.chain m.scope)[distance]? = some f := by
      rw [← ha.grows.chain_eq hframe, ← ha.scope_eq]
      exact hf
    exact .inr ⟨f, name.lexeme, ⟨after, .write rfl rfl hd hf hp, hslot⟩, rfl⟩
  | call callee paren arguments =>
    have hcallee := hs.part (fun _ => rfl) fun r => List.mem_cons_self
    have hargs := hs.part (fun r => (callee.walked r).scopes_eq)
      fun r => List.mem_cons_of_mem _ List.mem_cons_self
    refine keeps_call hm (.of_stands hcallee) fun value after _ ha hc _ _ => ?_
    have hargs := stands_advance hargs ha
    refine keeps_call hc hargs fun values after' _ _ hc' _ _ => ?_
    exact keeps_tail hc' trivial fun value after hc _ => done value after hc
  | get object name =>
    have ho := hs.part (fun _ => rfl) fun r => List.mem_cons_self
    refine keeps_call hm (.of_stands ho) fun object after _ _ hc _ _ => ?_
    refine keeps_readProperty hc fun property after' _ hc' => ?_
    refine Plan.keeps_store ?_
    cases hg : after'.store.getter? property with
    | none => exact done property _ hc'
    | some g =>
      refine keeps_call hc' ?_ fun value after _ _ hc _ _ => done value _ hc
      exact hc'.sited.getter? hg
  | nilGet object name =>
    have ho := hs.part (fun _ => rfl) fun r => List.mem_cons_self
    refine keeps_call hm (.of_stands ho) fun object after _ _ hc _ _ => ?_
    cases object with
    | nil => exact done .nil _ hc
    | _ => exact keeps_readProperty hc fun property after' _ hc' => done property after' hc'
  | set object name value =>
    have ho := hs.part (fun _ => rfl) fun r => List.mem_cons_self
    have hv := hs.part (fun r => (object.walked r).scopes_eq)
      fun r => List.mem_cons_of_mem _ List.mem_cons_self
    refine keeps_call hm (.of_stands ho) fun object after _ ha hc _ _ => ?_
    have hv := stands_advance hv ha
    cases object with
    | instanceRef i =>
      refine keeps_call hc (.of_stands hv) fun value after _ _ hc _ _ => ?_
      refine Plan.keeps_changeStore (done value _ ⟨hc.distances_eq, ?_⟩)
      exact hc.sited.congr (Store.grows_setField _ i name.lexeme value) rfl rfl rfl
    | _ => exact Plan.keeps_fail (stopped_of_ordinary hc.sited (by decide))
  | this id keyword =>
    refine keeps_readVariable hm hs rfl (fun value => done value m hm) ?_
    intro distance f _ _ _ hpending
    rw [hs.lexeme_of_this] at hpending
    exact absurd hpending Background.not_pending_this
  | super id keyword method => exact keeps_readSuper hm hs done
  | lambda declaration =>
    have hd := hs.part (fun _ => rfl) fun r => List.mem_cons_self
    refine Plan.keeps_of_ok rfl (done _ _ ⟨hm.distances_eq, ?_⟩)
    exact hm.sited.addCallable ⟨hd, nofun⟩

end

end Eval

end Scripting
