import Scripting.Proofs.Eval.Alignment

/-!
# Calls and statements keep frames aligned

A call opens a frame with the parameters, as the walk opens a scope with them; a block opens an
empty frame. What a statement declares is in its frame when the statement is complete, so that the
statements behind it find it there. With this, `siteLaw` is kept by everything that the evaluator
does.
-/

namespace Scripting

open Resolution

namespace Eval

/-! ### Parameters -/

/-- The scope of a function has its parameters and nothing else. -/
lemma parameterScopes_eq (params : List Token) (scopes : List Scope) :
    ∃ inner : Scope, parameterScopes params scopes = inner :: scopes ∧
      ∀ name, inner.has name → ∃ param ∈ params, param.lexeme = name := by
  have fold : ∀ (params : List Token) (scope : Scope), ∃ inner : Scope,
      params.foldl (fun scopes param => introduceScope scopes param.lexeme) (scope :: scopes) =
        inner :: scopes ∧
      ∀ name, inner.has name → scope.has name ∨ ∃ param ∈ params, param.lexeme = name := by
    intro params
    induction params with
    | nil => exact fun scope => ⟨scope, rfl, fun name hn => .inl hn⟩
    | cons param params ih =>
      intro scope
      obtain ⟨inner, he, hi⟩ := ih ((scope.insert param.lexeme false).insert param.lexeme true)
      refine ⟨inner, he, fun name hn => ?_⟩
      rcases hi name hn with hs | ⟨other, ho, rfl⟩
      · by_cases hp : name = param.lexeme
        · exact .inr ⟨param, List.mem_cons_self, hp.symm⟩
        · exact .inl (by simpa [hp] using hs)
      · exact .inr ⟨other, List.mem_cons_of_mem _ ho, rfl⟩
  obtain ⟨inner, he, hi⟩ := fold params []
  refine ⟨inner, he, fun name hn => ?_⟩
  rcases hi name hn with hs | hp
  · simp at hs
  · exact hp

/-- Under a name, a call has the argument of the last parameter of this name. -/
lemma get?_bindParameters (params : List Token) (arguments : List Value) (name : String) :
    Record.get? (bindParameters params arguments) name =
      ((params.zip arguments).reverse.find? (·.1.lexeme = name)).map fun bound => some bound.2 :=
  (Record.get?_foldl_insert (fun bound : Token × Value => bound.1.lexeme)
    (fun bound => some bound.2) _ [] name).trans (Option.or_none ..)

/-- A call has a variable for every parameter and no other. -/
lemma has_bindParameters {params : List Token} {arguments : List Value}
    (h : arguments.length = params.length) (name : String) :
    (bindParameters params arguments).has name ↔ ∃ param ∈ params, param.lexeme = name := by
  have hmem (param : Token) :
      param ∈ params ↔ ∃ argument, (param, argument) ∈ params.zip arguments := by
    conv_lhs => rw [← List.map_fst_zip (Nat.le_of_eq h.symm)]
    simp
  rw [Record.has, get?_bindParameters, Option.isSome_map, List.find?_isSome]
  simp only [List.mem_reverse, Prod.exists, hmem, decide_eq_true_eq]
  constructor
  · rintro ⟨param, argument, hp, hn⟩
    exact ⟨param, ⟨argument, hp⟩, hn⟩
  · rintro ⟨param, ⟨argument, hp⟩, hn⟩
    exact ⟨param, argument, hp, hn⟩

section

variable {b : Background} {steps : Nat} {trail : List Call} {c : Call} {m : Machine}

/-- The body of a function may run in a frame with the arguments. -/
lemma stands_body {f : FrameId} {d : FunctionDecl} {arguments : List Value}
    (h : m.store.Stands b.programs (b.Pending trail) f (.function d))
    (ha : arguments.length = d.params.length) :
    (m.store.openFrame .call f (bindParameters d.params arguments)).2.Stands b.programs
      (b.Pending trail) (m.store.openFrame .call f (bindParameters d.params arguments)).1
      (.stmts d.body) := by
  obtain ⟨p, hp, ks, r, hl, hal⟩ := h
  obtain ⟨inner, he, hi⟩ := parameterScopes_eq d.params r.scopes
  refine ⟨p, hp, _, _, .part hl List.mem_cons_self, ?_⟩
  rw [enterFunction_eq]
  simp only [he]
  exact hal.openFrame .call _ _ fun name hn => (has_bindParameters ha name).mpr (hi name hn)

lemma sited_empty (hm : b.Carries trail m) (kind : FrameKind) (f : FrameId) :
    (m.store.openFrame kind f []).2.Sited b.programs (b.Pending trail) :=
  hm.sited.openFrame kind f fun slot hs => by cases hs

lemma sited_parameters {f : FrameId} {d : FunctionDecl} {arguments : List Value}
    (hm : b.Carries trail m)
    (h : m.store.Stands b.programs (b.Pending trail) f (.function d))
    (ha : arguments.length = d.params.length) :
    (m.store.openFrame .call f (bindParameters d.params arguments)).2.Sited b.programs
      (b.Pending trail) := by
  refine hm.sited.openFrame .call f fun slot hs => ?_
  obtain ⟨p, hp, ks, r, hl, -⟩ := h
  have hw := (hl.site (b.accepted p hp)).wellFormed
  obtain ⟨name, params, body⟩ := d
  -- no parameter is called `super`
  obtain ⟨param, hparam, hn⟩ := (has_bindParameters ha "super").mp (by simp [Record.has, hs])
  exact absurd hn (hw.1 param hparam).ne_super

/-! ### Calls -/

lemma exprsPlan_keeps (es : List Expr) (hm : b.Carries trail m)
    (hs : m.store.Stands b.programs (b.Pending trail) m.scope (.exprs es)) :
    (Task.exprsPlan es).Keeps (siteLaw b) steps trail
      ((siteLaw b).done trail ⟨steps + 1, .exprs es, m⟩)
      ((siteLaw b).stopped trail ⟨steps + 1, .exprs es, m⟩) m := by
  cases es with
  | nil => exact ⟨hm.sited, trivial⟩
  | cons e es =>
    have he := hs.part (fun _ => rfl) fun r => List.mem_cons_self
    have hes := hs.part (fun r => (e.walked r).scopes_eq)
      fun r => List.mem_cons_of_mem _ List.mem_cons_self
    refine keeps_call hm (.of_stands he) fun value after _ ha hc _ _ => ?_
    have hes := stands_advance hes ha
    exact keeps_call hc hes fun values after' _ _ hc' _ _ => ⟨hc'.sited, trivial⟩

lemma callPlan_keeps (callee : Value) (line : Nat) (arguments : List Value)
    (hm : b.Carries trail m) :
    (Task.callPlan callee line arguments).Keeps (siteLaw b) steps trail
      ((siteLaw b).done trail ⟨steps + 1, .call callee line arguments, m⟩)
      ((siteLaw b).stopped trail ⟨steps + 1, .call callee line arguments, m⟩) m := by
  refine Plan.keeps_store ?_
  cases callee with
  | callable id =>
    dsimp only
    cases hk : m.store.callables[id]? with
    | none => exact Plan.keeps_fail (stopped_of_ordinary hm.sited (by decide))
    | some k =>
      dsimp only
      split_ifs with ha
      · exact keeps_tail hm ⟨hm.sited.callable id k hk, ha⟩
          fun value after hc _ => ⟨hc.sited, trivial⟩
      · exact Plan.keeps_fail (stopped_of_ordinary hm.sited (Cause.ordinary_arityMismatch _ _))
  | classRef id =>
    dsimp only
    split_ifs with ha
    · exact keeps_tail hm ha fun value after hc _ => ⟨hc.sited, trivial⟩
    · exact Plan.keeps_fail (stopped_of_ordinary hm.sited (Cause.ordinary_arityMismatch _ _))
  | _ => exact Plan.keeps_fail (stopped_of_ordinary hm.sited (by decide))

lemma callablePlan_keeps (k : Callable) (arguments : List Value) (hm : b.Carries trail m)
    (hk : m.store.StandsCallable b.programs (b.Pending trail) k)
    (ha : arguments.length = k.arity) :
    (Task.callablePlan k arguments).Keeps (siteLaw b) steps trail
      ((siteLaw b).done trail ⟨steps + 1, .callable k arguments, m⟩)
      ((siteLaw b).stopped trail ⟨steps + 1, .callable k arguments, m⟩) m := by
  cases k with
  | function f => exact keeps_tail hm ⟨hk, ha⟩ fun value after hc _ => ⟨hc.sited, trivial⟩
  | getter g => exact keeps_tail hm hk fun value after hc _ => ⟨hc.sited, trivial⟩
  | builtin builtin =>
    exact keeps_quiet (builtin.run_quiet arguments) hm fun _ _ hc => ⟨hc.sited, trivial⟩
  | hostMethod method receiver =>
    exact keeps_quiet (method.run_quiet receiver arguments) hm fun _ _ hc => ⟨hc.sited, trivial⟩

/-- Behind its body, a function gives what the body does, and an initializer its receiver. -/
lemma keeps_result {f : Function} {value : Value} {result : Value → Machine → Prop}
    (hm : b.Carries trail m)
    (hs : f.isInitializer → (m.store.slot? f.closure "this").isSome)
    (hd : ∀ value, result value m) :
    (if f.isInitializer then
      Plan.act Exec.store fun store =>
        .only (Exec.ofExcept f.declaration.name.line (store.getAt f.closure 0 "this"))
    else .done value).Keeps (siteLaw b) steps trail result ((siteLaw b).stopped trail c) m := by
  split_ifs with hi
  · refine Plan.keeps_store (Plan.keeps_ofExcept (fun value _ => hd value) fun cause hc => ?_)
    obtain ⟨slot, hslot⟩ := Option.isSome_iff_exists.mp (hs hi)
    simp only [Store.getAt, Store.chain, List.getElem?_cons_zero, hslot] at hc
    exact stopped_of_ordinary hm.sited (ordinary_of_readSlot hc)
  · exact hd value

lemma functionPlan_keeps (f : Function) (arguments : List Value) (hm : b.Carries trail m)
    (hf : m.store.StandsCallable b.programs (b.Pending trail) (.function f))
    (ha : arguments.length = f.declaration.params.length) :
    (Task.functionPlan f arguments).Keeps (siteLaw b) steps trail
      ((siteLaw b).done trail ⟨steps + 1, .function f arguments, m⟩)
      ((siteLaw b).stopped trail ⟨steps + 1, .function f arguments, m⟩) m := by
  obtain ⟨hstands, hthis⟩ := hf
  have hsited := sited_parameters hm hstands ha
  have hbody := stands_body hstands ha
  have hopen := m.store.grows_openFrame .call f.closure
    (bindParameters f.declaration.params arguments)
  refine Plan.keeps_updateStore ?_
  refine keeps_call ⟨hm.distances_eq, hsited⟩ hbody fun completion after _ hadv hc _ hflow => ?_
  have hthis := fun hi => hadv.grows.slot?_isSome (hopen.slot?_isSome (hthis hi))
  cases completion with
  | normal =>
    exact Plan.keeps_of_ok rfl (keeps_result hc hthis fun _ => ⟨hc.sited, trivial⟩)
  | returned value =>
    exact Plan.keeps_of_ok rfl (keeps_result hc hthis fun _ => ⟨hc.sited, trivial⟩)
  | broke =>
    -- no loop around a function is left from inside
    obtain ⟨s, hs, hb⟩ := hflow
    obtain ⟨p, hp, ks, r, hl, -⟩ := hstands
    exact absurd hb (((hl.site (b.accepted p hp)).part List.mem_cons_self).not_breaks hs)

lemma getterPlan_keeps (g : Getter) (hm : b.Carries trail m)
    (hg : m.store.StandsCallable b.programs (b.Pending trail) (.getter g)) :
    (Task.getterPlan g).Keeps (siteLaw b) steps trail
      ((siteLaw b).done trail ⟨steps + 1, .getter g, m⟩)
      ((siteLaw b).stopped trail ⟨steps + 1, .getter g, m⟩) m := by
  obtain ⟨p, hp, ks, r, hl, hal⟩ := hg
  have hsited := sited_empty hm .call g.closure
  refine Plan.keeps_updateStore ?_
  have hbody : (m.store.openFrame .call g.closure []).2.Stands b.programs (b.Pending trail)
      (m.store.openFrame .call g.closure []).1 (.stmts g.declaration.body) := by
    refine ⟨p, hp, _, _, .part hl List.mem_cons_self, ?_⟩
    rw [enterFunction_eq]
    exact hal.openFrame .call _ _ fun name hn => hn
  refine keeps_call ⟨hm.distances_eq, hsited⟩ hbody fun completion after _ _ hc _ hflow => ?_
  cases completion with
  | normal => exact Plan.keeps_of_ok rfl ⟨hc.sited, trivial⟩
  | returned value => exact Plan.keeps_of_ok rfl ⟨hc.sited, trivial⟩
  | broke =>
    obtain ⟨s, hs, hb⟩ := hflow
    exact absurd hb (((hl.site (b.accepted p hp)).part List.mem_cons_self).not_breaks hs)

lemma constructPlan_keeps (id : ClassId) (arguments : List Value) (hm : b.Carries trail m)
    (ha : arguments.length = m.store.classArity id) :
    (Task.constructPlan id arguments).Keeps (siteLaw b) steps trail
      ((siteLaw b).done trail ⟨steps + 1, .construct id arguments, m⟩)
      ((siteLaw b).stopped trail ⟨steps + 1, .construct id arguments, m⟩) m := by
  refine Plan.keeps_store ?_
  cases hhost : (m.store.classes[id]?).bind Class.host with
  | some host =>
    exact keeps_quiet (host.construct_quiet id arguments) hm fun _ _ hc => ⟨hc.sited, trivial⟩
  | none =>
    have hgrow := m.store.grows_addInstance ⟨id, [], none⟩
    have hsited := hm.sited.congr hgrow rfl rfl rfl
    refine Plan.keeps_updateStore ?_
    cases hinit : m.store.findMethod? id Store.initializerName with
    | none => exact ⟨hsited, trivial⟩
    | some initializer =>
      have hunbound := (hm.sited.findMethod? hinit).mono hgrow fun _ _ hp => .inr hp
      have hbound := hunbound.bindFunction (.instanceRef (m.store.addInstance ⟨id, [], none⟩).1)
      have harity : arguments.length = initializer.declaration.params.length := by
        simpa [Store.classArity, hhost, hinit] using ha
      refine Plan.keeps_updateStore ?_
      refine keeps_call ⟨hm.distances_eq, hsited.openReceiver initializer.closure _⟩
        ⟨hbound, harity⟩ fun value after _ _ hc _ _ => ⟨hc.sited, trivial⟩

/-! ### Classes -/

/-- The methods of a class are among those that it was declared with, under their names. -/
lemma exists_of_methodRecord {scope : FrameId} {methods : List FunctionDecl} {name : String}
    {f : Function} (h : Record.get? (methodRecord scope methods) name = some f) :
    f.declaration ∈ methods ∧ f.closure = scope ∧ f.declaration.name.lexeme = name ∧
      (f.isInitializer ↔ name = Store.initializerName) := by
  obtain ⟨d, hd, rfl, rfl⟩ := Record.exists_of_get?_foldl_insert h
  exact ⟨hd, rfl, rfl, decide_eq_true_iff⟩

lemma exists_of_getterRecord {scope : FrameId} {getters : List GetterDecl} {name : String}
    {g : Getter} (h : Record.get? (getterRecord scope getters) name = some g) :
    g.declaration ∈ getters ∧ g.closure = scope := by
  obtain ⟨d, hd, -, rfl⟩ := Record.exists_of_get?_foldl_insert h
  exact ⟨hd, rfl⟩

/-- The store in which a class is bound to its name, with members that are closed over a frame. -/
def withClass (s : Store) (scope closure : FrameId) (name : String) (ancestors : List ClassId)
    (methods : List FunctionDecl) (getters : List GetterDecl) : Store :=
  let (c, s) := s.addClass
    ⟨name, ancestors, methodRecord closure methods, getterRecord closure getters, none⟩
  s.define scope name (.classRef c)

/-- A variable that the innermost frame has is found there. -/
lemma locate_of_isSome {s : Store} {f : FrameId} {name : String} (h : (s.slot? f name).isSome) :
    s.locate f name = .ok f := by
  simp [Store.locate, Store.chain, h]

/-- The last steps of a class declaration, with its name bound already. -/
lemma bindClass_apply {scope closure : FrameId} {name : Token} (superclass : Option ClassId)
    {methods : List FunctionDecl} {getters : List GetterDecl}
    (hs : (m.store.slot? scope name.lexeme).isSome) :
    (do
      let c ← Exec.updateStore fun store =>
        let ancestors := (superclass.map store.lineage).getD []
        store.addClass
          ⟨name.lexeme, ancestors, methodRecord closure methods, getterRecord closure getters, none⟩
      let frame ← Exec.ofExcept name.line ((← Exec.store).locate scope name.lexeme)
      Exec.changeStore (·.define frame name.lexeme (.classRef c)) : Exec Unit) m =
      .ok () { m with
        store := withClass m.store scope closure name.lexeme
          ((superclass.map m.store.lineage).getD []) methods getters } := by
  refine (Exec.bind_of_ok rfl).trans ((Exec.bind_of_ok rfl).trans ?_)
  dsimp only
  rw [locate_of_isSome]
  · rfl
  · exact hs

/-- The store in which a class has its name and a frame with its superclass. -/
def withSuperclass (s : Store) (scope : FrameId) (superclass : ClassId) : FrameId × Store :=
  s.openFrame .superclass scope [("super", some (.classRef superclass))]

lemma declareClass_none {name : Token} {methods : List FunctionDecl} {getters : List GetterDecl}
    (hs : ((m.store.define m.scope name.lexeme .nil).slot? m.scope name.lexeme).isSome) :
    declareClass name none methods getters m = .ok ()
      { m with
        store := withClass (m.store.define m.scope name.lexeme .nil) m.scope m.scope name.lexeme []
          methods getters } := by
  refine (Exec.bind_of_ok rfl).trans ((Exec.bind_of_ok rfl).trans ((Exec.bind_of_ok rfl).trans ?_))
  exact bindClass_apply none hs

lemma declareClass_some {name : Token} {superclass : ClassId} {methods : List FunctionDecl}
    {getters : List GetterDecl}
    (hs : ((m.store.define m.scope name.lexeme .nil).slot? m.scope name.lexeme).isSome) :
    let opened := withSuperclass (m.store.define m.scope name.lexeme .nil) m.scope superclass
    declareClass name (some superclass) methods getters m = .ok ()
      { m with
        store := withClass opened.2 m.scope opened.1 name.lexeme (opened.2.lineage superclass)
          methods getters } := by
  refine (Exec.bind_of_ok rfl).trans ((Exec.bind_of_ok rfl).trans ((Exec.bind_of_ok rfl).trans ?_))
  refine bindClass_apply (some superclass) ?_
  exact (Store.grows_openFrame _ _ _ _).slot?_isSome hs

/-- Members that stand in a frame without their receiver make a class. -/
lemma sited_withClass {s : Store} {scope closure : FrameId} {name : Token}
    {ancestors : List ClassId} {methods : List FunctionDecl} {getters : List GetterDecl}
    (hsited : s.Sited b.programs (b.Pending trail)) (hn : name.IsName)
    (hm : ∀ d ∈ methods, s.StandsUnbound b.programs (b.Pending trail) closure (.function d))
    (hg : ∀ d ∈ getters, s.StandsUnbound b.programs (b.Pending trail) closure (.getter d)) :
    (withClass s scope closure name.lexeme ancestors methods getters).Sited b.programs
      (b.Pending trail) := by
  refine (hsited.addClass ⟨fun key f hf => ?_, fun key g hg' => ?_⟩).setSlot scope hn.ne_super _
  · obtain ⟨hd, hc, -⟩ := exists_of_methodRecord hf
    rw [hc]
    exact hm _ hd
  · obtain ⟨hd, hc⟩ := exists_of_getterRecord hg'
    rw [hc]
    exact hg _ hd

lemma slot?_withClass {s : Store} {scope closure : FrameId} {name : String}
    {ancestors : List ClassId} {methods : List FunctionDecl} {getters : List GetterDecl}
    (h : (s.slot? scope name).isSome) :
    ((withClass s scope closure name ancestors methods getters).slot? scope name).isSome := by
  refine (Store.grows_define _ scope name _).slot?_isSome ?_
  exact (s.grows_addClass _).slot?_isSome h

/-- The members of a class stand in the frame that they are closed over, up to the receiver. -/
lemma stands_members {s : Store} {closure : FrameId} {p : Program} (hp : p ∈ b.programs)
    {ks : List FrameKind} {r r' : Resolution} {scopes : List Scope} {methods : List FunctionDecl}
    {getters : List GetterDecl} (hm : Located p (.receiver :: ks) r (.functions methods))
    (hg : Located p (.receiver :: ks) r' (.getters getters))
    (hs : r.scopes = [("this", true)] :: scopes) (hs' : r'.scopes = r.scopes)
    (ha : s.Aligned (b.Pending trail) (s.chain closure) ks scopes) :
    (∀ d ∈ methods, s.StandsUnbound b.programs (b.Pending trail) closure (.function d)) ∧
      ∀ d ∈ getters, s.StandsUnbound b.programs (b.Pending trail) closure (.getter d) := by
  constructor
  · intro d hd
    obtain ⟨r₁, hl, hr⟩ := hm.function_of_mem hd
    exact ⟨p, hp, ks, r₁, scopes, hl, hr.trans hs, ha⟩
  · intro d hd
    obtain ⟨r₁, hl, hr⟩ := hg.getter_of_mem hd
    exact ⟨p, hp, ks, r₁, scopes, hl, hr.trans (hs'.trans hs), ha⟩

/-! ### Statements -/

lemma isName_of_stands {s : Store} {f : FrameId} {stmt : Stmt} {name : Token}
    (h : s.Stands b.programs (b.Pending trail) f (.stmt stmt)) (hd : stmt.declared? = some name) :
    name.IsName := by
  obtain ⟨p, hp, ks, r, hl, -⟩ := h
  exact Stmt.declared?_isName (hl.site (b.accepted p hp)).wellFormed hd

/-- A statement that declares nothing leaves nothing to show. -/
lemma declares_of_none {scope : FrameId} {s : Store} {stmt : Stmt} (h : stmt.declared? = none)
    (completion : Completion) : (Task.stmt stmt).Declares scope s completion := by
  cases completion with
  | normal => exact fun name hn => by rw [h] at hn; cases hn
  | returned value => exact trivial
  | broke => exact trivial

/-- A statement that declares a name leaves it in its frame. -/
lemma declares_of_some {scope : FrameId} {s : Store} {stmt : Stmt} {name : Token}
    (h : stmt.declared? = some name) (hs : (s.slot? scope name.lexeme).isSome) :
    (Task.stmt stmt).Declares scope s .normal := by
  intro other ho
  rw [h] at ho
  cases ho
  exact hs

/-- Declaring a class keeps the law, whether it has a superclass or not. -/
lemma keeps_declareClass {name : Token} {superclass : Option Expr} {methods : List FunctionDecl}
    {getters : List GetterDecl} {superclassId : Option ClassId} {m' : Machine}
    (hm : b.Carries trail m') (hscope : m'.scope = m.scope)
    (hid : superclass.isSome = superclassId.isSome)
    (hs : m'.store.Stands b.programs (b.Pending trail) m'.scope
      (.stmt (.classDecl name superclass methods getters))) :
    (Plan.act (declareClass name superclassId methods getters) fun _ => .done .normal).Keeps
      (siteLaw b) steps trail
      ((siteLaw b).done trail
        ⟨steps + 1, .stmt (.classDecl name superclass methods getters), m⟩)
      ((siteLaw b).stopped trail c) m' := by
  have hn : name.IsName := isName_of_stands hs rfl
  obtain ⟨frame, hf⟩ := hs.exists_frame
  obtain ⟨p, hp, ks, r, hl, hal⟩ := hs
  have hgrow := m'.store.grows_define m'.scope name.lexeme .nil
  have hslot := Store.slot?_setSlot_isSome hf name.lexeme (some .nil)
  have hsited := hm.sited.setSlot m'.scope hn.ne_super (some .nil)
  have hal := (hal.mono_chain hgrow fun _ _ hp => .inr hp).introduce hslot
  cases superclass with
  | none =>
    obtain rfl : superclassId = none := by simpa using hid.symm
    obtain ⟨hmethods, hgetters⟩ := stands_members hp
      (.part hl List.mem_cons_self) (.part hl (List.mem_cons_of_mem _ List.mem_cons_self))
      (by rw [atMembers_none_eq]) (functions_walked methods _).scopes_eq hal
    refine Plan.keeps_of_ok (declareClass_none hslot)
      ⟨sited_withClass hsited hn hmethods hgetters, ?_⟩
    refine declares_of_some rfl ?_
    rw [← hscope]
    exact slot?_withClass hslot
  | some superclass =>
    obtain ⟨id, rfl⟩ : ∃ id, superclassId = some id := by
      apply Option.isSome_iff_exists.mp
      rw [← hid]
      rfl
    have hal := hal.openFrame .superclass [("super", some (.classRef id))] [("super", true)]
      fun key hk => by simpa using hk
    obtain ⟨hmethods, hgetters⟩ := stands_members hp
      (.part hl (List.mem_cons_of_mem _ List.mem_cons_self))
      (.part hl (List.mem_cons_of_mem _ (List.mem_cons_of_mem _ List.mem_cons_self)))
      (by rw [atMembers_some_eq, (superclass.walked _).scopes_eq, (r.atSuperclass_spec name _).2])
      (functions_walked methods _).scopes_eq hal
    refine Plan.keeps_of_ok (declareClass_some hslot) ⟨sited_withClass ?_ hn hmethods hgetters, ?_⟩
    · refine hsited.openFrame .superclass m'.scope fun slot hk => ?_
      obtain rfl : _ = slot := by simpa [Record.get?_singleton] using hk
      exact ⟨id, rfl⟩
    · refine declares_of_some rfl ?_
      rw [← hscope]
      exact slot?_withClass ((Store.grows_openFrame _ _ _ _).slot?_isSome hslot)

lemma keeps_print {text : String} {line : Nat} {next : Unit → Plan Completion}
    {result : Completion → Machine → Prop} (hm : b.Carries trail m)
    (hn : ∀ after, b.Carries trail after →
      (next ()).Keeps (siteLaw b) steps trail result ((siteLaw b).stopped trail c) after) :
    (Plan.act (Exec.print text line) next).Keeps (siteLaw b) steps trail result
      ((siteLaw b).stopped trail c) m := by
  rcases hw : m.sink.writeLine text with ⟨taken, sink⟩
  have hsink : b.Carries trail { m with sink } := ⟨hm.distances_eq, hm.sited⟩
  have he : Exec.print text line m =
      (if taken then pure () else Exec.fail .outputFull line : Exec Unit) { m with sink } := by
    simp only [Exec.print, Bind.bind, EStateM.bind, Exec.modifyGet_apply, hw]
  cases taken with
  | true => exact Plan.keeps_of_ok he (hn _ hsink)
  | false => exact Plan.keeps_of_error he (stopped_of_ordinary hsink.sited (by decide))

/-- A function that is declared in a frame may run there when its name has come in. -/
lemma stands_introduced {x : Place} {stmt : Stmt} {name : Token} (value : Value)
    (hs : m.store.Stands b.programs (b.Pending trail) m.scope (.stmt stmt))
    (hy : ∀ r : Resolution, ⟨x, [], r.introduce name⟩ ∈ stmt.parts r) :
    (m.store.define m.scope name.lexeme value).Stands b.programs (b.Pending trail) m.scope x := by
  obtain ⟨frame, hf⟩ := hs.exists_frame
  obtain ⟨p, hp, ks, r, hl, hal⟩ := hs
  refine ⟨p, hp, _, _, .part hl (hy r), ?_⟩
  rw [introduce_eq]
  have hal := hal.mono_chain (m.store.grows_define m.scope name.lexeme value)
    fun _ _ hp => .inr hp
  exact hal.introduce (Store.slot?_setSlot_isSome hf name.lexeme (some value))

/-- The alternative of an `if` stands in the scopes around it, as the consequent declares
nothing. -/
lemma stands_alternative {condition : Expr} {consequent alternative : Stmt}
    (hs : m.store.Stands b.programs (b.Pending trail) m.scope
      (.stmt (.ifStmt condition consequent (some alternative)))) :
    m.store.Stands b.programs (b.Pending trail) m.scope (.stmt alternative) := by
  obtain ⟨p, hp, ks, r, hl, hal⟩ := hs
  have hw := (hl.site (b.accepted p hp)).wellFormed
  have hscopes := consequent.resolve_scopes hw.2.1.2 (condition.resolve r)
  rw [hw.2.1.1] at hscopes
  refine ⟨p, hp, _, _, .part hl (List.mem_cons_of_mem _ (List.mem_cons_of_mem _
    List.mem_cons_self)), ?_⟩
  rw [hscopes.trans (condition.walked r).scopes_eq]
  exact hal

/-- The name of a superclass may be looked for before that of the class has come in. -/
lemma stands_superclass {name : Token} {superclass : Expr} {methods : List FunctionDecl}
    {getters : List GetterDecl}
    (hs : m.store.Stands b.programs (b.Pending trail) m.scope
      (.stmt (.classDecl name (some superclass) methods getters))) :
    StandsExpr b.programs (b.Pending trail) m.store m.scope superclass := by
  obtain ⟨p, hp, ks, r, hl, hal⟩ := hs
  have hsite := hl.site (b.accepted p hp)
  obtain ⟨-, ⟨id, superName, rfl, -⟩, -⟩ := hsite.wellFormed
  have hpart := hl.part List.mem_cons_self
  refine ⟨p, hp, _, _, r.scopes, hpart, hal, .inr ⟨id, superName, name.lexeme, rfl, ?_, ?_⟩⟩
  · -- a class that inherits from itself is a mistake
    intro he
    have herrors := (Expr.walked _ _).errors_eq (hpart.site (b.accepted p hp)).agrees.errors_eq
    simp [atSuperclass, failIf, fail, he] at herrors
  · exact (r.atSuperclass_spec name _).2

/-- Executing a statement keeps the law. A variable with an initializer is not treated here. -/
lemma stmtPlan_keeps (s : Stmt) (hvar : ∀ name value, s ≠ .var name (some value))
    (hm : b.Carries trail m)
    (hs : m.store.Stands b.programs (b.Pending trail) m.scope (.stmt s)) :
    (Task.stmtPlan s).Keeps (siteLaw b) steps trail
      ((siteLaw b).done trail ⟨steps + 1, .stmt s, m⟩)
      ((siteLaw b).stopped trail ⟨steps + 1, .stmt s, m⟩) m := by
  cases s with
  | expression value =>
    have hv := hs.part (fun _ => rfl) fun r => List.mem_cons_self
    exact keeps_call hm (.of_stands hv) fun _ after _ _ hc _ _ =>
      ⟨hc.sited, declares_of_none rfl _⟩
  | print keyword value =>
    have hv := hs.part (fun _ => rfl) fun r => List.mem_cons_self
    refine keeps_call hm (.of_stands hv) fun value after _ _ hc _ _ => ?_
    exact Plan.keeps_store (keeps_print hc fun after hc => ⟨hc.sited, declares_of_none rfl _⟩)
  | var name initializer =>
    cases initializer with
    | some value => exact absurd rfl (hvar name value)
    | none =>
      have hn : name.IsName := isName_of_stands hs rfl
      obtain ⟨frame, hf⟩ := hs.exists_frame
      refine Plan.keeps_get (Plan.keeps_changeStore ⟨hm.sited.setSlot _ hn.ne_super none, ?_⟩)
      exact declares_of_some rfl (Store.slot?_setSlot_isSome hf name.lexeme none)
  | block body =>
    obtain ⟨p, hp, ks, r, hl, hal⟩ := hs
    refine Plan.keeps_get (Plan.keeps_updateStore ?_)
    have hbody : (m.store.openFrame .block m.scope []).2.Stands b.programs (b.Pending trail)
        (m.store.openFrame .block m.scope []).1 (.stmts body) :=
      ⟨p, hp, _, _, .part hl List.mem_cons_self, hal.openFrame .block _ _ fun name hn => hn⟩
    exact keeps_call ⟨hm.distances_eq, sited_empty hm .block m.scope⟩ hbody
      fun completion after _ _ hc _ _ => ⟨hc.sited, declares_of_none rfl completion⟩
  | function declaration =>
    have hn : declaration.name.IsName := isName_of_stands hs rfl
    obtain ⟨frame, hf⟩ := hs.exists_frame
    have hd := stands_introduced (.callable m.store.callables.size) hs
      fun r => List.mem_cons_self
    refine Plan.keeps_of_ok rfl (Plan.keeps_of_ok rfl ⟨?_, ?_⟩)
    · exact (hm.sited.setSlot m.scope hn.ne_super _).addCallable ⟨hd, nofun⟩
    · exact declares_of_some rfl (Store.slot?_setSlot_isSome hf declaration.name.lexeme _)
  | getter declaration =>
    have hn : declaration.name.IsName := isName_of_stands hs rfl
    obtain ⟨frame, hf⟩ := hs.exists_frame
    have hd := stands_introduced (.callable m.store.callables.size) hs
      fun r => List.mem_cons_self
    refine Plan.keeps_of_ok rfl (Plan.keeps_of_ok rfl ⟨?_, ?_⟩)
    · exact (hm.sited.setSlot m.scope hn.ne_super _).addCallable hd
    · exact declares_of_some rfl (Store.slot?_setSlot_isSome hf declaration.name.lexeme _)
  | classDecl name superclass methods getters =>
    cases superclass with
    | none => exact keeps_declareClass hm rfl rfl hs
    | some superclass =>
      refine keeps_call hm (stands_superclass hs) fun value after _ ha hc _ _ => ?_
      cases value with
      | classRef id => exact keeps_declareClass hc ha.scope_eq rfl (stands_advance hs ha)
      | _ => exact Plan.keeps_fail (stopped_of_ordinary hc.sited (by decide))
  | ifStmt condition consequent alternative =>
    cases alternative with
    | none =>
      have hcond := hs.part (fun _ => rfl) fun r => List.mem_cons_self
      have hthen := hs.part (fun r => (condition.walked r).scopes_eq)
        fun r => List.mem_cons_of_mem _ List.mem_cons_self
      refine keeps_call hm (.of_stands hcond) fun value after _ ha hc _ _ => ?_
      split_ifs
      · exact keeps_tail hc (stands_advance hthen ha)
          fun completion after hc _ => ⟨hc.sited, declares_of_none rfl completion⟩
      · exact ⟨hc.sited, declares_of_none rfl _⟩
    | some other =>
      have hcond := hs.part (fun _ => rfl) fun r => List.mem_cons_self
      have hthen := hs.part (fun r => (condition.walked r).scopes_eq)
        fun r => List.mem_cons_of_mem _ List.mem_cons_self
      have helse := stands_alternative hs
      refine keeps_call hm (.of_stands hcond) fun value after _ ha hc _ _ => ?_
      split_ifs
      · exact keeps_tail hc (stands_advance hthen ha)
          fun completion after hc _ => ⟨hc.sited, declares_of_none rfl completion⟩
      · exact keeps_tail hc (stands_advance helse ha)
          fun completion after hc _ => ⟨hc.sited, declares_of_none rfl completion⟩
  | whileStmt condition body =>
    have hcond := hs.part (fun _ => rfl) fun r => List.mem_cons_self
    have hscopes : ∀ r, (condition.resolve r).enterLoop.scopes = r.scopes :=
      fun r => (condition.walked r).scopes_eq
    have hbody := hs.part hscopes fun r => List.mem_cons_of_mem _ List.mem_cons_self
    exact keeps_tail hm ⟨hcond, hbody⟩
      fun completion after hc _ => ⟨hc.sited, declares_of_none rfl completion⟩
  | breakStmt keyword => exact ⟨hm.sited, trivial⟩
  | returnStmt keyword value =>
    cases value with
    | none => exact ⟨hm.sited, trivial⟩
    | some value =>
      have hv := hs.part (fun r => failIf_scopes r _ _ _) fun r => List.mem_cons_self
      exact keeps_call hm (.of_stands hv) fun _ after _ _ hc _ _ => ⟨hc.sited, trivial⟩

lemma loopPlan_keeps (condition : Expr) (body : Stmt) (hm : b.Carries trail m)
    (hcond : m.store.Stands b.programs (b.Pending trail) m.scope (.expr condition))
    (hbody : m.store.Stands b.programs (b.Pending trail) m.scope (.stmt body)) :
    (Task.loopPlan condition body).Keeps (siteLaw b) steps trail
      ((siteLaw b).done trail ⟨steps + 1, .loop condition body, m⟩)
      ((siteLaw b).stopped trail ⟨steps + 1, .loop condition body, m⟩) m := by
  refine keeps_call hm (.of_stands hcond) fun value after _ ha hc _ _ => ?_
  split_ifs
  · refine keeps_call hc (stands_advance hbody ha) fun completion after' _ ha' hc' _ _ => ?_
    have hall := ha.trans ha'
    cases completion with
    | normal =>
      exact keeps_tail hc' ⟨stands_advance hcond hall, stands_advance hbody hall⟩
        fun completion after hc _ => ⟨hc.sited, trivial⟩
    | broke => exact ⟨hc'.sited, trivial⟩
    | returned value => exact ⟨hc'.sited, trivial⟩
  · exact ⟨hc.sited, trivial⟩

/-- Behind a statement that is complete, the next ones may be executed. -/
lemma stands_rest {s : Stmt} {ss : List Stmt} {m' : Machine}
    (hs : m.store.Stands b.programs (b.Pending trail) m.scope (.stmts (s :: ss)))
    (ha : m.Advances m') (hd : (Task.stmt s).Declares m.scope m'.store .normal) :
    m'.store.Stands b.programs (b.Pending trail) m'.scope (.stmts ss) := by
  obtain ⟨p, hp, ks, r, hl, hal⟩ := hs
  have hw := (hl.site (b.accepted p hp)).wellFormed
  have hscopes := s.resolve_scopes hw.1 r
  have hal := hal.mono_chain ha.grows fun _ _ hp => .inr hp
  refine ⟨p, hp, _, _, .part hl (List.mem_cons_of_mem _ List.mem_cons_self), ?_⟩
  rw [ha.scope_eq, hscopes]
  cases hdecl : s.declared? with
  | none => exact hal
  | some name => exact hal.introduce (hd name hdecl)

lemma stmtsPlan_keeps (ss : List Stmt) (hm : b.Carries trail m)
    (hs : m.store.Stands b.programs (b.Pending trail) m.scope (.stmts ss)) :
    (Task.stmtsPlan ss).Keeps (siteLaw b) steps trail
      ((siteLaw b).done trail ⟨steps + 1, .stmts ss, m⟩)
      ((siteLaw b).stopped trail ⟨steps + 1, .stmts ss, m⟩) m := by
  cases ss with
  | nil => exact ⟨hm.sited, trivial⟩
  | cons s ss =>
    have hfirst := hs.part (fun _ => rfl) fun r => List.mem_cons_self
    refine keeps_call hm hfirst fun completion after _ ha hc hd _ => ?_
    cases completion with
    | normal =>
      exact keeps_tail hc (stands_rest hs ha hd) fun completion after hc _ => ⟨hc.sited, trivial⟩
    | broke => exact ⟨hc.sited, trivial⟩
    | returned value => exact ⟨hc.sited, trivial⟩

/-- While its initializer is evaluated, a variable is pending; when that is done, it is there. -/
lemma varPlan_keeps (name : Token) (value : Expr) (hm : b.Carries trail m)
    (hs : m.store.Stands b.programs (b.Pending trail) m.scope (.stmt (.var name (some value)))) :
    (Task.stmtPlan (.var name (some value))).Keeps (siteLaw b) steps
      (⟨steps + 1, .stmt (.var name (some value)), m⟩ :: trail)
      ((siteLaw b).done trail ⟨steps + 1, .stmt (.var name (some value)), m⟩)
      ((siteLaw b).stopped trail ⟨steps + 1, .stmt (.var name (some value)), m⟩) m := by
  have hn : name.IsName := isName_of_stands hs rfl
  obtain ⟨frame, hf⟩ := hs.exists_frame
  have hm' : b.Carries (⟨steps + 1, .stmt (.var name (some value)), m⟩ :: trail) m :=
    ⟨hm.distances_eq, hm.sited.imp fun _ _ hp => .inr (hp.cons _)⟩
  have hvalue : StandsExpr b.programs
      (b.Pending (⟨steps + 1, .stmt (.var name (some value)), m⟩ :: trail)) m.store m.scope
      value := by
    obtain ⟨p, hp, ks, r, hl, hal⟩ := hs
    refine .of_stands ⟨p, hp, _, _, .part hl List.mem_cons_self, ?_⟩
    rw [declare_eq]
    refine (hal.mono (.refl _) fun _ _ hp => .inr (hp.cons _)).enter (.inr ?_) false
    exact .inr ⟨_, List.mem_cons_self, name, value, rfl, hn, rfl, rfl⟩
  refine keeps_call hm' hvalue fun v after _ ha hc _ _ => ?_
  obtain ⟨frame', hf', -⟩ := ha.grows.frame m.scope frame hf
  have hslot := Store.slot?_setSlot_isSome hf' name.lexeme (some v)
  refine Plan.keeps_of_ok rfl ⟨?_, declares_of_some rfl ?_⟩
  · refine (hc.sited.setSlot _ hn.ne_super (some v)).imp fun f other hp => ?_
    rcases hp.of_cons with ⟨token, initializer, he, -, rfl, rfl⟩ | hp
    · cases he
      refine .inl ?_
      rw [ha.scope_eq]
      exact hslot
    · exact .inr hp
  · show ((after.store.setSlot _ name.lexeme (some v)).slot? m.scope name.lexeme).isSome
    rw [ha.scope_eq]
    exact hslot

/-- For a call that begins no declaration, what is pending inside is what is pending outside. -/
lemma keeps_of_not_begins {t : Task}
    (hb : ∀ f name, ¬ (⟨steps + 1, t, m⟩ : Call).Begins f name)
    (h : ∀ inner, b.Carries inner m → t.Ready b.programs (b.Pending inner) m →
      t.plan.Keeps (siteLaw b) steps inner ((siteLaw b).done inner ⟨steps + 1, t, m⟩)
        ((siteLaw b).stopped inner ⟨steps + 1, t, m⟩) m)
    (hr : (siteLaw b).ready trail ⟨steps + 1, t, m⟩) :
    t.plan.Keeps (siteLaw b) steps (⟨steps + 1, t, m⟩ :: trail)
      ((siteLaw b).done trail ⟨steps + 1, t, m⟩)
      ((siteLaw b).stopped trail ⟨steps + 1, t, m⟩) m := by
  have he : b.Pending (⟨steps + 1, t, m⟩ :: trail) = b.Pending trail :=
    Background.pending_cons hb
  have hd : (siteLaw b).done (⟨steps + 1, t, m⟩ :: trail) = (siteLaw b).done trail := by
    simp only [siteLaw, he]
  have hs : (siteLaw b).stopped (⟨steps + 1, t, m⟩ :: trail) = (siteLaw b).stopped trail := by
    simp only [siteLaw, he]
  have hk := h (⟨steps + 1, t, m⟩ :: trail) ⟨hr.1.distances_eq, by rw [he]; exact hr.1.sited⟩
    (by rw [he]; exact hr.2)
  rw [hd, hs] at hk
  exact hk

end

/-- Everything that the evaluator does keeps frames aligned with scopes. -/
theorem siteLaw_sound (b : Background) : (siteLaw b).Sound where
  exhausted := fun trail t m h => ⟨h.1.sited, nofun⟩
  keeps := by
    intro trail steps t m hr
    have other : ∀ {t' : Task}, (∀ name value, t' ≠ .stmt (.var name (some value))) →
        ∀ f name, ¬ (⟨steps + 1, t', m⟩ : Call).Begins f name := by
      rintro t' ht f name ⟨token, value, he, -⟩
      exact ht token value he
    cases t with
    | expr e =>
      exact keeps_of_not_begins (other fun _ _ he => by cases he)
        (fun inner hm hs => exprPlan_keeps e hm hs) hr
    | exprs es =>
      exact keeps_of_not_begins (other fun _ _ he => by cases he)
        (fun inner hm hs => exprsPlan_keeps es hm hs) hr
    | call callee line arguments =>
      exact keeps_of_not_begins (other fun _ _ he => by cases he)
        (fun inner hm _ => callPlan_keeps callee line arguments hm) hr
    | callable k arguments =>
      exact keeps_of_not_begins (other fun _ _ he => by cases he)
        (fun inner hm hs => callablePlan_keeps k arguments hm hs.1 hs.2) hr
    | function f arguments =>
      exact keeps_of_not_begins (other fun _ _ he => by cases he)
        (fun inner hm hs => functionPlan_keeps f arguments hm hs.1 hs.2) hr
    | getter g =>
      exact keeps_of_not_begins (other fun _ _ he => by cases he)
        (fun inner hm hs => getterPlan_keeps g hm hs) hr
    | construct id arguments =>
      exact keeps_of_not_begins (other fun _ _ he => by cases he)
        (fun inner hm hs => constructPlan_keeps id arguments hm hs) hr
    | loop condition body =>
      exact keeps_of_not_begins (other fun _ _ he => by cases he)
        (fun inner hm hs => loopPlan_keeps condition body hm hs.1 hs.2) hr
    | stmts ss =>
      exact keeps_of_not_begins (other fun _ _ he => by cases he)
        (fun inner hm hs => stmtsPlan_keeps ss hm hs) hr
    | stmt s =>
      by_cases hvar : ∃ name value, s = .var name (some value)
      · obtain ⟨name, value, rfl⟩ := hvar
        exact varPlan_keeps name value hr.1 hr.2
      · have hvar : ∀ name value, s ≠ .var name (some value) :=
          fun name value he => hvar ⟨name, value, he⟩
        refine keeps_of_not_begins (other fun name value he => ?_)
          (fun inner hm hs => stmtPlan_keeps s hvar hm hs) hr
        cases he
        exact hvar name value rfl

end Eval

end Scripting
