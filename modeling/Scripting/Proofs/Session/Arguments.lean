import Scripting.Proofs.Eval.Actions
import Scripting.Proofs.Eval.Trace
import Scripting.Proofs.Session.History

/-!
# Arguments and parameters

The variables of a call are made by pairing parameters and arguments, which would silently drop what
is left over on either side. Nothing is: the number of arguments is compared with what the value
takes before anything of it is run, and what an instance takes to be constructed is what its
initializer takes. So the body of a function runs with exactly its parameters, each with its
argument, in every run of every program.
-/

namespace Scripting

/-- The number of arguments that a value takes, if it can be called. -/
def Store.arity? (s : Store) : Value → Option Nat
  | .callable id => (s.callables[id]?).map Callable.arity
  | .classRef c => some (s.classArity c)
  | _ => none

/-- A frame has the parameters of a function as its variables, with the given arguments. Of several
parameters of one name, the last one counts. -/
structure Frame.Takes (frame : Frame) (params : List Token) (arguments : List Value) : Prop where
  has_iff : ∀ name, frame.vars.has name ↔ ∃ param ∈ params, param.lexeme = name
  bound : ∀ param ∈ params, ∃ argument ∈ arguments,
    Record.get? frame.vars param.lexeme = some (some argument)
  get?_eq : ∀ n param argument, params[n]? = some param → arguments[n]? = some argument →
    (∀ later ∈ params.drop (n + 1), later.lexeme ≠ param.lexeme) →
      Record.get? frame.vars param.lexeme = some (some argument)

namespace Eval

/-- A task is given as many arguments as it takes. -/
def Task.Fits (s : Store) : Task → Prop
  | .callable k arguments => arguments.length = k.arity
  | .function f arguments => arguments.length = f.declaration.params.length
  | .construct c arguments => arguments.length = s.classArity c
  | _ => True

/-- Expressions are evaluated from left to right: each of them on the machine that those before it
have left, where their values are still held. -/
inductive LeftToRight : Nat → List Expr → Machine → List Value → Machine → Prop
  | nil {steps : Nat} {m : Machine} : LeftToRight (steps + 1) [] m [] m
  | cons {steps : Nat} {e : Expr} {es : List Expr} {m m₁ m₂ : Machine} {value : Value}
      {values : List Value} :
    evaluate steps e m = .ok value m₁ →
      LeftToRight steps es ((Mode.holding value).enter m₁) values m₂ →
        LeftToRight (steps + 1) (e :: es) m (value :: values) ((Mode.holding value).leave m₁ m₂)

/-! ### The check and the pairing -/

section

variable {params : List Token} {arguments : List Value}

/-- With as many arguments as parameters, all of them are paired. -/
lemma takes_bindParameters (h : arguments.length = params.length) (kind : FrameKind)
    (outer : List FrameId) :
    Frame.Takes ⟨kind, outer, bindParameters params arguments⟩ params arguments where
  has_iff := has_bindParameters h
  bound := by
    intro param hp
    have hhas := (has_bindParameters h param.lexeme).mpr ⟨param, hp, rfl⟩
    rw [Record.has, get?_bindParameters, Option.isSome_map, Option.isSome_iff_exists] at hhas
    obtain ⟨⟨_, argument⟩, hfound⟩ := hhas
    refine ⟨argument, ?_, by rw [get?_bindParameters, hfound, Option.map_some]⟩
    exact (List.of_mem_zip (List.mem_reverse.mp (List.mem_of_find?_eq_some hfound))).2
  get?_eq := by
    intro n param argument hp ha hlater
    have hn : (params.zip arguments)[n]? = some (param, argument) :=
      List.getElem?_zip_eq_some.mpr ⟨hp, ha⟩
    obtain ⟨hlt, hget⟩ := List.getElem?_eq_some_iff.mp hn
    -- behind the pair there is none with this name, so that it is the first from the right
    have hnone : ((params.zip arguments).drop (n + 1)).reverse.find?
        (·.1.lexeme = param.lexeme) = none := by
      rw [List.find?_eq_none]
      rintro ⟨later, value⟩ hm
      rw [List.mem_reverse, List.zip_eq_zipWith, List.drop_zipWith, ← List.zip_eq_zipWith] at hm
      simpa using hlater later (List.of_mem_zip hm).1
    rw [get?_bindParameters]
    conv_lhs => rw [← List.take_append_drop n (params.zip arguments), List.drop_eq_getElem_cons hlt]
    rw [List.reverse_append, List.reverse_cons, List.append_assoc, List.find?_append, hnone, hget]
    simp

end

variable {c c' : Call}

lemma Task.fits_of_place? {t : Task} {x : Place} (h : t.place? = some x) (s : Store) :
    t.Fits s := by
  cases t with
  | callable k arguments => cases h
  | function f arguments => cases h
  | construct c arguments => cases h
  | _ => exact trivial

/-- What fits makes only calls that do. -/
lemma Asked.fits (h : Asked c c') (hc : c.task.Fits c.machine.store) :
    c'.task.Fits c'.machine.store := by
  cases h with
  | part _ hx' _ _ _ => exact Task.fits_of_place? hx' _
  | block _ hx' _ _ _ => exact Task.fits_of_place? hx' _
  | body _ hx' _ _ _ => exact Task.fits_of_place? hx' _
  | value ht =>
    rw [ht]
    exact trivial
  | callable id ht _ ha =>
    rw [ht]
    exact ha
  | construct ht ha =>
    rw [ht]
    exact ha
  | runFunction ht ht' _ =>
    rw [ht'] at *
    rw [ht] at hc
    exact hc
  | runGetter _ ht' _ =>
    rw [ht']
    exact trivial
  | getter _ ht _ =>
    rw [ht]
    exact trivial
  | initializer ht hhost hfound ht' _ =>
    -- what the class takes is what this initializer takes
    rw [ht', Task.Fits]
    rw [ht, Task.Fits, Store.classArity, hhost, hfound] at hc
    exact hc

/-- In a run, every call is made with as many arguments as it takes. -/
theorem Run.Visits.fits {run : Run} {trail : List Call} (h : run.Visits trail c) :
    c.task.Fits c.machine.store := by
  obtain ⟨root, hs, hr⟩ := h
  induction hr with
  | start =>
    obtain ⟨⟨s, -, ht⟩, -⟩ := advances_of_asks_programPlan hs.2
    rw [ht]
    exact trivial
  | @made _ c c' _ hm ih => exact (c.acts.of_makes hm).fits ih

/-- The body of a function runs in a frame that pairs its parameters with the arguments. -/
lemma Call.Makes.of_function {f : Function} {arguments : List Value} (hm : c.Makes c')
    (ht : c.task = .function f arguments) :
    c'.task = .stmts f.declaration.body ∧ c'.machine.store.frames[c'.machine.scope]? =
      some ⟨.call, c.machine.store.chain f.closure,
        bindParameters f.declaration.params arguments⟩ := by
  obtain ⟨steps, t, m⟩ := c
  obtain rfl : t = _ := ht
  obtain ⟨-, frame, after, ⟨⟩, ha⟩ := hm
  obtain ⟨ht', hm'⟩ | ⟨completion, after, -, result, after', -, ha⟩ := ha
  · rw [hm']
    exact ⟨ht', Store.frames_openFrame m.store _ _ _⟩
  · -- nothing is called behind the body
    split at ha
    · obtain ⟨_, _, -, _, _, -, ha⟩ := ha
      exact ha.elim
    · exact ha.elim

/-! ### Calls of values -/

lemma evaluateAll_eq_ok_iff {steps : Nat} {es : List Expr} {m m' : Machine}
    {values : List Value} :
    evaluateAll steps es m = .ok values m' ↔ LeftToRight steps es m values m' := by
  constructor
  · intro h
    induction es generalizing steps m m' values with
    | nil =>
      cases steps with
      | zero => cases h
      | succ steps =>
        cases h
        exact .nil
    | cons e es ih =>
      cases steps with
      | zero => cases h
      | succ steps =>
        rw [evaluateAll_succ] at h
        obtain ⟨value, m₁, he, h⟩ := Plan.perform_call_eq_ok.mp h
        obtain ⟨values, m₂, hes, h⟩ := Plan.perform_call_eq_ok.mp h
        obtain ⟨rfl, rfl⟩ := Plan.perform_done_eq_ok.mp h
        exact .cons he (ih hes)
  · intro h
    induction h with
    | nil => rfl
    | cons he _ ih =>
      rw [evaluateAll_succ]
      exact Plan.perform_call_eq_ok.mpr ⟨_, _, he, Plan.perform_call_eq_ok.mpr ⟨_, _, ih, rfl⟩⟩

lemma LeftToRight.length_eq {steps : Nat} {es : List Expr} {m m' : Machine} {values : List Value}
    (h : LeftToRight steps es m values m') : values.length = es.length := by
  induction h with
  | nil => rfl
  | cons _ _ ih => rw [List.length_cons, List.length_cons, ih]

/-- A value that is called with a wrong number of arguments fails at once, and calls nothing. -/
lemma callPlan_of_ne (self : (t : Task) → Exec t.Result) (line : Nat) {callee : Value}
    {arguments : List Value} {m : Machine} {expected : Nat}
    (he : m.store.arity? callee = some expected) (hne : arguments.length ≠ expected) :
    (Task.callPlan callee line arguments).perform self m =
        .error (.fault ⟨.arityMismatch expected arguments.length, line⟩) m ∧
      ∀ t m', ¬ (Task.callPlan callee line arguments).Asks self m t m' := by
  obtain ⟨next, hplan, hnext⟩ : ∃ next, Task.callPlan callee line arguments =
      .act Exec.store next ∧
        next m.store = .only (Exec.fail (.arityMismatch expected arguments.length) line) := by
    refine ⟨_, rfl, ?_⟩
    cases callee with
    | callable id =>
      obtain ⟨k, hk, rfl⟩ := Option.map_eq_some_iff.mp he
      simp only [hk, hne, if_false]
    | classRef c =>
      obtain rfl : m.store.classArity c = expected := Option.some.inj he
      simp only [hne, if_false]
    | _ => cases he
  rw [hplan]
  constructor
  · change (next m.store).perform self m = _
    rw [hnext]
    rfl
  · rintro t m' ⟨store, after, ⟨⟩, ha⟩
    rw [hnext] at ha
    obtain ⟨_, _, ⟨⟩, -⟩ := ha

/-- What an instance takes to be constructed is what its initializer takes, which is the only one
that is called, and with the same arguments. -/
lemma Call.constructs_with_arguments {k : ClassId} {arguments : List Value}
    (ht : c.task = .construct k arguments) (hc : c.task.Fits c.machine.store) :
    match (c.machine.store.classes[k]?).bind Class.host,
      c.machine.store.findMethod? k Store.initializerName with
    | some host, _ => arguments.length = host.arity ∧ ∀ c', ¬ c.Makes c'
    | none, none => arguments = [] ∧ ∀ c', ¬ c.Makes c'
    | none, some initializer => arguments.length = initializer.declaration.params.length ∧
      ∀ c', c.Makes c' → ∃ f, c'.task = .function { initializer with closure := f } arguments := by
  obtain ⟨steps, t, m⟩ := c
  obtain rfl : t = _ := ht
  have hmakes (c' : Call) (hm : Call.Makes ⟨steps, .construct k arguments, m⟩ c') :
      (c'.task, c'.machine) ∈ (Task.constructPlan k arguments).asked (Task.perform c'.steps) m :=
    (Call.makes_iff_mem_asked.mp hm).2
  dsimp only
  cases hhost : (m.store.classes[k]?).bind Class.host with
  | some host =>
    rw [Task.Fits, Store.classArity, hhost] at hc
    refine ⟨hc, fun c' hm => ?_⟩
    simpa [asked_constructPlan_host hhost] using hmakes c' hm
  | none =>
    simp only [asked_constructPlan hhost] at hmakes
    rw [Task.Fits, Store.classArity, hhost] at hc
    cases hfound : m.store.findMethod? k Store.initializerName with
    | none =>
      rw [hfound] at hc hmakes
      exact ⟨List.eq_nil_of_length_eq_zero hc, fun c' hm => by simpa using hmakes c' hm⟩
    | some initializer =>
      rw [hfound] at hc hmakes
      refine ⟨hc, fun c' hm => ?_⟩
      obtain ⟨ht, -⟩ := Prod.mk.inj (List.mem_singleton.mp (hmakes c' hm))
      exact ⟨_, ht⟩

/-- A call expression evaluates what is called and then the arguments, and then calls. -/
lemma call_of_evaluated {steps : Nat} {callee : Expr} {arguments : List Expr} {m m₁ m₂ : Machine}
    {value : Value} {values : List Value} (paren : Token)
    (hcallee : evaluate steps callee m = .ok value m₁)
    (harguments : evaluateAll steps arguments ((Mode.holding value).enter m₁) = .ok values m₂) :
    Call.Makes ⟨steps + 1, .expr (.call callee paren arguments), m⟩
        ⟨steps, .call value paren.line values, (Mode.holding value).leave m₁ m₂⟩ ∧
      (∀ c', Call.Makes ⟨steps + 1, .expr (.call callee paren arguments), m⟩ c' →
        c'.task = .expr callee ∧ c'.machine = m ∨
        c'.task = .exprs arguments ∧ c'.machine = (Mode.holding value).enter m₁ ∨
        c' = ⟨steps, .call value paren.line values, (Mode.holding value).leave m₁ m₂⟩) ∧
      evaluate (steps + 1) (.call callee paren arguments) m =
        call steps value paren.line values ((Mode.holding value).leave m₁ m₂) := by
  refine ⟨⟨rfl, .inr ⟨value, m₁, hcallee, .inr ⟨values, m₂, harguments, .inl ⟨rfl, rfl⟩⟩⟩⟩, ?_, ?_⟩
  · rintro ⟨steps', t', m'⟩ ⟨hs, ha⟩
    obtain rfl : steps = steps' := Nat.succ.inj hs
    obtain ⟨rfl, rfl⟩ | ⟨_, _, hcallee', ha⟩ := ha
    · exact .inl ⟨rfl, rfl⟩
    · obtain ⟨rfl, rfl⟩ := EStateM.Result.ok.inj (hcallee.symm.trans hcallee')
      obtain ⟨rfl, rfl⟩ | ⟨_, _, harguments', ha⟩ := ha
      · exact .inr (.inl ⟨rfl, rfl⟩)
      · obtain ⟨rfl, rfl⟩ := EStateM.Result.ok.inj (harguments.symm.trans harguments')
        obtain ⟨rfl, rfl⟩ | ⟨_, _, -, ha⟩ := ha
        · exact .inr (.inr rfl)
        · exact ha.elim
  rw [evaluate_succ]
  refine (Plan.perform_call_of_ok hcallee).trans ((Plan.perform_call_of_ok harguments).trans ?_)
  exact congrFun (Plan.perform_tail _ _) _

namespace Call

/-- The function that a call runs, and its arguments. -/
def function? (c : Call) : Option (Function × List Value) :=
  match c.task with
  | .function f arguments => some (f, arguments)
  | _ => none

/-- How many arguments the value of a call expression takes, and how many it is given, once all of
that is evaluated. -/
def counts? (c : Call) : Option (Nat × Nat) :=
  match c.task, c.steps with
  | .expr (.call callee _ arguments), steps + 1 =>
    match evaluate steps callee c.machine with
    | .ok value m₁ =>
      match evaluateAll steps arguments ((Mode.holding value).enter m₁) with
      | .ok _ m₂ => (m₂.store.arity? value).map (·, arguments.length)
      | .error _ _ => none
    | .error _ _ => none
  | _, _ => none

lemma task_of_function? {x : Function × List Value} (h : c.function? = some x) :
    c.task = .function x.1 x.2 := by
  unfold function? at h
  split at h
  · next ht =>
    obtain rfl := Option.some.inj h
    exact ht
  · cases h

lemma exists_of_counts? {expected got : Nat} (h : c.counts? = some (expected, got)) :
    ∃ callee paren arguments steps value m₁ values m₂,
      c.task = .expr (.call callee paren arguments) ∧ c.steps = steps + 1 ∧
      evaluate steps callee c.machine = .ok value m₁ ∧
      evaluateAll steps arguments ((Mode.holding value).enter m₁) = .ok values m₂ ∧
      m₂.store.arity? value = some expected ∧ arguments.length = got := by
  unfold counts? at h
  split at h
  · next callee paren arguments steps ht hs =>
    split at h
    · next value m₁ hcallee =>
      split at h
      · next values m₂ harguments =>
        obtain ⟨_, he, heq⟩ := Option.map_eq_some_iff.mp h
        obtain ⟨rfl, rfl⟩ := Prod.mk.inj heq
        exact ⟨_, _, _, _, _, _, _, _, ht, hs, hcallee, harguments, he, rfl⟩
      · cases h
    · cases h
  · cases h

end Call

/-- **Arguments are passed exactly.** In every run of every program, a function is called with as
many arguments as it has parameters, and its body runs in a frame that has these parameters with
these arguments and nothing else. An instance is constructed with as many arguments as its class
takes, and these are as many as the initializer takes that is called then, if there is one. A call
evaluates what is called and then the arguments from left to right; if their number is not what the
value takes, it fails with both numbers before anything is run, on the machine that the arguments
have left. -/
theorem Run.arguments_passed_exactly (run : Run) (trail : List Call) (c : Call)
    (hc : run.Visits trail c) :
    (∀ f arguments, c.task = .function f arguments →
      arguments.length = f.declaration.params.length ∧
      ∀ body, c.Makes body → body.task = .stmts f.declaration.body ∧
        ∃ frame, body.machine.store.frames[body.machine.scope]? = some frame ∧
          frame.Takes f.declaration.params arguments) ∧
    (∀ k arguments, c.task = .construct k arguments →
      arguments.length = c.machine.store.classArity k ∧
      match (c.machine.store.classes[k]?).bind Class.host,
        c.machine.store.findMethod? k Store.initializerName with
      | some host, _ => arguments.length = host.arity ∧ ∀ c', ¬ c.Makes c'
      | none, none => arguments = [] ∧ ∀ c', ¬ c.Makes c'
      | none, some initializer => arguments.length = initializer.declaration.params.length ∧
        ∀ c', c.Makes c' →
          ∃ f, c'.task = .function { initializer with closure := f } arguments) ∧
    ∀ callee paren arguments steps value m₁ values m₂,
      c.task = .expr (.call callee paren arguments) → c.steps = steps + 1 →
        evaluate steps callee c.machine = .ok value m₁ →
          evaluateAll steps arguments ((Mode.holding value).enter m₁) = .ok values m₂ →
            let called : Call :=
              ⟨steps, .call value paren.line values, (Mode.holding value).leave m₁ m₂⟩
            LeftToRight steps arguments ((Mode.holding value).enter m₁) values m₂ ∧
            c.Makes called ∧ called.machine.store = m₂.store ∧
            (∀ c', c.Makes c' → c'.task = .expr callee ∧ c'.machine = c.machine ∨
              c'.task = .exprs arguments ∧ c'.machine = (Mode.holding value).enter m₁ ∨
              c' = called) ∧
            ∀ expected, m₂.store.arity? value = some expected → arguments.length ≠ expected →
              (∀ c', ¬ called.Makes c') ∧
              evaluate c.steps (.call callee paren arguments) c.machine =
                .error (.fault ⟨.arityMismatch expected arguments.length, paren.line⟩)
                  called.machine := by
  have hfits := hc.fits
  refine ⟨?_, ?_, ?_⟩
  · intro f arguments ht
    have hlength : arguments.length = f.declaration.params.length := by
      rw [ht] at hfits
      exact hfits
    refine ⟨hlength, fun body hm => ?_⟩
    obtain ⟨hbody, hframe⟩ := hm.of_function ht
    exact ⟨hbody, _, hframe, takes_bindParameters hlength _ _⟩
  · intro k arguments ht
    refine ⟨?_, c.constructs_with_arguments ht hfits⟩
    rw [ht] at hfits
    exact hfits
  · intro callee paren arguments steps value m₁ values m₂ ht hs hcallee harguments called
    have hordered := evaluateAll_eq_ok_iff.mp harguments
    have hstore : called.machine.store = m₂.store := Mode.leave_store _ _ _
    obtain ⟨hm, honly, hvalue⟩ := call_of_evaluated paren hcallee harguments
    obtain ⟨_, _, m⟩ := c
    obtain rfl : _ = _ := ht
    obtain rfl : _ = _ := hs
    refine ⟨hordered, hm, hstore, honly, fun expected he hne => ?_⟩
    rw [← hordered.length_eq] at hne ⊢
    rw [← hstore] at he
    cases steps with
    | zero => cases hcallee
    | succ steps =>
      obtain ⟨hfails, hnone⟩ := callPlan_of_ne (Task.perform steps) paren.line
        he hne
      refine ⟨fun c' hm' => ?_, ?_⟩
      · obtain ⟨hs', ha⟩ := hm'
        obtain rfl : steps = c'.steps := Nat.succ.inj hs'
        exact hnone _ _ ha
      · rw [hvalue]
        rw [call_succ]
        exact hfails

/-- A class without an initializer of its own, which is given too few arguments the second time. -/
theorem Run.arguments_passed_exactly_inherited :
    let s := Session.start (.start (.ofLimit none) [] .isolated 0)
    let runs := s.runs [Request.source 30 false
      "class A \x7b init(a, b) \x7b this.a = b; \x7d \x7d class B < A \x7b\x7d
        fun f(x) \x7b return x; \x7d B(f(true), nil); B(f(nil));"]
    (∃ c f arguments, VisitedIn runs c ∧ c.task = .function f arguments ∧ arguments.length = 2 ∧
      f.declaration.params.length = 2) ∧
    ∃ c callee paren arguments after, VisitedIn runs c ∧
      c.task = .expr (.call callee paren arguments) ∧
      evaluate c.steps (.call callee paren arguments) c.machine =
        .error (.fault ⟨.arityMismatch 2 1, paren.line⟩) after := by
  intro s runs
  obtain ⟨hfunction, hmismatch⟩ :
      ((runs.flatMap Run.calls).any fun c => c.function?.any (·.2.length = 2)) ∧
        (runs.flatMap Run.calls).any fun c => c.counts? = some (2, 1) := by
    decide +kernel
  constructor
  · obtain ⟨c, ⟨run, hrun, trail, hc⟩, htest⟩ := exists_visitedIn hfunction
    obtain ⟨⟨f, arguments⟩, hf, hlength⟩ := (Option.any_eq_true _ _).mp htest
    have ht := Call.task_of_function? hf
    have hlength : arguments.length = 2 := by simpa using hlength
    refine ⟨c, f, arguments, ⟨run, hrun, trail, hc⟩, ht, hlength, ?_⟩
    obtain ⟨hparams, -⟩ := (Run.arguments_passed_exactly run trail c hc).1 f arguments ht
    exact hparams.symm.trans hlength
  · obtain ⟨c, ⟨run, hrun, trail, hc⟩, htest⟩ := exists_visitedIn hmismatch
    obtain ⟨callee, paren, arguments, steps, value, m₁, values, m₂, ht, hs, hcallee, harguments,
      he, hgot⟩ := Call.exists_of_counts? (by simpa using htest)
    obtain ⟨-, -, -, -, hfails⟩ := (Run.arguments_passed_exactly run trail c hc).2.2
      _ _ _ _ _ _ _ _ ht hs hcallee harguments
    obtain ⟨-, hfault⟩ := hfails 2 he (by omega)
    rw [hgot] at hfault
    exact ⟨c, callee, paren, arguments, _, ⟨run, hrun, trail, hc⟩, ht, hfault⟩

end Eval

end Scripting
