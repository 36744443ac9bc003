import Scripting.Proofs.Eval.Initializers
import Scripting.Proofs.Session.Chains
import Scripting.Proofs.Session.Receivers
import Scripting.Proofs.Store.Lookup

/-!
# Construction

Calling a class gives a new instance of it, whatever its initializer does: the initializer that is
nearest in the lineage runs once, bound to the new instance, and its result does not count. Wherever
else an initializer is called with a receiver, its result is that receiver. It is read from the
frame that the function is closed over, which nothing in between can change.
-/

namespace Scripting

open Eval

namespace Eval

variable {steps : Nat} {k : ClassId} {arguments : List Value} {m after : Machine} {r : Value}

/-- An initializer that gives a result gives what the frame holds that it is closed over. -/
lemma slot?_of_runFunction {f : Function} (h : runFunction steps f arguments m = .ok r after)
    (hf : f.isInitializer) : after.store.slot? f.closure "this" = some (some r) := by
  cases steps with
  | zero => cases h
  | succ steps =>
    rw [runFunction_succ] at h
    obtain ⟨frame, m₁, -, h⟩ := Plan.perform_act_eq_ok.mp h
    obtain ⟨completion, m₂, -, h⟩ := Plan.perform_call_eq_ok.mp h
    obtain ⟨result, m₃, -, h⟩ := Plan.perform_act_eq_ok.mp h
    rw [if_pos hf] at h
    obtain ⟨store, m₄, ⟨⟩, h⟩ := Plan.perform_act_eq_ok.mp h
    rw [Plan.perform_only] at h
    cases hget : m₃.store.getAt f.closure 0 "this" with
    | error cause =>
      rw [hget] at h
      cases h
    | ok value =>
      rw [hget] at h
      cases h
      -- at no distance, it is the frame itself that is looked at
      obtain ⟨_, ⟨⟩, hslot⟩ := Store.getAt_eq_ok.mp hget
      exact hslot

/-- A construction that gives a result gives a new instance, of the class that is constructed. -/
lemma construct_eq_ok (hhost : (m.store.classes[k]?).bind Class.host = none)
    (h : construct steps k arguments m = .ok r after) :
    r = .instanceRef m.store.instances.size ∧
      (after.store.instances[m.store.instances.size]?).map Instance.classId = some k := by
  cases steps with
  | zero => cases h
  | succ steps =>
    rw [construct_succ] at h
    obtain ⟨_, _, ⟨⟩, h⟩ := Plan.perform_act_eq_ok.mp h
    simp only [hhost] at h
    obtain ⟨_, _, ⟨⟩, h⟩ := Plan.perform_act_eq_ok.mp h
    -- the instance is there from here on
    have hnew : (m.store.addInstance ⟨k, [], none⟩).2.instances[m.store.instances.size]? =
        some ⟨k, [], none⟩ := Array.getElem?_push_size
    have hlast : ∀ m' : Machine, (m.store.addInstance ⟨k, [], none⟩).2.Grows m'.store →
        (m'.store.instances[m.store.instances.size]?).map Instance.classId = some k := by
      intro m' hg
      obtain ⟨inst, hi, hclass⟩ := hg.instance_ _ _ hnew
      rw [hi, Option.map_some, hclass]
    split at h
    · obtain ⟨rfl, rfl⟩ := Plan.perform_done_eq_ok.mp h
      exact ⟨rfl, hlast _ (.refl _)⟩
    · next initializer _ =>
      obtain ⟨bound, m₁, ⟨⟩, h⟩ := Plan.perform_act_eq_ok.mp h
      obtain ⟨result, m₂, ho, h⟩ := Plan.perform_call_eq_ok.mp h
      obtain ⟨rfl, rfl⟩ := Plan.perform_done_eq_ok.mp h
      refine ⟨rfl, hlast _ ?_⟩
      have hgrows := ((Task.perform_advances steps _).of_ok ho).grows
      exact (Store.grows_bindFunction _ initializer _).trans hgrows

/-- A class that is called with a result is constructed, and nothing else is called. -/
lemma call_classRef_eq_ok {line : Nat}
    (h : call steps (.classRef k) line arguments m = .ok r after) :
    ∃ steps', steps = steps' + 1 ∧ construct steps' k arguments m = .ok r after ∧
      ∀ c', Call.Makes ⟨steps, .call (.classRef k) line arguments, m⟩ c' ↔
        c' = ⟨steps', .construct k arguments, m⟩ := by
  cases steps with
  | zero => cases h
  | succ steps =>
    rw [call_succ] at h
    obtain ⟨_, _, ⟨⟩, h⟩ := Plan.perform_act_eq_ok.mp h
    refine ⟨steps, rfl, ?_⟩
    dsimp only at h
    split_ifs at h with harity
    · rw [Plan.perform_tail] at h
      refine ⟨h, fun c' => ?_⟩
      have hasks : ∀ t m', (Task.callPlan (.classRef k) line arguments).Asks (Task.perform steps)
          m t m' ↔ t = .construct k arguments ∧ m' = m := by
        intro t m'
        constructor
        · rintro ⟨_, _, ⟨⟩, ha⟩
          dsimp only at ha
          rw [if_pos harity] at ha
          exact Plan.asks_tail.mp ha
        · intro ha
          refine ⟨m.store, m, rfl, ?_⟩
          dsimp only
          rw [if_pos harity]
          exact Plan.asks_tail.mpr ha
      obtain ⟨steps', t', m'⟩ := c'
      constructor
      · rintro ⟨hsteps, ha⟩
        obtain rfl : steps = steps' := Nat.succ.inj hsteps
        obtain ⟨rfl, rfl⟩ := (hasks t' m').mp ha
        rfl
      · rintro ⟨⟩
        exact ⟨rfl, (hasks _ _).mpr ⟨rfl, rfl⟩⟩
    · cases h

/-- Constructing an instance of a class of the program calls at most its initializer, with the new
instance as the receiver. -/
lemma makes_construct (steps : Nat) (arguments : List Value)
    (hhost : (m.store.classes[k]?).bind Class.host = none) :
    match m.store.findMethod? k Store.initializerName with
    | none => ∀ c', ¬ Call.Makes ⟨steps + 1, .construct k arguments, m⟩ c'
    | some f => ∃ v g, v.task = .function { f with closure := g } arguments ∧
      v.machine.store.slot? g "this" = some (some (.instanceRef m.store.instances.size)) ∧
      ∀ c', Call.Makes ⟨steps + 1, .construct k arguments, m⟩ c' ↔ c' = v := by
  have hmakes (c' : Call) : Call.Makes ⟨steps + 1, .construct k arguments, m⟩ c' ↔
      steps + 1 = c'.steps + 1 ∧
        (c'.task, c'.machine) ∈ (Task.constructPlan k arguments).asked (Task.perform c'.steps) m :=
    Call.makes_iff_mem_asked
  simp only [asked_constructPlan hhost] at hmakes
  cases hfound : m.store.findMethod? k Store.initializerName with
  | none =>
    rw [hfound] at hmakes
    exact fun c' hm => by simpa using ((hmakes c').mp hm).2
  | some f =>
    rw [hfound] at hmakes
    let created := m.store.addInstance ⟨k, [], none⟩
    let bound := created.2.bindFunction f (.instanceRef created.1)
    refine ⟨⟨steps, .function bound.1 arguments, { m with store := bound.2 }⟩, bound.1.closure, rfl,
      ?_, fun c' => ?_⟩
    · change bound.2.slot? bound.1.closure "this" = some (some (.instanceRef created.1))
      simp only [bound, Store.bindFunction, Store.openReceiver, Store.slot?_openFrame]
      rfl
    · obtain ⟨steps', t', m'⟩ := c'
      rw [hmakes, Option.map_some, Option.mem_toList, Option.some_inj, Prod.mk.injEq]
      constructor
      · rintro ⟨hsteps, hbody⟩
        obtain rfl : steps = steps' := Nat.succ.inj hsteps
        obtain ⟨rfl, rfl⟩ := hbody
        rfl
      · rintro ⟨⟩
        exact ⟨rfl, rfl, rfl⟩

/-- A function that is called as a value gives its result as the one of the call. -/
lemma runFunction_of_call {id : CallableId} {line : Nat} {f : Function}
    (hid : m.store.callables[id]? = some (.function f))
    (h : call steps (.callable id) line arguments m = .ok r after) :
    ∃ steps' c, Call.Makes ⟨steps, .call (.callable id) line arguments, m⟩ c ∧
      c.Makes ⟨steps', .function f arguments, m⟩ ∧
      runFunction steps' f arguments m = .ok r after := by
  cases steps with
  | zero => cases h
  | succ steps =>
    rw [call_succ] at h
    obtain ⟨_, _, ⟨⟩, h⟩ := Plan.perform_act_eq_ok.mp h
    simp only [hid] at h
    split_ifs at h with harity
    · rw [Plan.perform_tail] at h
      have hasks : (Task.callPlan (.callable id) line arguments).Asks (Task.perform steps) m
          (.callable (.function f) arguments) m := by
        refine ⟨m.store, m, rfl, ?_⟩
        simp only [hid, if_pos harity]
        exact Plan.asks_tail.mpr ⟨rfl, rfl⟩
      cases steps with
      | zero => cases h
      | succ steps =>
        refine ⟨steps, ⟨steps + 1, .callable (.function f) arguments, m⟩, ⟨rfl, hasks⟩,
          ⟨rfl, Plan.asks_tail.mpr ⟨rfl, rfl⟩⟩, ?_⟩
        rw [Task.perform_succ] at h
        exact (congrFun (Plan.perform_tail _ _) m).symm.trans h
    · cases h

namespace Call

/-- The class of the program that a call is for, and the arguments. -/
def class? (c : Call) : Option (ClassId × Nat × List Value) :=
  match c.task with
  | .call (.classRef k) line arguments =>
    if ((c.machine.store.classes[k]?).bind Class.host).isNone then some (k, line, arguments)
    else none
  | _ => none

/-- The initializer with a receiver that a call is for, and this receiver. -/
def initializer? (c : Call) : Option (CallableId × Nat × List Value × InstanceId) :=
  match c.task with
  | .call (.callable id) line arguments =>
    match c.machine.store.callables[id]? with
    | some (.function f) =>
      match c.machine.store.slot? f.closure "this" with
      | some (some (.instanceRef i)) =>
        if f.declaration.name.lexeme = Store.initializerName then some (id, line, arguments, i)
        else none
      | _ => none
    | _ => none
  | _ => none

variable {c : Call}

lemma task_of_class? {line : Nat} (h : c.class? = some (k, line, arguments)) :
    c.task = .call (.classRef k) line arguments ∧
      (c.machine.store.classes[k]?).bind Class.host = none := by
  unfold class? at h
  split at h
  · next ht =>
    split_ifs at h with hhost
    cases h
    exact ⟨ht, Option.isNone_iff_eq_none.mp hhost⟩
  · cases h

lemma exists_of_initializer? {id : CallableId} {line : Nat} {i : InstanceId}
    (h : c.initializer? = some (id, line, arguments, i)) :
    ∃ f, c.task = .call (.callable id) line arguments ∧
      c.machine.store.callables[id]? = some (.function f) ∧
      f.declaration.name.lexeme = Store.initializerName ∧
      c.machine.store.slot? f.closure "this" = some (some (.instanceRef i)) := by
  unfold initializer? at h
  split at h
  · next ht =>
    split at h
    · next f hf =>
      split at h
      · next hthis =>
        split_ifs at h with hname
        cases h
        exact ⟨f, ht, hf, hname, hthis⟩
      · cases h
    · cases h
  · cases h

end Call

end Eval

namespace Session

variable {sink : Sink} {input : List UInt8} {network : Network} {time : Nat}
  {requests : List Request}

/-- The built-in functions and classes have no initializers. -/
lemma stores_tagged_builtins : Stores CallableTagged ClassTagged Machine.builtins where
  callable := by
    intro id k hk f he
    obtain ⟨b, rfl⟩ := exists_builtin_of_getElem? hk
    cases he
  class_ := by
    intro id cls hc name f hf
    obtain ⟨host, rfl⟩ := exists_host_of_getElem? hc
    cases hf

/-- All functions that are called in a session are tagged. -/
lemma tagged_of_visited {c : Call}
    (hc : VisitedIn ((start (.start sink input network time)).runs requests) c) : c.Tagged := by
  obtain ⟨run, hrun, trail, hv⟩ := hc
  have hplain : ∀ run ∈ (start (.start sink input network time)).runs requests,
      IsPlain run.machine.store run.machine.scope := by
    intro run hrun
    obtain ⟨before, later, hruns⟩ := List.append_of_mem hrun
    have hfollows := (settled_start sink input network time).follows_of_runs hruns
    obtain ⟨frame, hf, hk, -⟩ := hfollows.sited.globals
    rw [hfollows.scope_eq]
    exact ⟨frame, hf, by simp [hk]⟩
  obtain ⟨hstore, -⟩ := (chained_runs _ requests).keeps
    (fun run hgood hs => (Run.tagged hgood hs).2) stores_tagged_builtins hplain run hrun
  exact (Run.tagged (hplain run hrun) hstore).1 trail c hv

/-- An initializer that is called with a receiver gives this receiver. -/
lemma eq_receiver_of_visited {v : Call} {f : Function} {arguments : List Value} {i : InstanceId}
    {r : Value} {after : Machine}
    (hv : VisitedIn ((start (.start sink input network time)).runs requests) v)
    (ht : v.task = .function f arguments)
    (hname : f.declaration.name.lexeme = Store.initializerName)
    (hthis : v.machine.store.slot? f.closure "this" = some (some (.instanceRef i)))
    (h : runFunction v.steps f arguments v.machine = .ok r after) : r = .instanceRef i := by
  let s := start (.start sink input network time)
  have hh : History (VisitedIn (s.runs requests)) (s.after requests).machine.store := history_after
  have hstart := (hh.fixes_start v hv).slot?_of_some hthis (.inl rfl)
  obtain ⟨hkind, -⟩ := hh.kept.marked.of_this hstart
  have htagged :=
    ((tagged_of_visited hv).function f arguments ht).grow (hh.fixes_start v hv).toGrows
  have hslot := slot?_of_runFunction h (htagged.isInitializer hkind hname)
  -- nothing that has run in between can have touched the frame
  have hafter : v.after = after := by
    obtain ⟨_, t, _⟩ := v
    obtain rfl : t = _ := ht
    exact Call.after_of_ok h
  rw [← hafter] at hslot
  have hend := (hh.fixes_end v hv).slot?_of_some hslot (.inl rfl)
  rw [hstart] at hend
  cases hend
  rfl

/-- **Construction yields the instance.** A class of the program that is called with a result gives
a new instance of this class, on any machine. The nearest initializer in the lineage of the class is
called once for it, with the new instance as its receiver, and nothing else is called. And in every
session, an initializer that is called with a receiver and gives a result gives this receiver,
whatever its body returns, and whoever calls it as a value or otherwise. -/
theorem construction_yields_instance (sink : Sink) (input : List UInt8) (network : Network)
    (time : Nat) (requests : List Request) :
    let visited := VisitedIn ((start (.start sink input network time)).runs requests)
    (∀ steps k line arguments m r after, (m.store.classes[k]?).bind Class.host = none →
      call steps (.classRef k) line arguments m = .ok r after →
        let i := m.store.instances.size
        r = .instanceRef i ∧ m.store.instances[i]? = none ∧
        (after.store.instances[i]?).map Instance.classId = some k ∧
        ∃ constructs : Call, constructs.task = .construct k arguments ∧ constructs.machine = m ∧
          (∀ c', Call.Makes ⟨steps, .call (.classRef k) line arguments, m⟩ c' ↔ c' = constructs) ∧
          match m.store.findMethod? k Store.initializerName with
          | none => ∀ c', ¬ constructs.Makes c'
          | some f => m.store.NearestIn k (·.methods.get? Store.initializerName) f ∧
            ∃ v g, v.task = .function { f with closure := g } arguments ∧
              v.machine.store.slot? g "this" = some (some (.instanceRef i)) ∧
              ∀ c', constructs.Makes c' ↔ c' = v) ∧
    (∀ v f arguments i r after, visited v → v.task = .function f arguments →
      f.declaration.name.lexeme = Store.initializerName →
        v.machine.store.slot? f.closure "this" = some (some (.instanceRef i)) →
          runFunction v.steps f arguments v.machine = .ok r after → r = .instanceRef i) ∧
    ∀ c id line arguments f i r after, visited c → c.task = .call (.callable id) line arguments →
      c.machine.store.callables[id]? = some (.function f) →
        f.declaration.name.lexeme = Store.initializerName →
          c.machine.store.slot? f.closure "this" = some (some (.instanceRef i)) →
            call c.steps (.callable id) line arguments c.machine = .ok r after →
              r = .instanceRef i := by
  intro visited
  refine ⟨?_, ?_, ?_⟩
  · intro steps k line arguments m r after hhost h i
    obtain ⟨steps, -, hconstruct, hmakes⟩ := call_classRef_eq_ok h
    obtain ⟨hr, hclass⟩ := construct_eq_ok hhost hconstruct
    refine ⟨hr, Array.getElem?_eq_none (Nat.le_refl _), hclass, _, rfl, rfl, hmakes, ?_⟩
    cases steps with
    | zero => cases hconstruct
    | succ steps =>
      have hcalls := makes_construct steps arguments hhost
      cases hfound : m.store.findMethod? k Store.initializerName with
      | none =>
        rw [hfound] at hcalls
        exact hcalls
      | some f =>
        rw [hfound] at hcalls
        exact ⟨Store.nearestIn_iff.mpr hfound, hcalls⟩
  · intro v f arguments i r after hv ht hname hthis h
    exact eq_receiver_of_visited hv ht hname hthis h
  · intro c id line arguments f i r after hc ht hid hname hthis h
    obtain ⟨steps, t, m⟩ := c
    obtain rfl : t = _ := ht
    obtain ⟨steps', c', hm, hm', hf⟩ := runFunction_of_call hid h
    have hh : History visited _ := history_after
    have hv := hh.makes _ _ (hh.makes _ _ hc hm) hm'
    exact eq_receiver_of_visited hv rfl hname hthis hf

/-- An initializer that leaves a loop without a value, which a class inherits, and which is called
again as a value. -/
theorem construction_yields_instance_inherited :
    let requests := [Request.source 30 false
      "class A \x7b init(a) \x7b for (;;) if (a) return; \x7d \x7d class B < A \x7b
        init(a) \x7b super.init(a); \x7d \x7d class C < B \x7b\x7d var f = C(true).init; f(true);"]
    let visited := VisitedIn ((start (.start (.ofLimit none) [] .isolated 0)).runs requests)
    (∃ c k line arguments after, visited c ∧ c.task = .call (.classRef k) line arguments ∧
      call c.steps (.classRef k) line arguments c.machine =
        .ok (.instanceRef c.machine.store.instances.size) after) ∧
    ∃ c id line arguments i after, visited c ∧ c.task = .call (.callable id) line arguments ∧
      call c.steps (.callable id) line arguments c.machine = .ok (.instanceRef i) after := by
  intro requests visited
  let runs := (start (.start (.ofLimit none) [] .isolated 0)).runs requests
  obtain ⟨hclass, hinitializer⟩ :
      ((runs.flatMap Run.calls).any fun c => c.class?.isSome && c.givesResult) ∧
        (runs.flatMap Run.calls).any fun c => c.initializer?.isSome && c.givesResult := by
    decide +kernel
  obtain ⟨hconstruct, -, hvalue⟩ :=
    construction_yields_instance (.ofLimit none) [] .isolated 0 requests
  constructor
  · obtain ⟨⟨steps, t, m⟩, hc, htest⟩ := exists_visitedIn hclass
    obtain ⟨hk, hgives⟩ := (Bool.and_eq_true _ _).mp htest
    obtain ⟨⟨k, line, arguments⟩, hk⟩ := Option.isSome_iff_exists.mp hk
    obtain ⟨rfl, hhost⟩ := Call.task_of_class? hk
    obtain ⟨r, after, ho⟩ := Call.exists_of_givesResult hgives
    obtain ⟨rfl, -⟩ := hconstruct steps k line arguments m r after hhost ho
    exact ⟨_, k, line, arguments, after, hc, rfl, ho⟩
  · obtain ⟨⟨steps, t, m⟩, hc, htest⟩ := exists_visitedIn hinitializer
    obtain ⟨hi, hgives⟩ := (Bool.and_eq_true _ _).mp htest
    obtain ⟨⟨id, line, arguments, i⟩, hi⟩ := Option.isSome_iff_exists.mp hi
    obtain ⟨f, rfl, hf, hname, hthis⟩ := Call.exists_of_initializer? hi
    obtain ⟨r, after, ho⟩ := Call.exists_of_givesResult hgives
    obtain rfl := hvalue _ id line arguments f i r after hc rfl hf hname hthis ho
    exact ⟨_, id, line, arguments, i, after, hc, rfl, ho⟩

end Session

end Scripting
