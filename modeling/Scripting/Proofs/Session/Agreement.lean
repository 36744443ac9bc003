import Scripting.Proofs.Session.History

/-!
# Scopes and frames agree

Whenever a session evaluates an expression, the frames around the current scope are those that the
open scopes of the walk call for, one for one and of the same kinds. A reference is therefore about
the frame of the scope that its name was found in, and that frame has the variable, unless its
declaration is *unfinished*: begun and not complete.

The exception is real. The walk rejects a variable that is read directly in its own initializer, but
an initializer may assign the variable, or call a function that reads it; the variable is not there
yet, and the run ends in an internal fault. These are all the internal faults there are.
-/

namespace Scripting

open Resolution Eval

namespace Eval

/-- The declaration of a variable was begun and is not complete: either its initializer is being
evaluated, or one of the earlier runs has abandoned it. -/
def Unfinished (earlier : List Run) (trail : List Call) (f : FrameId) (name : String) : Prop :=
  Abandoned earlier f name ∨ ∃ v ∈ trail, v.Begins f name

variable {run : Run} {earlier : List Run} {trail : List Call} {c : Call} {f : FrameId}
  {name : String}

/-! ### Premature accesses -/

/-- An access to a variable that its frame does not have is a fault. -/
lemma Call.Premature.error (h : c.Premature f name)
    (hs : ∃ frame, c.machine.store.frames[c.machine.scope]? = some frame) :
    ∃ line after, c.outcome = .error (.fault ⟨.noBinding name 0, line⟩) after := by
  obtain ⟨steps, task, m⟩ := c
  obtain ⟨m', ha, hslot⟩ := h
  obtain ⟨frame, hframe⟩ := hs
  cases ha with
  | @read steps id token distance f hsteps htask hd hf =>
    -- the frame at the distance is looked into, and it has no such variable
    obtain rfl : _ = steps + 1 := hsteps
    obtain rfl : task = _ := htask
    refine ⟨token.line, m, ?_⟩
    have hv : variableValue m id token.lexeme = .error (.noBinding token.lexeme 0) := by
      rw [variableValue_of_distance hd hf, hslot]
      rfl
    change readVariable id token m = _
    rw [readVariable_apply, hv]
    rfl
  | @write steps id token value v after distance f hsteps htask hd hf he =>
    obtain rfl : _ = steps + 1 := hsteps
    obtain rfl : task = _ := htask
    refine ⟨token.line, m', ?_⟩
    -- evaluating the value changes neither the distance nor the frame there
    have hadv := (Task.perform_advances steps (.expr value)).of_ok he
    have hl : variableFrame m' id token.lexeme = .error (.noBinding token.lexeme 0) := by
      have hd' : m'.distances.get? id = some distance := by rwa [hadv.distances_eq]
      have hf' : (m'.store.chain m'.scope)[distance]? = some f := by
        rwa [hadv.scope_eq, hadv.grows.chain_eq hframe]
      rw [variableFrame_of_distance hd' hf', hslot]
      rfl
    change (evaluate steps value >>= fun v => do writeVariable id token v; return v) m = _
    rw [Exec.bind_of_ok he]
    exact Exec.bind_of_error (writeVariable_of_error hl v)

/-- An access is through a reference with a distance, and what is there before is still there. -/
lemma Call.Accesses.exists_reference {m : Machine} (h : c.Accesses f name m) :
    ∃ e id token distance, c.task = .expr e ∧ e.reference? = some (id, token) ∧
      token.lexeme = name ∧ c.machine.distances.get? id = some distance ∧
      (c.machine.store.chain c.machine.scope)[distance]? = some f ∧
      c.machine.store.Grows m.store := by
  cases h with
  | read _ htask hd hf => exact ⟨_, _, _, _, htask, rfl, rfl, hd, hf, .refl _⟩
  | @write steps _ _ value _ _ _ _ _ htask hd hf he =>
    have hadv := (Task.perform_advances steps (.expr value)).of_ok he
    exact ⟨_, _, _, _, htask, rfl, rfl, hd, hf, hadv.grows⟩

namespace Run.Follows

/-- A call that evaluates an expression finds it where it stands. -/
lemma standsExpr (h : run.Follows earlier) (hv : run.Visits trail c) {e : Expr}
    (he : c.task = .expr e) :
    StandsExpr h.background.programs (Unfinished earlier trail) c.machine.store c.machine.scope
      e := by
  have hr := (h.grounded.ready hv).2
  rwa [he] at hr

/-- Only the variables of unfinished declarations are accessed prematurely, and doing so ends the
run. -/
lemma premature (h : run.Follows earlier) (hv : run.Visits trail c) (hp : c.Premature f name) :
    Unfinished earlier trail f name ∧ ∃ line, run.fault? = some ⟨.noBinding name 0, line⟩ := by
  obtain ⟨m, ha, hslot⟩ := hp
  obtain ⟨e, id, token, distance, he, hr, rfl, hd, hf, hg⟩ := ha.exists_reference
  have hs := h.standsExpr hv he
  constructor
  · obtain ⟨f', hf', hb⟩ := hs.getElem? (h.grounded.ready hv).1 hr hd
    obtain rfl : f' = f := Option.some.inj (hf'.symm.trans hf)
    rcases hb with hb | hb
    · have := hg.slot?_isSome hb
      simp [hslot] at this
    · exact hb
  · obtain ⟨_, _, _, _, _, _, hal, -⟩ := hs
    obtain ⟨line, after, hc⟩ := Call.Premature.error ⟨m, ha, hslot⟩ hal.exists_frame
    obtain ⟨after', ho, -⟩ := hv.error hc
    exact ⟨line, fault?_eq_some_iff.mpr ⟨after', ho⟩⟩

end Run.Follows

/-! ### Where references lead -/

/-- The frames of a call, the innermost first. -/
def Call.frames (c : Call) : List FrameId :=
  c.machine.store.chain c.machine.scope

/-- A node leads to a frame: at its distance, or else to that of the globals. -/
def LeadsTo (m : Machine) (id : NodeId) (f : FrameId) : Prop :=
  match m.distances.get? id with
  | some distance => (m.store.chain m.scope)[distance]? = some f
  | none => f = Machine.globals

/-- If a reference gives a value, then it has read the variable of a frame, has assigned it, or has
found the superclass there. -/
def Concerns (steps : Nat) (m : Machine) (f : FrameId) (e : Expr) : Prop :=
  ∀ v after, evaluate steps e m = .ok v after →
    match e with
    | .name _ token => after = m ∧ m.store.slot? f token.lexeme = some (some v)
    | .this _ keyword => after = m ∧ m.store.slot? f keyword.lexeme = some (some v)
    | .assign _ token value => ∃ before m', steps = before + 1 ∧
      evaluate before value m = .ok v m' ∧ (m'.store.slot? f token.lexeme).isSome ∧
      after = { m' with store := m'.store.define f token.lexeme v }
    | .super _ keyword method => ∃ superclass function,
      m.store.slot? f keyword.lexeme = some (some (.classRef superclass)) ∧
      m.store.findMethod? superclass method.lexeme = some function
    | _ => True

section

variable {m m' : Machine} {id : NodeId}

lemma LeadsTo.advance (h : LeadsTo m id f) (ha : m.Advances m')
    (hs : ∃ frame, m.store.frames[m.scope]? = some frame) : LeadsTo m' id f := by
  obtain ⟨frame, hf⟩ := hs
  rw [LeadsTo, ha.distances_eq, ha.scope_eq, ha.grows.chain_eq hf]
  exact h

lemma LeadsTo.slot?_of_value (h : LeadsTo m id f)
    (hg : m.store.chain Machine.globals = [Machine.globals]) {v : Value}
    (hv : variableValue m id name = .ok v) : m.store.slot? f name = some (some v) := by
  unfold LeadsTo at h
  unfold variableValue at hv
  cases hd : m.distances.get? id with
  | some distance =>
    rw [hd] at h hv
    obtain ⟨g, hat, hslot⟩ := Store.getAt_eq_ok.mp hv
    obtain rfl := Option.some.inj (hat.symm.trans h)
    exact hslot
  | none =>
    rw [hd] at h hv
    subst h
    simpa [hg] using Store.get_eq_ok.mp hv

lemma LeadsTo.slot?_of_frame (h : LeadsTo m id f)
    (hg : m.store.chain Machine.globals = [Machine.globals]) {g : FrameId}
    (hv : variableFrame m id name = .ok g) : g = f ∧ (m.store.slot? f name).isSome := by
  unfold LeadsTo at h
  unfold variableFrame at hv
  cases hd : m.distances.get? id with
  | some distance =>
    rw [hd] at h hv
    obtain ⟨hat, hslot⟩ := Store.locateAt_eq_ok.mp hv
    obtain rfl := Option.some.inj (hat.symm.trans h)
    exact ⟨rfl, hslot⟩
  | none =>
    rw [hd] at h hv
    subst h
    have hfind := Store.locate_eq_ok.mp hv
    rw [hg] at hfind
    have hslot := List.find?_some hfind
    obtain rfl := List.mem_singleton.mp (List.mem_of_find?_eq_some hfind)
    exact ⟨rfl, hslot⟩

lemma readVariable_ok {token : Token} {v : Value} {after : Machine}
    (h : readVariable id token m = .ok v after) :
    after = m ∧ variableValue m id token.lexeme = .ok v := by
  rw [readVariable_apply] at h
  cases hv : variableValue m id token.lexeme with
  | ok value =>
    rw [hv] at h
    cases h
    exact ⟨rfl, rfl⟩
  | error cause =>
    rw [hv] at h
    cases h

lemma assign_ok {steps : Nat} {token : Token} {value : Expr} {v : Value} {after : Machine}
    (h : evaluate (steps + 1) (.assign id token value) m = .ok v after) :
    ∃ m' g, evaluate steps value m = .ok v m' ∧ variableFrame m' id token.lexeme = .ok g ∧
      after = { m' with store := m'.store.define g token.lexeme v } := by
  change (evaluate steps value >>= fun v => do writeVariable id token v; return v) m = _ at h
  cases he : evaluate steps value m with
  | error stop m' =>
    rw [Exec.bind_of_error he] at h
    cases h
  | ok w m' =>
    rw [Exec.bind_of_ok he] at h
    cases hl : variableFrame m' id token.lexeme with
    | ok g =>
      rw [Exec.bind_of_ok (writeVariable_of_ok hl w)] at h
      cases h
      exact ⟨m', g, rfl, hl, rfl⟩
    | error cause =>
      rw [Exec.bind_of_error (writeVariable_of_error hl w)] at h
      cases h

lemma readSuper_ok {keyword method : Token} {v : Value} {after : Machine}
    (h : readSuper id keyword method m = .ok v after) :
    ∃ superclass function, variableValue m id keyword.lexeme = .ok (.classRef superclass) ∧
      m.store.findMethod? superclass method.lexeme = some function := by
  simp only [readSuper, Bind.bind, EStateM.bind, Exec.get_apply] at h
  unfold variableValue
  cases hd : m.distances.get? id with
  | none =>
    rw [hd] at h
    cases h
  | some distance =>
    rw [hd] at h
    dsimp only at h ⊢
    cases hv : m.store.getAt m.scope distance keyword.lexeme with
    | error cause =>
      rw [hv] at h
      cases h
    | ok value =>
      rw [hv] at h
      cases value with
      | classRef superclass =>
        refine ⟨superclass, ?_⟩
        cases ht : m.store.getAt m.scope (distance - 1) "this" with
        | error cause =>
          simp only [Exec.ofExcept, Pure.pure, EStateM.pure, EStateM.bind, ht] at h
          cases h
        | ok receiver =>
          simp only [Exec.ofExcept, Pure.pure, EStateM.pure, EStateM.bind, ht] at h
          cases hm : m.store.findMethod? superclass method.lexeme with
          | none =>
            rw [hm] at h
            cases h
          | some function => exact ⟨function, rfl, rfl⟩
      | _ => cases h

/-- A reference concerns the frame that its node leads to. -/
lemma LeadsTo.concerns (h : LeadsTo m id f) {e : Expr} {token : Token}
    (hr : e.reference? = some (id, token))
    (hs : ∃ frame, m.store.frames[m.scope]? = some frame)
    (hg : ∃ frame, m.store.frames[Machine.globals]? = some frame ∧ frame.kind = .globals ∧
      frame.outer = []) (steps : Nat) : Concerns steps m f e := by
  have hchain : m.store.chain Machine.globals = [Machine.globals] := by
    obtain ⟨frame, hf, -, ho⟩ := hg
    simp [Store.chain, hf, ho]
  intro v after hv
  cases steps with
  | zero => cases hv
  | succ before =>
    cases e with
    | name nodeId nodeName =>
      obtain ⟨rfl, rfl⟩ : nodeId = id ∧ nodeName = token := by simpa [Expr.reference?] using hr
      obtain ⟨rfl, hvalue⟩ := readVariable_ok hv
      exact ⟨rfl, h.slot?_of_value hchain hvalue⟩
    | this nodeId keyword =>
      obtain ⟨rfl, rfl⟩ : nodeId = id ∧ keyword = token := by simpa [Expr.reference?] using hr
      obtain ⟨rfl, hvalue⟩ := readVariable_ok hv
      exact ⟨rfl, h.slot?_of_value hchain hvalue⟩
    | assign nodeId nodeName value =>
      obtain ⟨rfl, rfl⟩ : nodeId = id ∧ nodeName = token := by simpa [Expr.reference?] using hr
      obtain ⟨m', g, he, hframe, rfl⟩ := assign_ok hv
      -- the value may have opened frames, but those around the reference are the same
      have ha := (Task.perform_advances before (.expr value)).of_ok he
      obtain ⟨frame, hf, -⟩ := hg
      have hchain' := (ha.grows.chain_eq hf).trans hchain
      obtain ⟨rfl, hslot⟩ := (h.advance ha hs).slot?_of_frame hchain' hframe
      exact ⟨before, m', rfl, he, hslot, rfl⟩
    | super nodeId keyword method =>
      obtain ⟨rfl, rfl⟩ : nodeId = id ∧ keyword = token := by simpa [Expr.reference?] using hr
      obtain ⟨superclass, function, hvalue, hm⟩ := readSuper_ok hv
      exact ⟨superclass, function, h.slot?_of_value hchain hvalue, hm⟩
    | _ => exact trivial

end

end Eval

namespace Session

/-- A run of a session ends in an internal fault exactly if it accesses a variable that its frame
does not have. Such a fault is always about a missing binding, at the place of the access; and the
variable is always one whose declaration is unfinished. -/
theorem internal_fault_iff_premature (sink : Sink) (input : List UInt8) (network : Network)
    (time : Nat) {requests : List Request} {earlier later : List Run} {run : Run}
    (h : (start (.start sink input network time)).runs requests = earlier ++ run :: later) :
    ((∃ fault, run.fault? = some fault ∧ fault.cause.isInternal) ↔
      ∃ trail c f name, run.Visits trail c ∧ c.Premature f name) ∧
    (∀ fault, run.fault? = some fault → fault.cause.isInternal →
      ∃ trail c f name after, run.Visits trail c ∧ c.Premature f name ∧
        c.outcome = .error (.fault fault) after ∧ fault.cause = .noBinding name 0) ∧
    ∀ trail c f name, run.Visits trail c → c.Premature f name →
      Unfinished earlier trail f name := by
  have hfollows := (settled_start sink input network time).follows_of_runs h
  have blamed : ∀ fault, run.fault? = some fault → fault.cause.isInternal →
      ∃ trail c f name after, run.Visits trail c ∧ c.Premature f name ∧
        c.outcome = .error (.fault fault) after ∧ fault.cause = .noBinding name 0 := by
    intro fault hf hi
    obtain ⟨trail, c, after, hv, hc, hordinary | ⟨f, name, hp, hcause⟩⟩ := hfollows.mayFail hf
    · rw [hordinary.1] at hi
      cases hi
    · exact ⟨trail, c, f, name, after, hv, hp, hc, hcause⟩
  refine ⟨⟨?_, ?_⟩, blamed, ?_⟩
  · rintro ⟨fault, hf, hi⟩
    obtain ⟨trail, c, f, name, after, hv, hp, -⟩ := blamed fault hf hi
    exact ⟨trail, c, f, name, hv, hp⟩
  · rintro ⟨trail, c, f, name, hv, hp⟩
    obtain ⟨line, hf⟩ := (hfollows.premature hv hp).2
    exact ⟨_, hf, rfl⟩
  · exact fun trail c f name hv hp => (hfollows.premature hv hp).1

/-- An initializer that assigns its own variable comes too early. -/
theorem internal_fault_of_assigning_initializer :
    ∃ run, (start (.start (.ofLimit none) [] .isolated 0)).runs
        [.source 20 false "\x7b var a = (a = 1); \x7d"] = [run] ∧
      run.fault? = some ⟨.noBinding "a" 0, 1⟩ ∧
      ∃ trail c f name, run.Visits trail c ∧ c.Premature f name ∧
        Unfinished [] trail f name := by
  obtain ⟨run, hruns, hfault⟩ := List.map_eq_singleton_iff.mp
    (show ((start (.start (.ofLimit none) [] .isolated 0)).runs
      [.source 20 false "\x7b var a = (a = 1); \x7d"]).map Run.fault? =
        [some ⟨.noBinding "a" 0, 1⟩] by decide +kernel)
  obtain ⟨hiff, -, unfinished⟩ := internal_fault_iff_premature _ _ _ _
    (show _ = [] ++ run :: [] from hruns)
  obtain ⟨trail, c, f, name, hv, hp⟩ := hiff.mp ⟨_, hfault, rfl⟩
  exact ⟨run, hruns, hfault, trail, c, f, name, hv, hp, unfinished trail c f name hv hp⟩

/-- Whenever a session evaluates an expression, there is one frame for each scope that the walk had
open there, in the same order and of the same kind, and around them that of the globals. A
reference is about the frame of the scope in which its name was found, or else about the globals;
and the frame of the scope has the variable, unless its declaration is unfinished. -/
theorem frames_match_scopes (sink : Sink) (input : List UInt8) (network : Network) (time : Nat)
    {requests : List Request} {earlier later : List Run} {run : Run}
    (h : (start (.start sink input network time)).runs requests = earlier ++ run :: later)
    {trail : List Call} {c : Call} {e : Expr} (hv : run.Visits trail c) (he : c.task = .expr e) :
    ∃ p ∈ (earlier ++ [run]).map Run.program, ∃ ks r,
      p.resolve.errors = #[] ∧ Located p ks r (.expr e) ∧ ks.length = r.scopes.length ∧
      c.frames.map c.machine.store.kind? = (ks ++ [FrameKind.globals]).map some ∧
      c.frames.getLast? = some Machine.globals ∧
      ∀ id token, e.reference? = some (id, token) →
        c.machine.distances.get? id = r.distance? token.lexeme ∧
        (r.distance? token.lexeme = none → Concerns c.steps c.machine Machine.globals e) ∧
        ∀ distance, r.distance? token.lexeme = some distance →
          ∃ f scope, c.frames[distance]? = some f ∧ r.scopes[distance]? = some scope ∧
            scope.has token.lexeme ∧ Concerns c.steps c.machine f e ∧
            ((c.machine.store.slot? f token.lexeme).isSome ∨
              Unfinished earlier trail f token.lexeme) := by
  have hfollows := (settled_start sink input network time).follows_of_runs h
  have hcarries := (hfollows.grounded.ready hv).1
  have hstands := hfollows.standsExpr hv he
  obtain ⟨p, hp, ks, r, scopes, hl, ha, -⟩ := hfollows.standsExpr hv he
  have haccepted := hfollows.background.accepted p hp
  have hsite := hl.site haccepted
  refine ⟨p, hp, ks, r, haccepted.agrees.errors_eq, hl, hsite.layout.length_eq, ha.map_kind?,
    ha.getLast?, fun id token hr => ?_⟩
  have hd : c.machine.distances.get? id = r.distance? token.lexeme := by
    rw [hcarries.distances_eq]
    exact hsite.get?_eq hr
  have concerns : ∀ f, LeadsTo c.machine id f → Concerns c.steps c.machine f e :=
    fun f hf => hf.concerns hr ha.exists_frame hcarries.sited.globals c.steps
  refine ⟨hd, fun hnone => ?_, fun distance hsome => ?_⟩
  · refine concerns Machine.globals ?_
    rw [LeadsTo, hd, hnone]
  · rw [hsome] at hd
    obtain ⟨f, hf, hb⟩ := hstands.getElem? hcarries hr hd
    obtain ⟨hlt, hn, -⟩ := List.findIdx?_eq_some_iff_getElem.mp hsome
    refine ⟨f, _, hf, List.getElem?_eq_getElem hlt, hn, concerns f ?_, hb⟩
    rw [LeadsTo, hd]
    exact hf

/-- A function that an initializer calls finds the frame of the variable without it. -/
theorem frames_match_scopes_of_calling_initializer :
    ∃ run trail c e, (start (.start (.ofLimit none) [] .isolated 0)).runs
        [.source 20 false "\x7b var a = (fun () \x7b return a; \x7d)(); \x7d"] = [run] ∧
      run.Visits trail c ∧ c.task = .expr e ∧
      ∃ ks r, Located run.program ks r (.expr e) ∧
        c.frames.map c.machine.store.kind? = (ks ++ [FrameKind.globals]).map some ∧
        ∃ f ∈ c.frames, Unfinished [] trail f "a" := by
  obtain ⟨run, hruns, hfault⟩ := List.map_eq_singleton_iff.mp
    (show ((start (.start (.ofLimit none) [] .isolated 0)).runs
      [.source 20 false "\x7b var a = (fun () \x7b return a; \x7d)(); \x7d"]).map Run.fault? =
        [some ⟨.noBinding "a" 0, 1⟩] by decide +kernel)
  have hruns' : _ = [] ++ run :: [] := hruns
  obtain ⟨trail, c, _, hv, -, hordinary | ⟨f, name, ⟨m, ha, hslot⟩, hcause⟩⟩ :=
    ((settled_start _ _ _ _).follows_of_runs hruns').mayFail hfault
  · exact absurd hordinary (by decide)
  · obtain ⟨e, id, token, distance, he, hr, rfl, hd, hf, hg⟩ := ha.exists_reference
    obtain ⟨p, hp, ks, r, -, hl, -, hk, -, href⟩ := frames_match_scopes _ _ _ _ hruns' hv he
    obtain rfl := List.mem_singleton.mp hp
    obtain ⟨hd', -, hsome⟩ := href id token hr
    obtain ⟨f', scope, hf', -, -, -, hb⟩ := hsome distance (hd'.symm.trans hd)
    obtain rfl : f' = f := Option.some.inj (hf'.symm.trans hf)
    refine ⟨run, trail, c, e, hruns, hv, he, ks, r, hl, hk, f', List.mem_of_getElem? hf', ?_⟩
    obtain ⟨hname, -⟩ := Cause.noBinding.inj hcause
    rw [hname]
    rcases hb with hb | hb
    · have := hg.slot?_isSome hb
      simp [hslot] at this
    · exact hb

end Session

end Scripting
