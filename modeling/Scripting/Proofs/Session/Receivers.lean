import Scripting.Proofs.Eval.Receivers
import Scripting.Proofs.Eval.Trace
import Scripting.Proofs.Session.History

/-!
# Receivers and superclasses in a session

What a frame holds under `this` or `super` never changes in a session, over all of its runs. Hence
a function or a getter that was bound to an instance has this receiver for good, wherever it and the
functions that are made in it are called later on. And a `super` leads to the class that the class
around it was declared with, whatever has been assigned and overridden since.
-/

namespace Scripting

open Resolution Eval

namespace Eval

/-- A run carries on what is known of the calls. -/
theorem History.run {b : Background} {earlier : List Run} {run : Run}
    (h : History (VisitedIn earlier) run.machine.store) (hg : run.Grounded b) :
    run.machine.store.Fixes run.after.store ∧
      History (VisitedIn (earlier ++ [run])) run.after.store := by
  have hmono : ∀ c, VisitedIn earlier c → VisitedIn (earlier ++ [run]) c := by
    rintro c ⟨r, hr, hv⟩
    exact ⟨r, List.mem_append_left _ hr, hv⟩
  have hlast : ∀ trail c, run.Visits trail c → VisitedIn (earlier ++ [run]) c :=
    fun trail c hv => ⟨run, List.mem_append_right _ List.mem_cons_self, trail, hv⟩
  have hcases : ∀ c, VisitedIn (earlier ++ [run]) c →
      VisitedIn earlier c ∨ ∃ trail, run.Visits trail c := by
    rintro c ⟨r, hr, hv⟩
    rcases List.mem_append.mp hr with hr | hr
    · exact .inl ⟨r, hr, hv⟩
    · obtain rfl := List.mem_singleton.mp hr
      exact .inr hv
  obtain ⟨hfixes, hcalls⟩ := Run.related_of_visits Store.Fixes.refl
    (fun _ _ _ hs hs' => hs.trans hs') fun trail c hv =>
      (Call.does (hg.ready hv)).mono (fun _ _ he => he.fixes) fun _ _ _ => trivial
  obtain ⟨hrooted, hkept⟩ := hg.kept hlast (h.kept.mono hmono)
  refine ⟨hfixes, ?_, ?_, ?_, ?_, ?_, hkept⟩
  · rintro c c' ⟨r, hr, trail, root, hroot, hreach⟩ hm
    exact ⟨r, hr, c :: trail, root, hroot, .made hreach hm⟩
  · intro c hc
    rcases hcases c hc with hc | ⟨trail, hv⟩
    · exact h.ready c hc
    · exact ⟨b, trail, hg.ready hv⟩
  · intro c hc
    rcases hcases c hc with hc | ⟨trail, hv⟩
    · exact (h.rooted c hc).mono hmono
    · exact (hrooted trail c hv).1
  · intro c hc
    rcases hcases c hc with hc | ⟨trail, hv⟩
    · exact (h.fixes_start c hc).trans hfixes
    · obtain ⟨-, hstart, hend⟩ := hcalls trail c hv
      exact hstart.trans hend
  · intro c hc
    rcases hcases c hc with hc | ⟨trail, hv⟩
    · exact (h.fixes_end c hc).trans hfixes
    · exact (hcalls trail c hv).2.2

end Eval

namespace Session

/-- In the beginning, no frame has a receiver or a superclass. -/
lemma history_start (sink : Sink) (input : List UInt8) (network : Network) (time : Nat) :
    History (VisitedIn []) (start (.start sink input network time)).machine.store := by
  have hnone : ∀ c, ¬ VisitedIn [] c := by
    rintro c ⟨run, hr, -⟩
    cases hr
  refine ⟨fun c _ hc => absurd hc (hnone c), fun c hc => absurd hc (hnone c),
    fun c hc => absurd hc (hnone c), fun c hc => absurd hc (hnone c),
    fun c hc => absurd hc (hnone c), ?_, ?_, ?_⟩
  · intro f frame hf
    have hf : frame ∈ Machine.builtins.frames.toList :=
      Array.mem_toList_iff.mpr (Array.mem_of_getElem? hf)
    obtain rfl := List.mem_singleton.mp hf
    refine ⟨by simp, by simp, fun _ => ?_, fun _ => ?_⟩
    · simp [Record.get?, List.lookup_cons]
    · simp [Record.get?, List.lookup_cons]
  · intro c cls d closure hc hd
    obtain ⟨host, rfl⟩ := exists_host_of_getElem? hc
    cases hd with
    | method hf => cases hf
    | getter hg => cases hg
  · intro id k d f hk hd
    obtain ⟨b, rfl⟩ := exists_builtin_of_getElem? hk
    cases hd

/-- Requests carry on what is known of the calls. -/
theorem Settled.history {s : Session} {earlier : List Run} (h : s.Settled earlier)
    (hh : History (VisitedIn earlier) s.machine.store) (requests : List Request) :
    s.machine.store.Fixes (s.after requests).machine.store ∧
      History (VisitedIn (earlier ++ s.runs requests)) (s.after requests).machine.store := by
  induction requests generalizing s earlier with
  | nil =>
    rw [runs, List.append_nil]
    exact ⟨.refl _, hh⟩
  | cons q rest ih =>
    -- one request: a run carries everything on, and without one the store stays as it is
    have hsettled := h.perform q
    have hspec := q.perform_spec s
    have hstep : s.machine.store.Fixes (q.perform s).2.machine.store ∧
        History (VisitedIn (earlier ++ (q.run? s).toList)) (q.perform s).2.machine.store := by
      cases hr : q.run? s with
      | none =>
        rw [hr] at hspec
        rw [hspec.store_eq, Option.toList_none, List.append_nil]
        exact ⟨.refl _, hh⟩
      | some run =>
        rw [hr] at hspec
        obtain ⟨s', hpass, hmachine, -, -, hresult⟩ := hspec.prepared
        have hstore : s.machine.store = run.machine.store := by
          rw [← hmachine, hpass.store_eq]
        have hafter : (q.perform s).2.machine.store = run.after.store := by
          rw [hresult]
          exact (s'.conclude_spec run).1
        rw [hafter, hstore]
        rw [hstore] at hh
        exact hh.run (h.follows hspec).grounded
    obtain ⟨hfixes, hrest⟩ := ih hsettled hstep.2
    rw [runs, ← List.append_assoc]
    exact ⟨hstep.1.trans hfixes, hrest⟩

/-- A store as it is at some time of a session: between the requests, and where a call starts or
ends. -/
inductive Moment (s : Session) (requests : List Request) : Store → Prop
  | between {before later : List Request} : requests = before ++ later →
    Moment s requests (s.after before).machine.store
  | starts {c : Call} : VisitedIn (s.runs requests) c → Moment s requests c.machine.store
  | ends {c : Call} : VisitedIn (s.runs requests) c → Moment s requests c.after.store

/-- A frame holds a value under a word at all times of a session, as soon as the frame is there. -/
def HoldsThroughout (s : Session) (requests : List Request) (f : FrameId) (word : String)
    (value : Value) : Prop :=
  ∀ m, s.Moment requests m → (m.frames[f]?).isSome → m.slot? f word = some (some value)

section

variable {sink : Sink} {input : List UInt8} {network : Network} {time : Nat}
  {requests : List Request}

/-- What is known of the calls of a session. -/
lemma history_after :
    let s := start (.start sink input network time)
    History (VisitedIn (s.runs requests)) (s.after requests).machine.store :=
  ((settled_start sink input network time).history (history_start sink input network time)
    requests).2

/-- The end of a session has the reserved words that its frames have ever had. -/
lemma Moment.fixes {m : Store} (h : (start (.start sink input network time)).Moment requests m) :
    m.Fixes ((start (.start sink input network time)).after requests).machine.store := by
  cases h with
  | @between before later he =>
    have hsettled := (settled_start sink input network time).after before
    subst he
    rw [after_append]
    exact (hsettled.history history_after later).1
  | starts hc => exact history_after.fixes_start _ hc
  | ends hc => exact history_after.fixes_end _ hc

/-- A reserved word of a frame has one value for the whole session. -/
lemma Moment.holdsThroughout {m : Store} {f : FrameId} {word : String} {value : Value}
    (h : (start (.start sink input network time)).Moment requests m)
    (hs : m.slot? f word = some (some value)) (hw : IsReserved word) :
    (start (.start sink input network time)).HoldsThroughout requests f word value := by
  intro m' hm' hf'
  obtain ⟨frame, hf⟩ := Option.isSome_iff_exists.mp hf'
  exact (hm'.fixes.slot?_eq f frame hf word hw).symm.trans (h.fixes.slot?_of_some hs hw)

end

/-- **Receivers are stable.** A frame that has a receiver has the same instance at all times of a
session, and one that has a superclass the same class. When a function or a getter is called that is
closed over a frame with a receiver, every `this` in its body and in the functions that are made
there evaluates to this receiver, whenever those are called. And every `this` is evaluated so: it
belongs to the call of a member that it is written in. -/
theorem receivers_stable (sink : Sink) (input : List UInt8) (network : Network) (time : Nat)
    (requests : List Request) :
    let s := start (.start sink input network time)
    let visited := VisitedIn (s.runs requests)
    (∀ m f slot, s.Moment requests m → m.slot? f "this" = some slot →
      ∃ i, slot = some (.instanceRef i) ∧
        s.HoldsThroughout requests f "this" (.instanceRef i)) ∧
    (∀ m f slot, s.Moment requests m → m.slot? f "super" = some slot →
      ∃ k, slot = some (.classRef k) ∧
        s.HoldsThroughout requests f "super" (.classRef k)) ∧
    (∀ v d f i, visited v → v.task.code? = some (d, f) →
      v.machine.store.slot? f "this" = some (some (.instanceRef i)) →
        ∀ c id keyword, v.Owns visited c → c.task = .expr (.this id keyword) → c.steps ≠ 0 →
          evaluate c.steps (.this id keyword) c.machine = .ok (.instanceRef i) c.machine) ∧
    ∀ c id keyword, visited c → c.task = .expr (.this id keyword) →
      ∃ v k d f i, visited v ∧ v.BoundTo k d f i ∧ v.Owns visited c ∧
        d.HoldsLocally (.expr (.this id keyword)) := by
  intro s visited
  have hh : History visited (s.after requests).machine.store := history_after
  refine ⟨fun m f slot hm hs => ?_, fun m f slot hm hs => ?_, ?_, ?_⟩
  · have hend := hm.fixes.slot?_of_some hs (.inl rfl)
    obtain ⟨-, i, rfl⟩ := hh.kept.marked.of_this hend
    exact ⟨i, rfl, hm.holdsThroughout hs (.inl rfl)⟩
  · have hend := hm.fixes.slot?_of_some hs (.inr rfl)
    obtain ⟨k, rfl⟩ := hh.kept.marked.of_super hend
    exact ⟨k, rfl, hm.holdsThroughout hs (.inr rfl)⟩
  · intro v d f i hv hd hi c id keyword ho ht hsteps
    exact hh.evaluate_this hv hd hi ho ht hsteps
  · intro c id keyword hc ht
    refine hh.exists_boundTo hc ht fun p ks r hacc hl => ?_
    obtain ⟨distance, -, hdistance⟩ := hl.get?_this hacc
    exact ⟨distance, hdistance⟩

/-- A function that has left its method, and is called as a property of another instance. -/
theorem receivers_stable_escaped :
    let s := start (.start (.ofLimit none) [] .isolated 0)
    let requests :=
      [Request.source 20 false
        "class A \x7b m() \x7b return fun() \x7b return this; \x7d; \x7d \x7d",
      .source 20 false "var a = A(); var b = A(); b.f = a.m(); print b.f() == a;"]
    let visited := VisitedIn (s.runs requests)
    (s.after requests).machine.sink.taken = "true\n".toUTF8 ∧
      ∃ v d f i c id keyword, visited v ∧ v.task.code? = some (d, f) ∧
        s.HoldsThroughout requests f "this" (.instanceRef i) ∧ v.Owns visited c ∧
        c.task = .expr (.this id keyword) ∧ d.HoldsLocally (.expr (.this id keyword)) ∧
        evaluate c.steps (.this id keyword) c.machine = .ok (.instanceRef i) c.machine := by
  intro s requests visited
  obtain ⟨hs, hprinted⟩ :
      (((s.runs requests).flatMap Run.calls).any fun c => c.this?.isSome && c.steps != 0) ∧
        (s.after requests).machine.sink.taken = "true\n".toUTF8 := by
    decide +kernel
  obtain ⟨c, hc, htest⟩ := exists_visitedIn hs
  obtain ⟨hthis, hsteps⟩ : c.this?.isSome ∧ c.steps ≠ 0 := by simpa using htest
  obtain ⟨node, hnode⟩ := Option.isSome_iff_exists.mp hthis
  have ht := Call.task_of_this? hnode
  obtain ⟨hholds, -, hvalue, howner⟩ := receivers_stable (.ofLimit none) [] .isolated 0 requests
  obtain ⟨v, k, d, f, i, hv, hb, ho, hlocal⟩ := howner c _ _ hc ht
  obtain ⟨i', hi', hi⟩ := hholds _ f _ (.starts hv) hb.slot?_eq
  cases hi'
  exact ⟨hprinted, v, d, f, i, c, _, _, hv, hb.code?_eq, hi, ho, ht, hlocal,
    hvalue v d f i hv hb.code?_eq hb.slot?_eq c _ _ ho ht hsteps⟩

/-- **Dispatch of `super` is static and keeps the receiver.** Every `super` of a program that comes
to a run is written in a member of a class with a superclass. Its distance is at least two and leads
to the scope with this superclass; the scope directly inside has the receiver of the same class.
Whenever it is evaluated, it belongs to the call of a member that it is written in. The method is
looked for from the class on that the class of this member was declared with, and it is bound to the
instance that the member is bound to. -/
theorem super_dispatches_statically (sink : Sink) (input : List UInt8) (network : Network)
    (time : Nat) (requests : List Request) :
    let s := start (.start sink input network time)
    let visited := VisitedIn (s.runs requests)
    (∀ run ∈ s.runs requests, ∀ ks r id keyword method,
      Located run.program ks r (.expr (.super id keyword method)) →
        ∃ distance inner ks₀ name superclass methods getters,
          run.machine.distances.get? id = some distance ∧ 2 ≤ distance ∧
          MemberOf run.program ks r (.expr (.super id keyword method)) inner ks₀ name
            (some superclass) methods getters ∧ distance - 1 = inner.length ∧
          (∃ scope, r.scopes[distance - 1]? = some scope ∧ scope.has "this") ∧
          ∃ scope, r.scopes[distance]? = some scope ∧ scope.has "super") ∧
    (∀ c id keyword method, visited c → c.task = .expr (.super id keyword method) →
      ∃ v k d f i, visited v ∧ v.BoundTo k d f i ∧ v.Owns visited c ∧
        d.HoldsLocally (.expr (.super id keyword method))) ∧
    ∀ v k d f i, visited v → v.BoundTo k d f i →
      ∀ c id keyword method, v.Owns visited c → c.task = .expr (.super id keyword method) →
        c.steps ≠ 0 →
        ∃ superclass,
          (∃ x ancestors, visited x ∧ x.Derives k superclass ancestors ∧
            v.machine.store.lineage k = k :: ancestors) ∧
          (c.machine.store.findMethod? superclass method.lexeme = none →
            evaluate c.steps (.super id keyword method) c.machine =
              .error (.fault ⟨.undefinedProperty method.lexeme, method.line⟩) c.machine) ∧
          ∀ function, c.machine.store.findMethod? superclass method.lexeme = some function →
            evaluate c.steps (.super id keyword method) c.machine =
              let bound := c.machine.store.bindFunction function (.instanceRef i)
              .ok (bound.2.addFunction bound.1).1
                { c.machine with store := (bound.2.addFunction bound.1).2 } := by
  intro s visited
  have hh : History visited (s.after requests).machine.store := history_after
  refine ⟨?_, ?_, ?_⟩
  · intro run hrun ks r id keyword method hl
    obtain ⟨before, later, hruns⟩ := List.append_of_mem hrun
    have hfollows := (settled_start sink input network time).follows_of_runs hruns
    have hacc := hfollows.accepted run (List.mem_append_right _ List.mem_cons_self)
    obtain ⟨inner, ks₀, name, superclass, methods, getters, hm, -, -, hget, hne, hthis, hsuper⟩ :=
      hl.super_memberOf hacc
    have hpos := List.length_pos_iff.mpr hne
    exact ⟨inner.length + 1, inner, ks₀, name, superclass, methods, getters, hget,
      Nat.succ_le_succ hpos, hm, rfl, hthis, hsuper⟩
  · intro c id keyword method hc ht
    refine hh.exists_boundTo hc ht fun p ks r hacc hl => ?_
    obtain ⟨inner, -, -, -, -, -, -, hreceiver, -⟩ := hl.super_memberOf hacc
    exact ⟨_, hreceiver⟩
  · intro v k d f i hv hb c id keyword method ho ht hsteps
    exact hh.evaluate_super hv hb ho ht hsteps

/-- A method of a class in the middle asks for the one that its class has overridden. The instance
is of a class below that overrides it, too, and the name of the class above has got lost. -/
theorem super_dispatches_statically_overridden :
    let s := start (.start (.ofLimit none) [] .isolated 0)
    let requests :=
      [Request.source 20 false "class A \x7b m() \x7b return \"A\"; \x7d \x7d",
      .source 20 false
        "class B < A \x7b m() \x7b return \"B\"; \x7d n() \x7b return super.m(); \x7d \x7d",
      .source 20 false "class C < B \x7b m() \x7b return \"C\"; \x7d \x7d A = nil; print C().n();"]
    let visited := VisitedIn (s.runs requests)
    (s.after requests).machine.sink.taken = "A\n".toUTF8 ∧
      ∃ v k d f i c id keyword method superclass function, visited v ∧ v.BoundTo k d f i ∧
        v.Owns visited c ∧ c.task = .expr (.super id keyword method) ∧
        (∃ x ancestors, visited x ∧ x.Derives k superclass ancestors ∧
          v.machine.store.lineage k = k :: ancestors) ∧
        c.machine.store.findMethod? superclass method.lexeme = some function ∧
        evaluate c.steps (.super id keyword method) c.machine =
          let bound := c.machine.store.bindFunction function (.instanceRef i)
          .ok (bound.2.addFunction bound.1).1
            { c.machine with store := (bound.2.addFunction bound.1).2 } := by
  intro s requests visited
  obtain ⟨hs, hprinted, hfaults⟩ :
      (((s.runs requests).flatMap Run.calls).any fun c => c.super?.isSome && c.steps != 0) ∧
        (s.after requests).machine.sink.taken = "A\n".toUTF8 ∧
        ∀ run ∈ s.runs requests, run.fault? = none := by
    decide +kernel
  obtain ⟨c, hc, htest⟩ := exists_visitedIn hs
  obtain ⟨hsuper, hsteps⟩ : c.super?.isSome ∧ c.steps ≠ 0 := by simpa using htest
  obtain ⟨node, hnode⟩ := Option.isSome_iff_exists.mp hsuper
  have ht := Call.task_of_super? hnode
  obtain ⟨-, howner, hdispatch⟩ :=
    super_dispatches_statically (.ofLimit none) [] .isolated 0 requests
  obtain ⟨v, k, d, f, i, hv, hb, ho, -⟩ := howner c _ _ _ hc ht
  obtain ⟨superclass, hderives, hnone, hsome⟩ := hdispatch v k d f i hv hb c _ _ _ ho ht hsteps
  cases hfound : c.machine.store.findMethod? superclass node.2.2.lexeme with
  | some function =>
    exact ⟨hprinted, v, k, d, f, i, c, _, _, _, superclass, function, hv, hb, ho, ht,
      hderives, hfound, hsome function hfound⟩
  | none =>
    -- then the run would have ended in a fault
    obtain ⟨run, hrun, trail, hvisits⟩ := hc
    have herror := hnone hfound
    obtain ⟨steps, t, m⟩ := c
    obtain rfl : t = _ := ht
    obtain ⟨after, ho, -⟩ := hvisits.error herror
    have hfault := Run.fault?_eq_some_iff.mpr ⟨after, ho⟩
    rw [hfaults run hrun] at hfault
    cases hfault

end Session

end Scripting
