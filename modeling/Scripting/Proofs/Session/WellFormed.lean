import Scripting.Proofs.Eval.WellFormed
import Scripting.Proofs.Session.Receivers

/-!
# The heap of a session

At all times of a session the store is well-formed: frames and classes hang on older ones, and
everything that is referred to is there, by the store itself as well as by what is in use. So every
look-up that follows frames or superclasses comes to an end.
-/

namespace Scripting

open Eval

/-- The built-in functions and classes refer to nothing. -/
lemma Machine.wellFormed_builtins : Machine.builtins.WellFormed where
  globals := ⟨_, rfl, rfl⟩
  enclosed := by
    intro f frame hf hne
    have hlt : f < 1 := (Array.getElem?_eq_some_iff.mp hf).1
    exact absurd (Nat.lt_one_iff.mp hlt) hne
  derived := by
    intro c cls hc
    obtain ⟨host, rfl⟩ := Session.exists_host_of_getElem? hc
    exact .inl rfl
  frame := by
    intro f frame hf
    have hf : frame ∈ Machine.builtins.frames.toList :=
      Array.mem_toList_iff.mpr (Array.mem_of_getElem? hf)
    obtain rfl := List.mem_singleton.mp hf
    simp [Store.HasAll, Frame.references, Value.references, Store.Has, builtins, socketClass,
      serverSocketClass]
  callable := by
    intro i k hk
    obtain ⟨b, rfl⟩ := Session.exists_builtin_of_getElem? hk
    exact .nil
  class_ := by
    intro c cls hc
    obtain ⟨host, rfl⟩ := Session.exists_host_of_getElem? hc
    exact .nil
  instance_ := by
    intro i inst hi
    cases hi

/-- Only what is in the store and in use matters. -/
lemma Machine.WellFormed.congr {m m' : Machine} (h : m.WellFormed) (hs : m'.store = m.store)
    (hf : m'.scope = m.scope) (hh : m'.held = m.held) : m'.WellFormed := by
  obtain ⟨hstore, hroots, hsockets⟩ := h
  refine ⟨hs ▸ hstore, ?_, hs ▸ hsockets⟩
  rw [Machine.roots, hs, hf, hh]
  exact hroots

namespace Session

/-- In the beginning nothing is in use but the frame of the globals. -/
lemma wellFormed_start (sink : Sink) (input : List UInt8) (network : Network) (time : Nat) :
    (start (.start sink input network time)).machine.WellFormed := by
  have hs := Machine.wellFormed_builtins
  have hg : Machine.builtins.Has (.frame Machine.globals) := hs.has_globals
  refine ⟨hs, Store.HasAll.cons_iff.mpr ⟨hg, Store.HasAll.cons_iff.mpr ⟨hg, .nil⟩⟩, ?_⟩
  show (0 : Nat) < 2
  omega

variable {s s' : Session}

lemma Passes.heap (h : s.Passes s') (hm : s.machine.WellFormed) : s'.machine.WellFormed :=
  hm.congr h.store_eq h.scope_eq h.held_eq

/-- A run finds a well-formed machine, and the session is left with one. -/
lemma Makes.heap {run : Run} {result : StepResult × Session} (h : s.Makes run result)
    (hm : s.machine.WellFormed) :
    run.machine.WellFormed ∧ result.2.machine.WellFormed := by
  obtain ⟨s', hpass, hmachine, -, -, rfl⟩ := h.prepared
  have hrun : run.machine.WellFormed := hmachine ▸ hpass.heap hm
  obtain ⟨hs, hscope, hheld, -, -⟩ := s'.conclude_spec run
  exact ⟨hrun, (Run.wellFormed hrun).2.congr hs hscope hheld⟩

/-- Requests keep the machine well-formed, and so their runs find it. -/
theorem wellFormed_after (requests : List Request) (hm : s.machine.WellFormed) :
    (s.after requests).machine.WellFormed ∧ ∀ run ∈ s.runs requests, run.machine.WellFormed := by
  induction requests generalizing s with
  | nil => exact ⟨hm, by simp [runs]⟩
  | cons q rest ih =>
    have hspec := q.perform_spec s
    have hstep : (q.perform s).2.machine.WellFormed ∧
        ∀ run ∈ (q.run? s).toList, run.machine.WellFormed := by
      cases hr : q.run? s with
      | none =>
        rw [hr] at hspec
        exact ⟨hspec.heap hm, by simp⟩
      | some run =>
        rw [hr] at hspec
        obtain ⟨hrun, hafter⟩ := hspec.heap hm
        exact ⟨hafter, by simpa using hrun⟩
    obtain ⟨hafter, hruns⟩ := ih hstep.1
    refine ⟨hafter, fun run hrun => ?_⟩
    rw [runs] at hrun
    rcases List.mem_append.mp hrun with hrun | hrun
    · exact hstep.2 run hrun
    · exact hruns run hrun

section

variable {sink : Sink} {input : List UInt8} {network : Network} {time : Nat}
  {requests : List Request}

/-- Every call of a session starts on a well-formed machine and with what is there. -/
lemma ready_of_visited {c : Call}
    (hc : VisitedIn ((start (.start sink input network time)).runs requests) c) :
    ∃ trail, heapLaw.ready trail c := by
  obtain ⟨run, hrun, trail, hv⟩ := hc
  have hm := (wellFormed_after requests (wellFormed_start sink input network time)).2 run hrun
  exact ⟨trail, (Run.wellFormed hm).1 trail c hv⟩

lemma Moment.wellFormed {m : Store}
    (h : (start (.start sink input network time)).Moment requests m) : m.WellFormed := by
  cases h with
  | @between before later he =>
    exact (wellFormed_after before (wellFormed_start sink input network time)).1.store
  | starts hc =>
    obtain ⟨_, hready⟩ := ready_of_visited hc
    exact hready.1.store
  | ends hc =>
    obtain ⟨_, hready⟩ := ready_of_visited hc
    exact (Call.wellFormed_after hready).store

end

/-- **The heap is well-formed.** At all times of a session every frame but that of the globals hangs
on an older one, and every class that has a superclass on an older class; these links are the same
at all times, and those of frames end with the globals. Whatever frames, callables, classes and
instances refer to is there, and so is what a call has in use, what it is given and what it gives.
Hence all look-ups that go from link to link come to an end after as many steps as there are older
frames or classes, with the answers of `get`, `assign`, `getAt`, `findMethod?` and `findGetter?`. -/
theorem heap_wellFormed (sink : Sink) (input : List UInt8) (network : Network) (time : Nat)
    (requests : List Request) :
    let s := start (.start sink input network time)
    (∀ m, s.Moment requests m →
      (∀ f, m.chain f = f :: ((m.enclosing? f).map m.chain).getD []) ∧
      (∀ f parent, m.enclosing? f = some parent → parent < f) ∧
      (∀ f, m.Has (.frame f) → (m.chain f).getLast? = some Machine.globals) ∧
      (∀ c, m.lineage c = c :: ((m.superclass? c).map m.lineage).getD []) ∧
      (∀ c superclass, m.superclass? c = some superclass → superclass < c) ∧
      ∀ r, m.HasAll (m.referencesOf r)) ∧
    (∀ m m', s.Moment requests m → s.Moment requests m' →
      (∀ f, m.Has (.frame f) → m'.Has (.frame f) → m'.enclosing? f = m.enclosing? f) ∧
      ∀ c, m.Has (.classRef c) → m'.Has (.classRef c) → m'.superclass? c = m.superclass? c) ∧
    (∀ before later, requests = before ++ later →
      let between := (s.after before).machine
      between.store.HasAll between.roots) ∧
    (∀ c, VisitedIn (s.runs requests) c →
      c.machine.store.HasAll (c.machine.roots ++ c.task.references) ∧
      c.after.store.HasAll c.after.roots ∧
      ∀ r after, c.outcome = .ok r after → after.store.HasAll (c.task.resultReferences r)) ∧
    ∀ m, s.Moment requests m → ∀ name,
      (∀ f, ∃ slot?, follow m.enclosing? (m.slot? · name) (f + 1) f = some slot? ∧
        m.get f name = slot?.elim (.error (.undefinedVariable name)) Store.readSlot) ∧
      (∀ f value, ∃ g?, follow m.enclosing? (Option.guard fun g => (m.slot? g name).isSome)
          (f + 1) f = some g? ∧
        m.assign f name value =
          g?.elim (.error (.undefinedVariable name)) fun g => .ok (m.define g name value)) ∧
      (∀ f distance, m.getAt f distance name =
        (climb m.enclosing? distance f).elim (.error (.noBinding name distance)) fun g =>
          (m.slot? g name).elim (.error (.noBinding name 0)) Store.readSlot) ∧
      ∀ c,
        follow m.superclass? (fun k => (m.classes[k]?).bind (·.methods.get? name)) (c + 1) c =
          some (m.findMethod? c name) ∧
        follow m.superclass? (fun k => (m.classes[k]?).bind (·.getters.get? name)) (c + 1) c =
          some (m.findGetter? c name) := by
  intro s
  have hvisited {c : Call} (hc : VisitedIn (s.runs requests) c) :
      ∃ trail, heapLaw.ready trail c := ready_of_visited hc
  refine ⟨fun m hm => ?_, fun m m' hm hm' => ?_, ?_, fun c hc => ?_, fun m hm name => ?_⟩
  · have hwf := hm.wellFormed
    exact ⟨hwf.descends_chain.path_eq, hwf.descends_chain.lt, fun _ => hwf.getLast?_chain,
      hwf.descends_lineage.path_eq, hwf.descends_lineage.lt, hwf.hasAll_referencesOf⟩
  · -- both are as at the end of the session
    have hend := hm.fixes.toGrows
    have hend' := hm'.fixes.toGrows
    refine ⟨fun f hf hf' => ?_, fun c hc hc' => ?_⟩
    · exact (hend'.enclosing?_eq hf').symm.trans (hend.enclosing?_eq hf)
    · exact (hend'.superclass?_eq hc').symm.trans (hend.superclass?_eq hc)
  · rintro before later -
    exact (wellFormed_after before (wellFormed_start sink input network time)).1.roots
  · obtain ⟨trail, hready⟩ := hvisited hc
    refine ⟨Store.HasAll.append_iff.mpr ⟨hready.1.roots, hready.2⟩,
      (Call.wellFormed_after hready).roots, fun r after ho => ?_⟩
    exact (heapLaw_sound.settles c.steps trail c.task c.machine r after hready ho).2
  · have hwf := hm.wellFormed
    exact ⟨fun f => hwf.get_eq_follow f name, fun f => hwf.assign_eq_follow f name,
      fun f distance => hwf.getAt_eq_climb f distance name,
      fun c => ⟨hwf.descends_lineage.follow_eq _ (Nat.lt_succ_self c),
        hwf.descends_lineage.follow_eq _ (Nat.lt_succ_self c)⟩⟩

/-- An instance, a function in its field, the frames around that and the instance again refer to one
another in a circle, and a script has ended in a fault. -/
theorem heap_wellFormed_circular :
    let s := start (.start (.ofLimit none) [] .isolated 0)
    let requests :=
      [Request.source 30 false
        "class A \x7b init() \x7b this.f = fun() \x7b return this; \x7d; \x7d \x7d class B < A \x7b \x7d",
      .source 30 false "var b = B(); print b.f() == b; b.g;"]
    let m := (s.after requests).machine.store
    (.callable 3 ∈ m.referencesOf (.instanceRef 0) ∧ .frame 3 ∈ m.referencesOf (.callable 3) ∧
      .frame 2 ∈ m.referencesOf (.frame 3) ∧ .instanceRef 0 ∈ m.referencesOf (.frame 2)) ∧
    m.HasAll (m.referencesOf (.frame 2)) ∧
    (m.enclosing? 4 = some 3 ∧ (3 : Nat) < 4) ∧
    (m.Has (.frame 4) ∧ (m.chain 4).getLast? = some Machine.globals) ∧
    (m.superclass? 3 = some 2 ∧ (2 : Nat) < 3) ∧
    (∃ c r after, VisitedIn (s.runs requests) c ∧ c.outcome = .ok r after ∧
      after.store.HasAll (c.task.resultReferences r)) ∧
    ∃ slot?, follow m.enclosing? (m.slot? · "b") (4 + 1) 4 = some slot? ∧
      m.get 4 "b" = slot?.elim (.error (.undefinedVariable "b")) Store.readSlot := by
  intro s requests m
  have hm : s.Moment requests m := .between (List.append_nil requests).symm
  obtain ⟨hlinks, -, -, hcalls, hlook⟩ := heap_wellFormed (.ofLimit none) [] .isolated 0 requests
  obtain ⟨-, henclosing, hglobals, -, hsuperclass, hrefers⟩ := hlinks m hm
  obtain ⟨hchain, hderived, hframe, hgives, hcircle⟩ :
      m.enclosing? 4 = some 3 ∧ m.superclass? 3 = some 2 ∧ (4 : Nat) < m.frames.size ∧
        ((s.runs requests).flatMap Run.calls).any Call.givesResult ∧
        (.callable 3 ∈ m.referencesOf (.instanceRef 0) ∧ .frame 3 ∈ m.referencesOf (.callable 3) ∧
          .frame 2 ∈ m.referencesOf (.frame 3) ∧ .instanceRef 0 ∈ m.referencesOf (.frame 2)) := by
    decide +kernel
  obtain ⟨c, hc, htest⟩ := exists_visitedIn hgives
  obtain ⟨r, after, ho⟩ := Call.exists_of_givesResult htest
  exact ⟨hcircle, hrefers (.frame 2), ⟨hchain, henclosing 4 3 hchain⟩, ⟨hframe, hglobals 4 hframe⟩,
    ⟨hderived, hsuperclass 3 2 hderived⟩, ⟨c, r, after, hc, ho, (hcalls c hc).2.2 r after ho⟩,
    (hlook m hm "b").1 4⟩

end Session

end Scripting
