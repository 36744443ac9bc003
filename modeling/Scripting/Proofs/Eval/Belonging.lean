import Scripting.Proofs.Eval.Effects

/-!
# Which call code belongs to

A call of a function owns the calls that go through its body, and those that go through the body of
a function or a getter that was made there, whenever that is called. `Call.Rooted` says that code
either runs outside of all receivers or is owned by a call of a member that is bound to one, and
`Kept` that the code in the store will be. Both hold at all times of a run.
-/

namespace Scripting

open Resolution

namespace Eval

namespace Call

/-- A call runs the callable at a place in the store. -/
def Runs (c : Call) (id : CallableId) : Prop :=
  ∃ k code, c.machine.store.callables[id]? = some k ∧ k.code? = some code ∧
    c.task.code? = some code

/-- A call runs a member of a class, which is bound to a receiver. -/
def RunsMember (c : Call) : Prop :=
  ∃ cls d f, c.task.code? = some (d, f) ∧ c.machine.store.Binds cls d f

/-- A call of a function or a getter owns those that go through its body, part by part, and those
that go through the body of what is made there, in whatever call that is visited. -/
inductive Owns (visited : Call → Prop) (c : Call) : Call → Prop
  | body {w : Call} {x : Place} : c.Makes w → w.task.place? = some x → Owns visited c w
  | part {u w : Call} {x : Place} : Owns visited c u → u.Makes w → w.task.place? = some x →
    Owns visited c w
  | closure {u t w : Call} {id : CallableId} {x : Place} : Owns visited c u → u.Creates id →
    visited t → t.Runs id → t.Makes w → w.task.place? = some x → Owns visited c w

end Call

/-- A callable at a place in the store runs outside of all receivers, is a bound member, or was made
by code that a call of a bound member owns. -/
inductive Origin (visited : Call → Prop) (s : Store) (id : CallableId) (d : Place) (f : FrameId) :
    Prop
  | free : s.Receiverless f → Origin visited s id d f
  | bound {cls : ClassId} : s.Binds cls d f → Origin visited s id d f
  | made {v u : Call} : visited v → v.RunsMember → v.Owns visited u → u.Creates id →
    Origin visited s id d f

/-- The frame that the members of a class are closed over holds the superclass that the class was
declared with, if it is for a superclass. -/
def ClosedOver (visited : Call → Prop) (s : Store) (c : ClassId) (cls : Class)
    (closure : FrameId) : Prop :=
  (∃ frame, s.frames[closure]? = some frame ∧ frame.kind ≠ .superclass) ∨
    ∃ superclass, s.slot? closure "super" = some (some (.classRef superclass)) ∧
      ∃ x, visited x ∧ x.Derives c superclass cls.ancestors

/-- What holds of the store all the time: it is known where frames, classes and callables come
from. -/
structure Kept (visited : Call → Prop) (s : Store) : Prop where
  marked : s.Marked
  class_ : ∀ (c : ClassId) (cls : Class) (d : Place) (closure : FrameId),
    s.classes[c]? = some cls → cls.Has d closure → ClosedOver visited s c cls closure
  callable : ∀ (id : CallableId) (k : Callable) (d : Place) (f : FrameId),
    s.callables[id]? = some k → k.code? = some (d, f) → Origin visited s id d f

/-- What holds of every call: it is known where its code comes from. -/
structure Call.Rooted (visited : Call → Prop) (c : Call) : Prop where
  place : ∀ x, c.task.place? = some x → c.machine.store.Receiverless c.machine.scope ∨
    ∃ v, visited v ∧ v.RunsMember ∧ v.Owns visited c
  code : ∀ d f, c.task.code? = some (d, f) → c.machine.store.Receiverless f ∨
    (∃ cls, c.machine.store.Binds cls d f) ∨
    ∃ v u id, visited v ∧ v.RunsMember ∧ v.Owns visited u ∧ u.Creates id ∧ c.Runs id
  callable : ∀ k arguments, c.task = .callable k arguments →
    ∃ id : CallableId, c.machine.store.callables[id]? = some k

section

variable {visited visited' : Call → Prop}

/-! ### More calls may be visited -/

lemma Call.Owns.mono (hv : ∀ c, visited c → visited' c) {v c : Call} (h : v.Owns visited c) :
    v.Owns visited' c := by
  induction h with
  | body hm hx => exact .body hm hx
  | part _ hm hx ih => exact .part ih hm hx
  | closure _ hc ht hr hm hx ih => exact .closure ih hc (hv _ ht) hr hm hx

/-- What a visited call owns is visited. -/
lemma Call.Owns.mem (hmakes : ∀ c c', visited c → c.Makes c' → visited c') {v c : Call}
    (h : v.Owns visited c) (hv : visited v) : visited c := by
  induction h with
  | body hm _ => exact hmakes _ _ hv hm
  | part _ hm _ ih => exact hmakes _ _ ih hm
  | closure _ _ ht _ hm _ _ => exact hmakes _ _ ht hm

lemma Kept.mono (hv : ∀ c, visited c → visited' c) {s : Store} (h : Kept visited s) :
    Kept visited' s where
  marked := h.marked
  class_ := by
    intro c cls d closure hc hd
    rcases h.class_ c cls d closure hc hd with hk | ⟨superclass, hs, x, hx, hderives⟩
    · exact .inl hk
    · exact .inr ⟨superclass, hs, x, hv x hx, hderives⟩
  callable := by
    intro id k d f hk hd
    cases h.callable id k d f hk hd with
    | free hf => exact .free hf
    | bound hb => exact .bound hb
    | made hvisited hmember howns hcreates =>
      exact .made (hv _ hvisited) hmember (howns.mono hv) hcreates

lemma Call.Rooted.mono (hv : ∀ c, visited c → visited' c) {c : Call} (h : c.Rooted visited) :
    c.Rooted visited' where
  place := by
    intro x hx
    rcases h.place x hx with hf | ⟨v, hvisited, hmember, howns⟩
    · exact .inl hf
    · exact .inr ⟨v, hv v hvisited, hmember, howns.mono hv⟩
  code := by
    intro d f hd
    rcases h.code d f hd with hf | hb | ⟨v, u, id, hvisited, hmember, howns, hcreates, hruns⟩
    · exact .inl hf
    · exact .inr (.inl hb)
    · exact .inr (.inr ⟨v, u, id, hv v hvisited, hmember, howns.mono hv, hcreates, hruns⟩)
  callable := h.callable

/-! ### What calls do to the store -/

variable {s s' : Store} {c c' : Call}

lemma Effect.fixes (h : Effect c s s') : s.Fixes s' := by
  induction h with
  | quiet hg hf _ _ => exact .of_frames_eq hg hf
  | trans _ _ ih ih' => exact ih.trans ih'
  | write f slot hn => exact Store.fixes_setSlot f hn slot
  | scope f _ _ => exact Store.fixes_openFrame _ f _
  | receiver f _ => exact Store.fixes_openFrame _ f _
  | superclass f superclass => exact Store.fixes_openFrame _ f _
  | closure _ _ _ => exact .of_frames_eq (Store.grows_addCallable _ _) rfl
  | member _ _ => exact .of_frames_eq (Store.grows_addCallable _ _) rfl
  | host _ _ => exact .of_frames_eq (Store.grows_addCallable _ _) rfl
  | class_ _ => exact .of_frames_eq (Store.grows_addClass _ _) rfl

lemma Effect.marked (h : Effect c s s') (hs : s.Marked) : s'.Marked := by
  induction h with
  | quiet _ hf _ _ => exact hs.congr hf
  | trans _ _ ih ih' => exact ih' (ih hs)
  | write f slot hn => exact hs.setSlot f hn slot
  | @scope _ kind vars f hk hv =>
    have hnone : ∀ word, IsReserved word → Record.get? vars word = none := by
      intro word hw
      simpa [Record.has] using hv word hw
    refine hs.openFrame kind f ⟨?_, ?_, fun _ => hnone _ (.inl rfl), fun _ => hnone _ (.inr rfl)⟩
    · rintro rfl
      simp at hk
    · rintro rfl
      simp at hk
  | @receiver s value f hv =>
    obtain ⟨i, rfl⟩ : ∃ i, value = .instanceRef i := by
      rcases hv with hv | ⟨g, hg⟩
      · exact hv
      · obtain ⟨-, i, hi⟩ := hs.of_this hg
        exact ⟨i, Option.some.inj hi⟩
    refine hs.openFrame .receiver f ⟨fun _ => ⟨i, ?_⟩, by simp, by simp, fun _ => ?_⟩
    · simp [Record.get?_singleton]
    · simp [Record.get?_singleton]
  | superclass f superclass =>
    refine hs.openFrame .superclass f ⟨by simp, fun _ => ⟨superclass, ?_⟩, fun _ => ?_, by simp⟩
    · simp [Record.get?_singleton]
    · simp [Record.get?_singleton]
  | closure _ _ _ => exact hs.congr rfl
  | member _ _ => exact hs.congr rfl
  | host _ _ => exact hs.congr rfl
  | class_ _ => exact hs.congr rfl

lemma Origin.grow {id : CallableId} {d : Place} {f : FrameId} (h : Origin visited s id d f)
    (hg : s.Grows s') : Origin visited s' id d f := by
  cases h with
  | free hf => exact .free (hf.mono hg)
  | bound hb => exact .bound (hb.mono hg)
  | made hv hm ho hc => exact .made hv hm ho hc

lemma ClosedOver.grow {id : ClassId} {cls : Class} {closure : FrameId}
    (h : ClosedOver visited s id cls closure) (hf : s.Fixes s') :
    ClosedOver visited s' id cls closure := by
  rcases h with ⟨frame, hframe, hk⟩ | ⟨superclass, hs, hrest⟩
  · obtain ⟨frame', hframe', hg⟩ := hf.frame closure frame hframe
    exact .inl ⟨frame', hframe', hg.kind_eq ▸ hk⟩
  · obtain ⟨frame, hframe, -⟩ := Option.bind_eq_some_iff.mp hs
    exact .inr ⟨superclass, (hf.slot?_eq closure frame hframe _ (.inr rfl)).trans hs, hrest⟩

/-- As a store grows, only the new classes and callables are to be looked at. -/
lemma Kept.grow (h : Kept visited s) (hf : s.Fixes s') (hm : s'.Marked)
    (hclass : ∀ (id : ClassId) (cls : Class) (d : Place) (closure : FrameId),
      s'.classes[id]? = some cls → cls.Has d closure →
        s.classes[id]? = some cls ∨ ClosedOver visited s' id cls closure)
    (hcallable : ∀ (id : CallableId) (k : Callable) (d : Place) (f : FrameId),
      s'.callables[id]? = some k → k.code? = some (d, f) →
        s.callables[id]? = some k ∨ Origin visited s' id d f) : Kept visited s' where
  marked := hm
  class_ := by
    intro id cls d closure hc hd
    rcases hclass id cls d closure hc hd with hc | hc
    · exact (h.class_ id cls d closure hc hd).grow hf
    · exact hc
  callable := by
    intro id k d f hk hd
    rcases hcallable id k d f hk hd with hk | hk
    · exact (h.callable id k d f hk hd).grow hf.toGrows
    · exact hk

lemma Kept.addCallable (h : Kept visited s) {k : Callable}
    (hk : ∀ d f, k.code? = some (d, f) →
      Origin visited (s.addCallable k).2 s.callables.size d f) :
    Kept visited (s.addCallable k).2 := by
  refine h.grow (.of_frames_eq (s.grows_addCallable k) rfl) (h.marked.congr rfl)
    (fun _ _ _ _ hc _ => .inl hc) fun id k' d f hid hd => ?_
  simp only [Store.addCallable, Array.getElem?_push] at hid
  split at hid
  · next he =>
    obtain rfl : k = k' := by simpa using hid
    subst he
    exact .inr (hk d f hd)
  · exact .inl hid

/-- The actions of a call keep the store so, if it is known where its own code comes from. -/
theorem Effect.kept (h : Effect c s s') (hv : visited c) (hc : c.Rooted visited)
    (hs : Kept visited s) : Kept visited s' := by
  have hfixes := h.fixes
  have hmarked := h.marked hs.marked
  induction h with
  | quiet _ _ hk hcls =>
    refine hs.grow hfixes hmarked (fun _ _ _ _ hid _ => .inl ?_) fun _ _ _ _ hid _ => .inl ?_
    · rwa [hcls] at hid
    · rwa [hk] at hid
  | trans h h' ih ih' =>
    have hmid := ih hs h.fixes (h.marked hs.marked)
    exact ih' hmid h'.fixes hmarked
  | write f slot hn =>
    exact hs.grow hfixes hmarked (fun _ _ _ _ hid _ => .inl hid) fun _ _ _ _ hid _ => .inl hid
  | scope f _ _ =>
    exact hs.grow hfixes hmarked (fun _ _ _ _ hid _ => .inl hid) fun _ _ _ _ hid _ => .inl hid
  | receiver f _ =>
    exact hs.grow hfixes hmarked (fun _ _ _ _ hid _ => .inl hid) fun _ _ _ _ hid _ => .inl hid
  | superclass f superclass =>
    exact hs.grow hfixes hmarked (fun _ _ _ _ hid _ => .inl hid) fun _ _ _ _ hid _ => .inl hid
  | @closure s k d hg hcreates hk =>
    refine hs.addCallable fun d' f hd => ?_
    obtain ⟨rfl, rfl⟩ : d = d' ∧ c.machine.scope = f := by simpa using hk.symm.trans hd
    obtain ⟨x, hx⟩ : ∃ x, c.task.place? = some x := by
      rcases hcreates.2.2 with ⟨d, he⟩ | ⟨d, he⟩ | ⟨d, he⟩
      · exact ⟨_, by rw [he]; rfl⟩
      · exact ⟨_, by rw [he]; rfl⟩
      · exact ⟨_, by rw [he]; rfl⟩
    -- what is made belongs to the same call as the code that makes it
    rcases hc.place x hx with hf | ⟨v, hvisited, hmember, howns⟩
    · exact .free ((hf.mono hg).mono hfixes.toGrows)
    · exact .made hvisited hmember howns hcreates
  | @member s k cls d f hk hb =>
    refine hs.addCallable fun d' f' hd => ?_
    obtain ⟨rfl, rfl⟩ : d = d' ∧ f = f' := by simpa using hk.symm.trans hd
    exact .bound (hb.mono hfixes.toGrows)
  | host method i => exact hs.addCallable fun d f hd => by cases hd
  | @class_ s cls hcls =>
    refine hs.grow hfixes hmarked (fun id cls' d closure hid hd => ?_)
      fun _ _ _ _ hid _ => .inl hid
    simp only [Store.addClass, Array.getElem?_push] at hid
    split at hid
    · next he =>
      obtain rfl : cls = cls' := by simpa using hid
      subst he
      have hclosed : ClosedOver visited s s.classes.size cls closure := by
        rcases hcls d closure hd with hk | ⟨superclass, hslot, hderives⟩
        · exact .inl hk
        · exact .inr ⟨superclass, hslot, c, hv, hderives⟩
      exact .inr (hclosed.grow hfixes)
    · exact .inl hid

/-! ### What calls are made for -/

/-- For a call that goes through code, it is enough to know who owns it. -/
lemma Call.Rooted.of_place {x : Place} (hx : c.task.place? = some x)
    (h : c.machine.store.Receiverless c.machine.scope ∨
      ∃ v, visited v ∧ v.RunsMember ∧ v.Owns visited c) : c.Rooted visited := by
  obtain ⟨hcode, hcallable⟩ := Task.code?_eq_none_of_place? hx
  refine ⟨fun _ _ => h, fun d f hd => ?_, fun k arguments he => absurd he (hcallable k arguments)⟩
  rw [hcode] at hd
  cases hd

/-- For a call that runs a declaration, it is enough to know where that comes from. -/
lemma Call.Rooted.of_code {d : Place} {f : FrameId} (hd : c.task.code? = some (d, f))
    (h : c.machine.store.Receiverless f ∨ (∃ cls, c.machine.store.Binds cls d f) ∨
      ∃ v u id, visited v ∧ v.RunsMember ∧ v.Owns visited u ∧ u.Creates id ∧ c.Runs id) :
    c.Rooted visited := by
  obtain ⟨hplace, hcallable⟩ := Task.place?_eq_none_of_code? hd
  refine ⟨fun x hx => ?_, fun d' f' hd' => ?_,
    fun k arguments he => absurd he (hcallable k arguments)⟩
  · rw [hplace] at hx
    cases hx
  · obtain ⟨rfl, rfl⟩ : d = d' ∧ f = f' := by simpa using hd.symm.trans hd'
    exact h

/-- A callable in the store is run with what is known of it. -/
lemma Call.Rooted.of_stored (hs : Kept visited c.machine.store) {id : CallableId} {k : Callable}
    {code : Place × FrameId} (hk : c.machine.store.callables[id]? = some k)
    (hcode : k.code? = some code) (ht : c.task.code? = some code) : c.Rooted visited := by
  obtain ⟨d, f⟩ := code
  refine .of_code ht ?_
  cases hs.callable id k d f hk hcode with
  | free hf => exact .inl hf
  | bound hb => exact .inr (.inl ⟨_, hb⟩)
  | made hvisited hmember howns hcreates =>
    exact .inr (.inr ⟨_, _, id, hvisited, hmember, howns, hcreates, k, (d, f), hk, hcode, ht⟩)

/-- The calls that a call makes are known to come from where it does. -/
theorem Leads.rooted (h : Leads c c') (hm : c.Makes c') (hv : visited c) (hc : c.Rooted visited)
    (hs : Kept visited c'.machine.store) : c'.Rooted visited := by
  cases h with
  | part hx hx' _ hg hscope =>
    refine .of_place hx' ?_
    rcases hc.place _ hx with hf | ⟨v, hvisited, hmember, howns⟩
    · rw [hscope]
      exact .inl (hf.mono hg)
    · exact .inr ⟨v, hvisited, hmember, .part howns hm hx'⟩
  | block hx hx' _ hg hframe =>
    refine .of_place hx' ?_
    rcases hc.place _ hx with hf | ⟨v, hvisited, hmember, howns⟩
    · exact .inl (hf.of_frame hg hframe (by simp) rfl)
    · exact .inr ⟨v, hvisited, hmember, .part howns hm hx'⟩
  | @body d x' f vars hd hx' _ hg hframe =>
    refine .of_place hx' ?_
    -- a bound member owns its body; a function that was made in one stays with its owner
    rcases hc.code d f hd with hf | ⟨cls, hb⟩ |
      ⟨v, u, id, hvisited, hmember, howns, hcreates, hruns⟩
    · exact .inl (hf.of_frame hg hframe (by simp) rfl)
    · exact .inr ⟨c, hv, ⟨cls, d, f, hd, hb⟩, .body hm hx'⟩
    · exact .inr ⟨v, hvisited, hmember, .closure howns hcreates hv hruns hm hx'⟩
  | value hplace hcode hcallable =>
    refine ⟨fun x hx => ?_, fun d f hd => ?_,
      fun k arguments he => absurd he (hcallable k arguments)⟩
    · rw [hplace] at hx
      cases hx
    · rw [hcode] at hd
      cases hd
  | @callable k arguments id he hk =>
    refine ⟨fun x hx => ?_, fun d f hd => ?_, fun k' arguments' he' => ⟨id, ?_⟩⟩
    · rw [he] at hx
      cases hx
    · rw [he] at hd
      cases hd
    · obtain ⟨rfl, -⟩ : k = k' ∧ arguments = arguments' := by simpa using he.symm.trans he'
      exact hk
  | run he hcode ht hmachine =>
    obtain ⟨id, hk⟩ := hc.callable _ _ he
    rw [← hmachine] at hk
    exact .of_stored hs hk hcode ht
  | getter id he hk => exact .of_stored hs hk rfl (by rw [he]; rfl)
  | initializer hd hb => exact .of_code hd (.inr (.inl ⟨_, hb⟩))

end

/-! ### Runs -/

/-- The statements of a program are outside of all receivers. -/
lemma Run.Grounded.rooted_of_starts {b : Background} {run : Run} {visited : Call → Prop}
    (h : run.Grounded b) {root : Call} (hr : run.Starts root) : root.Rooted visited := by
  obtain ⟨⟨s, -, ht⟩, hadvances⟩ := advances_of_asks_programPlan hr.2
  have hcarries := (h.ready ⟨root, hr, .start⟩).1
  refine .of_place (x := .stmt s) (by rw [ht]; rfl) (.inl ?_)
  rw [hadvances.scope_eq, h.scope_eq, Store.Receiverless, chain_globals hcarries.sited]
  intro g hg
  obtain rfl := List.mem_singleton.mp hg
  obtain ⟨frame, hf, hk, -⟩ := hcarries.sited.globals
  exact ⟨frame, hf, by simp [hk]⟩

/-- At all times of a run it is known where the code comes from, and the reserved words of frames
stay as they are. -/
theorem Run.Grounded.kept {b : Background} {run : Run} {visited : Call → Prop}
    (h : run.Grounded b) (hv : ∀ trail c, run.Visits trail c → visited c)
    (hstart : Kept visited run.machine.store) :
    (∀ trail c, run.Visits trail c → c.Rooted visited ∧ Kept visited c.machine.store) ∧
      Kept visited run.after.store := by
  let relies := fun trail c => run.Visits trail c ∧ c.Rooted visited
  have hdoes : ∀ trail c, relies trail c → c.Does (fun s s' => Kept visited s → Kept visited s')
      (fun c' => c.Makes c' → Kept visited c'.machine.store → relies (c :: trail) c') := by
    rintro trail c ⟨hc, hroot⟩
    refine (Call.does (h.ready hc)).mono (fun s s' he hs => he.kept (hv _ _ hc) hroot hs) ?_
    intro c' hm hl _ hs
    obtain ⟨root, hr, hreach⟩ := hc
    exact ⟨⟨root, hr, .made hreach hm⟩, hl.rooted hm (hv _ _ ⟨root, hr, hreach⟩) hroot hs⟩
  obtain ⟨hcalls, hend⟩ := Run.keeps_of_does hdoes hstart fun root hr _ =>
    ⟨⟨root, hr, .start⟩, h.rooted_of_starts hr⟩
  exact ⟨fun trail c hc => ⟨(hcalls trail c hc).1.2, (hcalls trail c hc).2⟩, hend⟩

end Eval

end Scripting
