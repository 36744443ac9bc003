import Scripting.Proofs.Resolution.Sites
import Scripting.Proofs.Store.Frames
import Scripting.Eval

/-!
# Frames and scopes

A chain of frames fits the scopes that the walk through a program had open at a place: there is one
frame for each scope, of the kind that the scope was opened for, and around them only the frame of
the global variables. A frame has the variables of its scope, apart from those that are *pending*:
a declaration that was begun and is not complete.

Whatever code a store holds stands somewhere in a program, in scopes that the frames it is closed
over fit.
-/

namespace Scripting

open Resolution

namespace Store

variable {pending pending' : FrameId → String → Prop} {s s' : Store}

/-- What a frame was opened for. -/
def kind? (s : Store) (f : FrameId) : Option FrameKind :=
  (s.frames[f]?).map Frame.kind

/-- A frame of a kind that has the variables of a scope, apart from pending ones. -/
structure Fits (pending : FrameId → String → Prop) (s : Store) (f : FrameId) (kind : FrameKind)
    (scope : Scope) : Prop where
  frame : ∃ frame, s.frames[f]? = some frame ∧ frame.kind = kind
  has : ∀ name, scope.has name → (s.slot? f name).isSome ∨ pending f name

/-- A chain of frames that fits scopes, which were opened for the given. -/
inductive Aligned (pending : FrameId → String → Prop) (s : Store) :
    List FrameId → List FrameKind → List Scope → Prop
  | globals : s.Fits pending Machine.globals .globals [] →
    Aligned pending s [Machine.globals] [] []
  | frame {f : FrameId} {kind : FrameKind} {scope : Scope} {fs : List FrameId}
      {ks : List FrameKind} {scopes : List Scope} :
    s.Fits pending f kind scope → Aligned pending s fs ks scopes →
      Aligned pending s (f :: fs) (kind :: ks) (scope :: scopes)

/-- Stores grow, and a pending variable stays pending until it is there. -/
lemma Fits.mono {f : FrameId} {kind : FrameKind} {scope : Scope}
    (h : s.Fits pending f kind scope) (hg : s.Grows s')
    (hp : ∀ f name, pending f name → (s'.slot? f name).isSome ∨ pending' f name) :
    s'.Fits pending' f kind scope := by
  obtain ⟨frame, hf, hk⟩ := h.frame
  obtain ⟨frame', hf', hfg⟩ := hg.frame f frame hf
  refine ⟨⟨frame', hf', hfg.kind_eq.trans hk⟩, fun name hn => ?_⟩
  rcases h.has name hn with hs | hs
  · exact .inl (hg.slot?_isSome hs)
  · exact hp f name hs

namespace Aligned

variable {fs : List FrameId} {ks : List FrameKind} {scopes : List Scope}

lemma mono (h : s.Aligned pending fs ks scopes) (hg : s.Grows s')
    (hp : ∀ f name, pending f name → (s'.slot? f name).isSome ∨ pending' f name) :
    s'.Aligned pending' fs ks scopes := by
  induction h with
  | globals hf => exact .globals (hf.mono hg hp)
  | frame hf _ ih => exact .frame (hf.mono hg hp) ih

/-- A frame whose chain is aligned is there. -/
lemma exists_frame {f : FrameId} (h : s.Aligned pending (s.chain f) ks scopes) :
    ∃ frame, s.frames[f]? = some frame := by
  generalize hc : s.chain f = fs at h
  have hhead : fs.head? = some f := by rw [← hc]; rfl
  cases h with
  | globals hf =>
    obtain rfl : Machine.globals = f := by simpa using hhead
    obtain ⟨frame, hf, -⟩ := hf.frame
    exact ⟨frame, hf⟩
  | frame hf _ =>
    obtain rfl : _ = f := by simpa using hhead
    obtain ⟨frame, hf, -⟩ := hf.frame
    exact ⟨frame, hf⟩

/-- The frames of a chain stay aligned as the store grows. -/
lemma mono_chain {f : FrameId} (h : s.Aligned pending (s.chain f) ks scopes) (hg : s.Grows s')
    (hp : ∀ f name, pending f name → (s'.slot? f name).isSome ∨ pending' f name) :
    s'.Aligned pending' (s'.chain f) ks scopes := by
  obtain ⟨frame, hf⟩ := h.exists_frame
  rw [hg.chain_eq hf]
  exact h.mono hg hp

/-- The kinds of the frames are those of the scopes, and then comes that of the globals. -/
lemma map_kind? (h : s.Aligned pending fs ks scopes) :
    fs.map s.kind? = (ks ++ [FrameKind.globals]).map some := by
  induction h with
  | globals hf =>
    obtain ⟨frame, hf, hk⟩ := hf.frame
    simp [kind?, hf, hk]
  | frame hf _ ih =>
    obtain ⟨frame, hf, hk⟩ := hf.frame
    simp only [List.map_cons, ih, kind?, hf, Option.map_some, hk, List.cons_append]

/-- The frame of the globals is the outermost. -/
lemma getLast? (h : s.Aligned pending fs ks scopes) : fs.getLast? = some Machine.globals := by
  induction h with
  | globals _ => rfl
  | frame _ _ ih => rw [List.getLast?_cons, ih, Option.getD_some]

/-- At the distance of a scope is a frame that fits it. -/
lemma getElem? (h : s.Aligned pending fs ks scopes) {distance : Nat} {scope : Scope}
    (hs : scopes[distance]? = some scope) :
    ∃ f kind, fs[distance]? = some f ∧ ks[distance]? = some kind ∧
      s.Fits pending f kind scope := by
  induction h generalizing distance with
  | globals _ => simp at hs
  | @frame f kind inner fs ks scopes hf _ ih =>
    cases distance with
    | zero =>
      obtain rfl : inner = scope := by simpa using hs
      exact ⟨f, kind, rfl, rfl, hf⟩
    | succ distance => exact ih (by simpa using hs)

/-- At the distance of a name is a frame that has the variable, unless that is pending. -/
lemma getElem?_of_distance (h : s.Aligned pending fs ks scopes) {distance : Nat} {name : String}
    (hd : scopes.findIdx? (Record.has · name) = some distance) :
    ∃ f kind, fs[distance]? = some f ∧ ks[distance]? = some kind ∧
      ((s.slot? f name).isSome ∨ pending f name) := by
  obtain ⟨hlt, hn, -⟩ := List.findIdx?_eq_some_iff_getElem.mp hd
  obtain ⟨f, kind, hf, hk, hfits⟩ := h.getElem? (List.getElem?_eq_getElem hlt)
  exact ⟨f, kind, hf, hk, hfits.has name hn⟩

/-- A name may be entered into the innermost scope if the frame has the variable, or else if the
variable is pending. -/
lemma enter {f : FrameId} (h : s.Aligned pending (s.chain f) ks scopes) {name : String}
    (hn : (s.slot? f name).isSome ∨ pending f name) (complete : Bool) :
    s.Aligned pending (s.chain f) ks (enterScope scopes name complete) := by
  unfold chain at h ⊢
  generalize ((s.frames[f]?).map Frame.outer).getD [] = outer at h ⊢
  cases h with
  | globals hf => exact .globals hf
  | frame hf hr =>
    refine .frame ⟨hf.frame, fun other ho => ?_⟩ hr
    by_cases he : other = name
    · exact he ▸ hn
    · exact hf.has other (by simpa [he] using ho)

lemma introduce {f : FrameId} (h : s.Aligned pending (s.chain f) ks scopes) {name : String}
    (hn : (s.slot? f name).isSome) :
    s.Aligned pending (s.chain f) ks (introduceScope scopes name) :=
  (h.enter (.inl hn) false).enter (.inl hn) true

end Aligned

/-! ### Opening frames -/

/-- A frame that is opened with the variables of a scope fits it. -/
lemma Aligned.openFrame {ks : List FrameKind} {scopes : List Scope} {f : FrameId}
    (h : s.Aligned pending (s.chain f) ks scopes) (kind : FrameKind)
    (vars : Record (Option Value)) (scope : Scope)
    (hv : ∀ name, scope.has name → vars.has name) :
    (s.openFrame kind f vars).2.Aligned pending
      ((s.openFrame kind f vars).2.chain (s.openFrame kind f vars).1) (kind :: ks)
      (scope :: scopes) := by
  rw [chain_openFrame]
  refine .frame ⟨⟨_, frames_openFrame s kind f vars, rfl⟩, fun name hn => .inl ?_⟩ ?_
  · rw [slot?_openFrame]
    exact hv name hn
  · exact h.mono (grows_openFrame s kind f vars) fun _ _ hp => .inr hp

/-! ### Where the code in a store stands -/

variable {programs : List Program}

/-- Code from a place in one of the programs may run in a frame: its chain fits the scopes. -/
def Stands (programs : List Program) (pending : FrameId → String → Prop) (s : Store)
    (f : FrameId) (x : Place) : Prop :=
  ∃ p ∈ programs, ∃ ks r, Located p ks r x ∧ s.Aligned pending (s.chain f) ks r.scopes

/-- A member of a class may run in a frame that holds a receiver and is inside of the given one. -/
def StandsUnbound (programs : List Program) (pending : FrameId → String → Prop) (s : Store)
    (f : FrameId) (x : Place) : Prop :=
  ∃ p ∈ programs, ∃ ks r scopes, Located p (.receiver :: ks) r x ∧
    r.scopes = [("this", true)] :: scopes ∧ s.Aligned pending (s.chain f) ks scopes

/-- A callable may run in the frame that it is closed over; an initializer finds its receiver
there. -/
def StandsCallable (programs : List Program) (pending : FrameId → String → Prop) (s : Store) :
    Callable → Prop
  | .function f => s.Stands programs pending f.closure (.function f.declaration) ∧
      (f.isInitializer → (s.slot? f.closure "this").isSome)
  | .getter g => s.Stands programs pending g.closure (.getter g.declaration)
  | _ => True

/-- The members of a class may run once they have a receiver. -/
structure StandsClass (programs : List Program) (pending : FrameId → String → Prop) (s : Store)
    (cls : Class) : Prop where
  method : ∀ name f, Record.get? cls.methods name = some f →
    s.StandsUnbound programs pending f.closure (.function f.declaration)
  getter : ∀ name g, Record.get? cls.getters name = some g →
    s.StandsUnbound programs pending g.closure (.getter g.declaration)

/-- All code in a store stands somewhere in the programs, and `super` is always a class. -/
structure Sited (programs : List Program) (pending : FrameId → String → Prop) (s : Store) :
    Prop where
  globals : ∃ frame, s.frames[Machine.globals]? = some frame ∧ frame.kind = .globals ∧
    frame.outer = []
  callable : ∀ (i : CallableId) (k : Callable), s.callables[i]? = some k →
    s.StandsCallable programs pending k
  class_ : ∀ (c : ClassId) (cls : Class), s.classes[c]? = some cls →
    s.StandsClass programs pending cls
  super : ∀ f slot, s.slot? f "super" = some slot → ∃ c, slot = some (.classRef c)

section

variable (hg : s.Grows s')
  (hp : ∀ f name, pending f name → (s'.slot? f name).isSome ∨ pending' f name)

include hg hp

lemma Stands.mono {f : FrameId} {x : Place} (h : s.Stands programs pending f x) :
    s'.Stands programs pending' f x := by
  obtain ⟨p, hprog, ks, r, hl, ha⟩ := h
  exact ⟨p, hprog, ks, r, hl, ha.mono_chain hg hp⟩

lemma StandsUnbound.mono {f : FrameId} {x : Place} (h : s.StandsUnbound programs pending f x) :
    s'.StandsUnbound programs pending' f x := by
  obtain ⟨p, hprog, ks, r, scopes, hl, hs, ha⟩ := h
  exact ⟨p, hprog, ks, r, scopes, hl, hs, ha.mono_chain hg hp⟩

lemma StandsCallable.mono {k : Callable} (h : s.StandsCallable programs pending k) :
    s'.StandsCallable programs pending' k := by
  cases k with
  | function f => exact ⟨h.1.mono hg hp, fun hi => hg.slot?_isSome (h.2 hi)⟩
  | getter g => exact Stands.mono hg hp h
  | builtin b => exact trivial
  | hostMethod method receiver => exact trivial

lemma StandsClass.mono {cls : Class} (h : s.StandsClass programs pending cls) :
    s'.StandsClass programs pending' cls :=
  ⟨fun name f hf => (h.method name f hf).mono hg hp,
    fun name g hget => (h.getter name g hget).mono hg hp⟩

/-- Growing keeps the code where it stands; what is to be shown is that of the new code. -/
lemma Sited.grow (h : s.Sited programs pending)
    (hcallable : ∀ (i : CallableId) (k : Callable), s'.callables[i]? = some k →
      s.callables[i]? = some k ∨ s'.StandsCallable programs pending' k)
    (hclass : ∀ (c : ClassId) (cls : Class), s'.classes[c]? = some cls →
      s.classes[c]? = some cls ∨ s'.StandsClass programs pending' cls)
    (hsuper : ∀ f slot, s'.slot? f "super" = some slot → ∃ c, slot = some (.classRef c)) :
    s'.Sited programs pending' where
  globals := by
    obtain ⟨frame, hf, hk, ho⟩ := h.globals
    obtain ⟨frame', hf', hfg⟩ := hg.frame _ frame hf
    exact ⟨frame', hf', hfg.kind_eq.trans hk, hfg.outer_eq.trans ho⟩
  callable := by
    intro i k hk
    rcases hcallable i k hk with hk | hk
    · exact (h.callable i k hk).mono hg hp
    · exact hk
  class_ := by
    intro c cls hc
    rcases hclass c cls hc with hc | hc
    · exact (h.class_ c cls hc).mono hg hp
    · exact hc
  super := hsuper

end

section

variable {programs' : List Program} (hs : programs ⊆ programs')

include hs

lemma Stands.subset {f : FrameId} {x : Place} (h : s.Stands programs pending f x) :
    s.Stands programs' pending f x := by
  obtain ⟨p, hp, ks, r, hl, ha⟩ := h
  exact ⟨p, hs hp, ks, r, hl, ha⟩

lemma StandsUnbound.subset {f : FrameId} {x : Place} (h : s.StandsUnbound programs pending f x) :
    s.StandsUnbound programs' pending f x := by
  obtain ⟨p, hp, ks, r, scopes, hl, hr, ha⟩ := h
  exact ⟨p, hs hp, ks, r, scopes, hl, hr, ha⟩

lemma StandsCallable.subset {k : Callable} (h : s.StandsCallable programs pending k) :
    s.StandsCallable programs' pending k := by
  cases k with
  | function f => exact ⟨h.1.subset hs, h.2⟩
  | getter g => exact Stands.subset hs h
  | builtin b => exact trivial
  | hostMethod method receiver => exact trivial

/-- There may be more programs than those of the code in a store. -/
lemma Sited.subset (h : s.Sited programs pending) : s.Sited programs' pending where
  globals := h.globals
  callable := fun i k hk => (h.callable i k hk).subset hs
  class_ := fun c cls hc =>
    ⟨fun name f hf => ((h.class_ c cls hc).method name f hf).subset hs,
      fun name g hg => ((h.class_ c cls hc).getter name g hg).subset hs⟩
  super := h.super

end

/-- Code stands where the code does that it is part of, if the walk opens no scope in between. -/
lemma Stands.part {f : FrameId} {x x' : Place} {state : Resolution → Resolution}
    (h : s.Stands programs pending f x) (hs : ∀ r, (state r).scopes = r.scopes)
    (hy : ∀ r, ⟨x', [], state r⟩ ∈ x.parts r) : s.Stands programs pending f x' := by
  obtain ⟨p, hp, ks, r, hl, ha⟩ := h
  refine ⟨p, hp, _, _, .part hl (hy r), ?_⟩
  rw [hs]
  exact ha

lemma Stands.exists_frame {f : FrameId} {x : Place} (h : s.Stands programs pending f x) :
    ∃ frame, s.frames[f]? = some frame := by
  obtain ⟨p, hp, ks, r, hl, ha⟩ := h
  exact ha.exists_frame

namespace Sited

/-- What is pending may change as long as nothing gets lost. -/
lemma imp (h : s.Sited programs pending)
    (hp : ∀ f name, pending f name → (s.slot? f name).isSome ∨ pending' f name) :
    s.Sited programs pending' :=
  h.grow (.refl s) hp (fun _ _ hk => .inl hk) (fun _ _ hc => .inl hc) h.super

/-- Instances do not matter. -/
lemma congr (h : s.Sited programs pending) (hg : s.Grows s') (hf : s'.frames = s.frames)
    (hk : s'.callables = s.callables) (hc : s'.classes = s.classes) :
    s'.Sited programs pending := by
  refine h.grow hg (fun _ _ hp => .inr hp) ?_ ?_ ?_
  · intro i k hi
    rw [hk] at hi
    exact .inl hi
  · intro c cls hi
    rw [hc] at hi
    exact .inl hi
  · intro f slot hs
    rw [slot?, hf] at hs
    exact h.super f slot hs

lemma openFrame (h : s.Sited programs pending) (kind : FrameKind) (f : FrameId)
    {vars : Record (Option Value)}
    (hv : ∀ slot, Record.get? vars "super" = some slot → ∃ c, slot = some (.classRef c)) :
    (s.openFrame kind f vars).2.Sited programs pending := by
  refine h.grow (grows_openFrame s kind f vars) (fun _ _ hp => .inr hp) (fun _ _ hk => .inl hk)
    (fun _ _ hc => .inl hc) ?_
  intro g slot hs
  simp only [slot?, Store.openFrame, addFrame, Array.getElem?_push] at hs
  split at hs
  · exact hv slot (by simpa using hs)
  · exact h.super g slot hs

lemma setSlot (h : s.Sited programs pending) (f : FrameId) {name : String} (hn : name ≠ "super")
    (slot : Option Value) : (s.setSlot f name slot).Sited programs pending := by
  refine h.grow (grows_setSlot s f name slot) (fun _ _ hp => .inr hp) (fun _ _ hk => .inl hk)
    (fun _ _ hc => .inl hc) ?_
  intro g held hs
  refine h.super g held ?_
  rw [← hs]
  simp only [slot?, Store.setSlot, Array.getElem?_modify]
  split
  · cases s.frames[g]? with
    | none => rfl
    | some frame => simp [hn.symm]
  · rfl

lemma addCallable (h : s.Sited programs pending) {k : Callable}
    (hk : s.StandsCallable programs pending k) : (s.addCallable k).2.Sited programs pending := by
  have hg := grows_addCallable s k
  refine h.grow hg (fun _ _ hp => .inr hp) ?_ (fun _ _ hc => .inl hc) h.super
  intro i k' hi
  simp only [Store.addCallable, Array.getElem?_push] at hi
  split at hi
  · obtain rfl : k = k' := by simpa using hi
    exact .inr (hk.mono hg fun _ _ hp => .inr hp)
  · exact .inl hi

lemma addClass (h : s.Sited programs pending) {cls : Class}
    (hc : s.StandsClass programs pending cls) :
    (s.addClass cls).2.Sited programs pending := by
  have hg := grows_addClass s cls
  refine h.grow hg (fun _ _ hp => .inr hp) (fun _ _ hk => .inl hk) ?_ h.super
  intro c cls' hi
  simp only [Store.addClass, Array.getElem?_push] at hi
  split at hi
  · obtain rfl : cls = cls' := by simpa using hi
    exact .inr (hc.mono hg fun _ _ hp => .inr hp)
  · exact .inl hi

/-! Members that are looked for stand somewhere, and so do members that are bound. -/

lemma findMethod? (h : s.Sited programs pending) {c : ClassId} {name : String} {f : Function}
    (hf : s.findMethod? c name = some f) :
    s.StandsUnbound programs pending f.closure (.function f.declaration) := by
  obtain ⟨k, -, hk⟩ := List.exists_of_findSome?_eq_some hf
  obtain ⟨cls, hc, hm⟩ := Option.bind_eq_some_iff.mp hk
  exact (h.class_ k cls hc).method name f hm

lemma findGetter? (h : s.Sited programs pending) {c : ClassId} {name : String} {g : Getter}
    (hg : s.findGetter? c name = some g) :
    s.StandsUnbound programs pending g.closure (.getter g.declaration) := by
  obtain ⟨k, -, hk⟩ := List.exists_of_findSome?_eq_some hg
  obtain ⟨cls, hc, hm⟩ := Option.bind_eq_some_iff.mp hk
  exact (h.class_ k cls hc).getter name g hm

lemma getter? (h : s.Sited programs pending) {value : Value} {g : Getter}
    (hg : s.getter? value = some g) : s.StandsCallable programs pending (.getter g) := by
  unfold Store.getter? at hg
  split at hg
  · split at hg
    · next g' hk =>
      obtain rfl : g' = g := by simpa using hg
      exact h.callable _ _ hk
    · cases hg
  · cases hg

lemma openReceiver (h : s.Sited programs pending) (f : FrameId) (receiver : Value) :
    (s.openReceiver f receiver).2.Sited programs pending :=
  h.openFrame .receiver f fun slot hs => by simp [Record.get?_singleton] at hs

end Sited

/-- With its receiver, a member may run. -/
lemma StandsUnbound.bind {f : FrameId} {x : Place} (h : s.StandsUnbound programs pending f x)
    (receiver : Value) :
    (s.openReceiver f receiver).2.Stands programs pending (s.openReceiver f receiver).1 x := by
  obtain ⟨p, hp, ks, r, scopes, hl, hs, ha⟩ := h
  refine ⟨p, hp, _, r, hl, ?_⟩
  rw [hs]
  refine ha.openFrame .receiver _ _ fun name hn => ?_
  simpa using hn

lemma StandsUnbound.bindFunction {f : Function}
    (h : s.StandsUnbound programs pending f.closure (.function f.declaration)) (receiver : Value) :
    (s.bindFunction f receiver).2.StandsCallable programs pending
      (.function (s.bindFunction f receiver).1) := by
  refine ⟨h.bind receiver, fun _ => ?_⟩
  simp only [Store.bindFunction, Store.openReceiver, slot?_openFrame]
  rfl

namespace Sited

lemma addBound (h : s.Sited programs pending) {f : Function}
    (hf : s.StandsUnbound programs pending f.closure (.function f.declaration))
    (receiver : Value) :
    ((s.bindFunction f receiver).2.addFunction (s.bindFunction f receiver).1).2.Sited programs
      pending :=
  (h.openReceiver f.closure receiver).addCallable (hf.bindFunction receiver)

lemma property (h : s.Sited programs pending) (i : InstanceId) (name : String) :
    (s.property i name).2.Sited programs pending := by
  unfold Store.property
  split
  · exact h
  · split
    · exact h
    · split
      · next g hg =>
        exact (h.openReceiver g.closure _).addCallable ((h.findGetter? hg).bind _)
      · split
        · next f hf => exact h.addBound (h.findMethod? hf) _
        · split
          · exact h.addCallable trivial
          · exact h

end Sited

end Store

end Scripting
