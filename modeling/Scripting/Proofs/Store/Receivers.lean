import Scripting.Proofs.Resolution.Members
import Scripting.Proofs.Store.Alignment

/-!
# Receivers and superclasses in frames

Programs cannot name `this` and `super` in a declaration or an assignment, so what a frame holds
under these words stays what it was when the frame was opened. A frame that was opened for a
receiver holds an instance, one for a superclass a class, and no other frame has the words.

A member of a class is bound by a frame for its receiver, directly inside of the frame that it was
closed over when the class was declared.
-/

namespace Scripting

/-- The words under which frames hold a receiver and a superclass. -/
def IsReserved (word : String) : Prop :=
  word = "this" ∨ word = "super"

lemma Token.IsName.not_isReserved {t : Token} (h : t.IsName) : ¬ IsReserved t.lexeme := by
  rintro (he | he)
  · exact h.ne_this he
  · exact h.ne_super he

/-- A frame has the reserved words exactly as it was opened for them. -/
structure Frame.Marked (frame : Frame) : Prop where
  receiver : frame.kind = .receiver →
    ∃ i, Record.get? frame.vars "this" = some (some (.instanceRef i))
  superclass : frame.kind = .superclass →
    ∃ c, Record.get? frame.vars "super" = some (some (.classRef c))
  no_this : frame.kind ≠ .receiver → Record.get? frame.vars "this" = none
  no_super : frame.kind ≠ .superclass → Record.get? frame.vars "super" = none

/-- A class has a member, which is closed over a frame. -/
inductive Class.Has (cls : Class) : Place → FrameId → Prop
  | method {name : String} {f : Function} :
    Record.get? cls.methods name = some f → Has cls (.function f.declaration) f.closure
  | getter {name : String} {g : Getter} :
    Record.get? cls.getters name = some g → Has cls (.getter g.declaration) g.closure

namespace Store

/-- A store that came from another one without touching the reserved words of a frame. -/
structure Fixes (s s' : Store) : Prop extends s.Grows s' where
  slot?_eq : ∀ (f : FrameId) (frame : Frame), s.frames[f]? = some frame →
    ∀ word, IsReserved word → s'.slot? f word = s.slot? f word

/-- All frames have the reserved words exactly as they were opened for them. -/
def Marked (s : Store) : Prop :=
  ∀ (f : FrameId) (frame : Frame), s.frames[f]? = some frame → frame.Marked

/-- A frame holds the receiver of a member of a class. -/
def Binds (s : Store) (c : ClassId) (d : Place) (f : FrameId) : Prop :=
  ∃ cls closure frame, s.classes[c]? = some cls ∧ cls.Has d closure ∧
    s.frames[f]? = some frame ∧ frame.kind = .receiver ∧ frame.outer.head? = some closure

/-- Neither a frame nor any frame around it holds a receiver. -/
def Receiverless (s : Store) (f : FrameId) : Prop :=
  ∀ g ∈ s.chain f, ∃ frame, s.frames[g]? = some frame ∧ frame.kind ≠ .receiver

variable {s s' s'' : Store}

namespace Fixes

lemma refl (s : Store) : s.Fixes s :=
  ⟨.refl s, fun _ _ _ _ _ => rfl⟩

lemma trans (h : s.Fixes s') (h' : s'.Fixes s'') : s.Fixes s'' := by
  refine ⟨h.toGrows.trans h'.toGrows, fun f frame hf word hw => ?_⟩
  obtain ⟨frame', hf', -⟩ := h.frame f frame hf
  exact (h'.slot?_eq f frame' hf' word hw).trans (h.slot?_eq f frame hf word hw)

/-- The frames are the same. -/
lemma of_frames_eq (hg : s.Grows s') (hf : s'.frames = s.frames) : s.Fixes s' :=
  ⟨hg, fun f _ _ word _ => by rw [slot?, hf, slot?]⟩

lemma kind?_eq_some (h : s.Fixes s') {f : FrameId} {kind : FrameKind} (hk : s.kind? f = some kind) :
    s'.kind? f = some kind := by
  obtain ⟨frame, hf, rfl⟩ := Option.map_eq_some_iff.mp hk
  obtain ⟨frame', hf', hg⟩ := h.frame f frame hf
  rw [kind?, hf', Option.map_some, hg.kind_eq]

/-- What a frame holds under a reserved word is the same at both times. -/
lemma slot?_of_some (h : s.Fixes s') {f : FrameId} {word : String} {slot : Option Value}
    (hs : s.slot? f word = some slot) (hw : IsReserved word) : s'.slot? f word = some slot := by
  obtain ⟨frame, hf, -⟩ := Option.bind_eq_some_iff.mp hs
  exact (h.slot?_eq f frame hf word hw).trans hs

lemma slot?_of_kind? (h : s.Fixes s') {f : FrameId} {kind : FrameKind} (hk : s.kind? f = some kind)
    {word : String} (hw : IsReserved word) : s'.slot? f word = s.slot? f word := by
  obtain ⟨frame, hf, -⟩ := Option.map_eq_some_iff.mp hk
  exact h.slot?_eq f frame hf word hw

end Fixes

/-- Writing to a variable leaves the reserved words alone. -/
lemma fixes_setSlot (f : FrameId) {name : String} (hn : ¬ IsReserved name) (slot : Option Value) :
    s.Fixes (s.setSlot f name slot) := by
  refine ⟨grows_setSlot s f name slot, fun g _ _ word hw => slot?_setSlot_of_ne ?_ f g slot⟩
  rintro rfl
  exact hn hw

/-- Opening a frame leaves the others alone. -/
lemma fixes_openFrame (kind : FrameKind) (f : FrameId) (vars : Record (Option Value)) :
    s.Fixes (s.openFrame kind f vars).2 := by
  refine ⟨grows_openFrame s kind f vars, fun g frame hg word _ => ?_⟩
  simp only [slot?, openFrame, addFrame, getElem?_push_of_some _ hg, hg]

namespace Marked

lemma setSlot (h : s.Marked) (f : FrameId) {name : String} (hn : ¬ IsReserved name)
    (slot : Option Value) : (s.setSlot f name slot).Marked := by
  intro g frame hg
  simp only [Store.setSlot, Array.getElem?_modify] at hg
  split at hg
  · obtain ⟨old, hold, rfl⟩ := Option.map_eq_some_iff.mp hg
    have hm := h g old hold
    have hthis : "this" ≠ name := fun he => hn (.inl he.symm)
    have hsuper : "super" ≠ name := fun he => hn (.inr he.symm)
    constructor
    · simpa [hthis] using hm.receiver
    · simpa [hsuper] using hm.superclass
    · simpa [hthis] using hm.no_this
    · simpa [hsuper] using hm.no_super
  · exact h g frame hg

lemma openFrame (h : s.Marked) (kind : FrameKind) (f : FrameId) {vars : Record (Option Value)}
    (hv : Frame.Marked ⟨kind, s.chain f, vars⟩) : (s.openFrame kind f vars).2.Marked := by
  intro g frame hg
  simp only [Store.openFrame, addFrame, Array.getElem?_push] at hg
  split at hg
  · obtain rfl : _ = frame := by simpa using hg
    exact hv
  · exact h g frame hg

lemma congr (h : s.Marked) (hf : s'.frames = s.frames) : s'.Marked := by
  intro f frame hframe
  rw [hf] at hframe
  exact h f frame hframe

/-- Only a frame for a receiver has one, and this is an instance. -/
lemma of_this (h : s.Marked) {f : FrameId} {slot : Option Value}
    (hs : s.slot? f "this" = some slot) :
    s.kind? f = some .receiver ∧ ∃ i, slot = some (.instanceRef i) := by
  obtain ⟨frame, hf, hv⟩ := Option.bind_eq_some_iff.mp hs
  have hm := h f frame hf
  by_cases hk : frame.kind = .receiver
  · obtain ⟨i, hi⟩ := hm.receiver hk
    rw [hi] at hv
    exact ⟨by rw [kind?, hf, Option.map_some, hk], i, (Option.some.inj hv).symm⟩
  · rw [hm.no_this hk] at hv
    cases hv

/-- What a frame has as a superclass is a class. -/
lemma of_super (h : s.Marked) {f : FrameId} {slot : Option Value}
    (hs : s.slot? f "super" = some slot) : ∃ c, slot = some (.classRef c) := by
  obtain ⟨frame, hf, hv⟩ := Option.bind_eq_some_iff.mp hs
  have hm := h f frame hf
  by_cases hk : frame.kind = .superclass
  · obtain ⟨c, hc⟩ := hm.superclass hk
    rw [hc] at hv
    exact ⟨c, (Option.some.inj hv).symm⟩
  · rw [hm.no_super hk] at hv
    cases hv

lemma slot?_receiver (h : s.Marked) {f : FrameId} (hk : s.kind? f = some .receiver) :
    ∃ i, s.slot? f "this" = some (some (.instanceRef i)) := by
  obtain ⟨frame, hf, hk⟩ := Option.map_eq_some_iff.mp hk
  obtain ⟨i, hi⟩ := (h f frame hf).receiver hk
  exact ⟨i, by rw [slot?, hf]; exact hi⟩

end Marked

/-! ### Bound members -/

lemma Binds.mono {c : ClassId} {d : Place} {f : FrameId} (h : s.Binds c d f) (hg : s.Grows s') :
    s'.Binds c d f := by
  obtain ⟨cls, closure, frame, hc, hd, hf, hk, ho⟩ := h
  obtain ⟨frame', hf', hfg⟩ := hg.frame f frame hf
  exact ⟨cls, closure, frame', hg.class_ c cls hc, hd, hf', hfg.kind_eq.trans hk,
    hfg.outer_eq ▸ ho⟩

lemma Binds.kind?_eq {c : ClassId} {d : Place} {f : FrameId} (h : s.Binds c d f) :
    s.kind? f = some .receiver := by
  obtain ⟨_, _, frame, _, _, hf, hk, _⟩ := h
  rw [kind?, hf, Option.map_some, hk]

namespace Receiverless

variable {f : FrameId}

lemma exists_frame (h : s.Receiverless f) : ∃ frame, s.frames[f]? = some frame := by
  obtain ⟨frame, hf, -⟩ := h f List.mem_cons_self
  exact ⟨frame, hf⟩

lemma mono (h : s.Receiverless f) (hg : s.Grows s') : s'.Receiverless f := by
  obtain ⟨frame, hf⟩ := h.exists_frame
  intro g hmem
  rw [hg.chain_eq hf] at hmem
  obtain ⟨frame', hf', hk⟩ := h g hmem
  obtain ⟨frame'', hf'', hfg⟩ := hg.frame g frame' hf'
  exact ⟨frame'', hf'', hfg.kind_eq ▸ hk⟩

/-- A frame of another kind that is opened inside of such frames is such a frame. -/
lemma of_frame (h : s.Receiverless f) (hg : s.Grows s') {g : FrameId} {frame : Frame}
    (hf : s'.frames[g]? = some frame) (hk : frame.kind ≠ .receiver)
    (ho : frame.outer = s.chain f) : s'.Receiverless g := by
  intro g' hmem
  rw [chain, hf, Option.map_some, Option.getD_some, ho] at hmem
  rcases List.mem_cons.mp hmem with rfl | hmem
  · exact ⟨frame, hf, hk⟩
  · obtain ⟨old, hold⟩ := h.exists_frame
    rw [← hg.chain_eq hold] at hmem
    exact h.mono hg g' hmem

end Receiverless

end Store

end Scripting
