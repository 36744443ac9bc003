import Mathlib.Tactic.Common
import Scripting.Store.Frames

/-!
# Writing to frames and looking things up in them

A frame that was opened has the variables that it was opened with, and a write changes one variable
of one frame. A look-up reads what the frame holds that is found for it. A search fails in one way
only, and so does reading what a frame holds.
-/

namespace Scripting.Store

variable {s : Store} {f g : FrameId} {distance : Nat} {name other : String} {cause : Cause}

/-! ### Opening frames -/

section

variable (s : Store) (kind : FrameKind) (f : FrameId) (vars : Record (Option Value))

lemma frames_openFrame : (s.openFrame kind f vars).2.frames[(s.openFrame kind f vars).1]? =
    some ⟨kind, s.chain f, vars⟩ := by
  simp [openFrame, addFrame]

lemma chain_openFrame : (s.openFrame kind f vars).2.chain (s.openFrame kind f vars).1 =
    (s.openFrame kind f vars).1 :: s.chain f := by
  rw [chain, frames_openFrame]
  rfl

lemma slot?_openFrame (name : String) :
    (s.openFrame kind f vars).2.slot? (s.openFrame kind f vars).1 name = vars.get? name := by
  rw [slot?, frames_openFrame]
  rfl

end

/-! ### Writing -/

lemma chain_setSlot (s : Store) (f : FrameId) (name : String) (slot : Option Value)
    (g : FrameId) : (s.setSlot f name slot).chain g = s.chain g := by
  simp only [chain, setSlot, Array.getElem?_modify]
  split
  · cases s.frames[g]? <;> rfl
  · rfl

/-- Only what is written changes. -/
lemma slot?_setSlot {slot : Option Value} (hf : f < s.frames.size) :
    (s.setSlot f name slot).slot? g other =
      if g = f ∧ other = name then some slot else s.slot? g other := by
  have hframe := Array.getElem?_eq_getElem hf
  simp only [slot?, setSlot, Array.getElem?_modify]
  by_cases hg : f = g
  · subst hg
    rw [if_pos rfl, hframe]
    by_cases ho : other = name
    · subst ho
      simp
    · simp [ho]
  · simp [hg, Ne.symm hg]

/-- A variable that was written is there. -/
lemma slot?_setSlot_isSome {frame : Frame} (hf : s.frames[f]? = some frame) (name : String)
    (slot : Option Value) : ((s.setSlot f name slot).slot? f name).isSome := by
  rw [slot?_setSlot (Array.getElem?_eq_some_iff.mp hf).1, if_pos ⟨rfl, rfl⟩, Option.isSome_some]

lemma slot?_setSlot_of_ne (h : other ≠ name) (f g : FrameId) (slot : Option Value) :
    (s.setSlot f name slot).slot? g other = s.slot? g other := by
  simp only [slot?, setSlot, Array.getElem?_modify]
  split
  · cases s.frames[g]? with
    | none => rfl
    | some frame => simp [h]
  · rfl

/-! ### Reading what a frame holds -/

lemma readSlot_eq (slot : Option Value) :
    readSlot slot = slot.elim (.error .uninitialized) .ok := by
  cases slot <;> rfl

lemma readSlot_eq_ok {slot : Option Value} {value : Value} :
    readSlot slot = .ok value ↔ slot = some value := by
  cases slot <;> simp [readSlot]

lemma readSlot_error {slot : Option Value} (h : readSlot slot = .error cause) :
    cause = .uninitialized := by
  cases slot with
  | none =>
    cases h
    rfl
  | some value => cases h

/-! ### Look-ups by name -/

/-- A look-up reads what the nearest frame with the name holds. -/
lemma get_eq (s : Store) (f : FrameId) (name : String) :
    s.get f name = (s.locate f name).bind fun g =>
      ((s.slot? g name).map readSlot).getD (.error (.undefinedVariable name)) := by
  have hfind : ∀ fs : List FrameId, fs.findSome? (s.slot? · name) =
      (fs.find? fun g => (s.slot? g name).isSome).bind (s.slot? · name) := by
    intro fs
    induction fs with
    | nil => rfl
    | cons g rest ih =>
      rw [List.findSome?_cons, List.find?_cons]
      cases hg : s.slot? g name with
      | none => simpa [hg] using ih
      | some slot => simp [hg]
  rw [get, locate, hfind]
  cases hl : (s.chain f).find? fun g => (s.slot? g name).isSome with
  | none => rfl
  | some g => cases hg : s.slot? g name <;> simp [hg, Except.bind]

/-- What is read is what some frame of the chain holds. -/
lemma get_eq_ok {value : Value} : s.get f name = .ok value ↔
    (s.chain f).findSome? (s.slot? · name) = some (some value) := by
  unfold get
  cases (s.chain f).findSome? (s.slot? · name) with
  | none => simp
  | some slot => simp [readSlot_eq_ok]

/-- The nearest frame of the chain that has the name is found. -/
lemma locate_eq_ok : s.locate f name = .ok g ↔
    (s.chain f).find? (fun g => (s.slot? g name).isSome) = some g := by
  unfold locate
  cases (s.chain f).find? fun g => (s.slot? g name).isSome with
  | none => simp
  | some g => simp

lemma locate_error (h : s.locate f name = .error cause) : cause = .undefinedVariable name := by
  unfold locate at h
  split at h
  · cases h
  · cases h
    rfl

lemma get_error (h : s.get f name = .error cause) :
    cause = .uninitialized ∨ cause = .undefinedVariable name := by
  unfold get at h
  split at h
  · exact .inl (readSlot_error h)
  · cases h
    exact .inr rfl

/-! ### Look-ups at a distance -/

/-- A look-up at a distance reads what the frame there holds. -/
lemma getAt_eq (s : Store) (f : FrameId) (distance : Nat) (name : String) :
    s.getAt f distance name = (s.locateAt f distance name).bind fun g =>
      ((s.slot? g name).map readSlot).getD (.error (.undefinedVariable name)) := by
  unfold getAt locateAt
  cases (s.chain f)[distance]? with
  | none => rfl
  | some g => cases hg : s.slot? g name <;> simp [hg, Except.bind]

/-- What is read is what the frame there holds. -/
lemma getAt_eq_ok {value : Value} : s.getAt f distance name = .ok value ↔
    ∃ g, (s.chain f)[distance]? = some g ∧ s.slot? g name = some (some value) := by
  unfold getAt
  cases (s.chain f)[distance]? with
  | none => simp
  | some g => cases hslot : s.slot? g name <;> simp [hslot, readSlot_eq_ok]

/-- The frame there is got to if it has the name. -/
lemma locateAt_eq_ok : s.locateAt f distance name = .ok g ↔
    (s.chain f)[distance]? = some g ∧ (s.slot? g name).isSome := by
  unfold locateAt
  cases (s.chain f)[distance]? with
  | none => simp
  | some there =>
    by_cases hthere : (s.slot? there name).isSome
    · simp only [hthere, if_true, Except.ok.injEq, Option.some.injEq]
      exact ⟨fun he => ⟨he, he ▸ hthere⟩, And.left⟩
    · simp only [hthere, Bool.false_eq_true, if_false, reduceCtorEq, Option.some.injEq, false_iff]
      rintro ⟨rfl, hg⟩
      exact hthere hg

/-- The distance that is told need not be the one that was asked for. -/
lemma locateAt_error (h : s.locateAt f distance name = .error cause) :
    ∃ told, cause = .noBinding name told := by
  unfold locateAt at h
  split at h
  · cases h
    exact ⟨distance, rfl⟩
  · split_ifs at h
    cases h
    exact ⟨0, rfl⟩

lemma getAt_error (h : s.getAt f distance name = .error cause) :
    cause = .uninitialized ∨ ∃ told, cause = .noBinding name told := by
  unfold getAt at h
  split at h
  · cases h
    exact .inr ⟨distance, rfl⟩
  · split at h
    · exact .inl (readSlot_error h)
    · cases h
      exact .inr ⟨0, rfl⟩

end Scripting.Store
