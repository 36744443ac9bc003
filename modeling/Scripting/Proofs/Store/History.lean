import Mathlib.Data.List.Induction
import Scripting.Proofs.Store.Frames
import Scripting.Proofs.Store.WellFormed

/-!
# What frames remember

What a variable holds is told by the history of the operations that have been performed on frames,
whichever frame each of them was asked of: the frames are the ones that were opened, each inside of
an older one or of none, a name is introduced in a frame by defining or declaring it there, and an
operation that succeeds writes to one frame. A look-up gives what was last written to the nearest
frame that the name was introduced in.
-/

namespace Scripting

/-- An operation on frames. -/
inductive FrameOp where
  | new (parent? : Option FrameId)
  | define (f : FrameId) (name : String) (value : Value)
  | declare (f : FrameId) (name : String)
  | assign (f : FrameId) (name : String) (value : Value)
  | assignAt (f : FrameId) (distance : Nat) (name : String) (value : Value)

namespace FrameOp

/-- The frame that an operation is asked of. -/
def frame? : FrameOp → Option FrameId
  | .new parent? => parent?
  | .define f _ _ => some f
  | .declare f _ => some f
  | .assign f _ _ => some f
  | .assignAt f _ _ _ => some f

/-- Perform an operation on a store. -/
def perform (s : Store) : FrameOp → Except Cause Store
  | .new none => .ok (s.addFrame ⟨.block, [], []⟩).2
  | .new (some f) => .ok (s.openFrame .block f []).2
  | .define f name value => .ok (s.define f name value)
  | .declare f name => .ok (s.declare f name)
  | .assign f name value => s.assign f name value
  | .assignAt f distance name value => s.assignAt f distance name value

end FrameOp

/-- Operations on frames, in the order in which they were performed. -/
abbrev FrameHistory := List FrameOp

namespace FrameHistory

/-- The store after an operation, which is the same as before if that fails. -/
def step (s : Store) (op : FrameOp) : Store :=
  (op.perform s).toOption.getD s

/-- The store after a history. -/
def store (h : FrameHistory) : Store :=
  h.foldl step .empty

/-! ### What a history tells -/

/-- The frames that were opened, each with the frame that it was opened inside of. -/
def parents (h : FrameHistory) : List (Option FrameId) :=
  h.filterMap fun
    | .new parent? => some parent?
    | _ => none

/-- The frame that a frame was opened inside of. -/
def parent? (h : FrameHistory) (f : FrameId) : Option FrameId :=
  (h.parents[f]?).join

/-- All frames that operations are asked of have been opened before. -/
def Valid (h : FrameHistory) : Prop :=
  ∀ i op, h[i]? = some op → ∀ f ∈ op.frame?, f < (parents (h.take i)).length

instance (h : FrameHistory) : Decidable h.Valid :=
  decidable_of_iff (∀ i < h.length, ∀ f ∈ (h[i]?).bind FrameOp.frame?,
      f < (parents (h.take i)).length) <| by
    constructor
    · intro hv i op hop f hf
      exact hv i (List.getElem?_eq_some_iff.mp hop).1 f (by rw [hop]; exact hf)
    · intro hv i hi f hf
      obtain ⟨op, hop, hf⟩ := Option.bind_eq_some_iff.mp hf
      exact hv i op hop f hf

/-- A name has been defined or declared in a frame. -/
def Introduced (h : FrameHistory) (f : FrameId) (name : String) : Prop :=
  (∃ value, .define f name value ∈ h) ∨ .declare f name ∈ h

/-- The nearest frame in which a name has been introduced, and its distance. -/
structure Nearest (h : FrameHistory) (e : FrameId) (name : String) (distance : Nat) (f : FrameId) :
    Prop where
  climb_eq : climb h.parent? distance e = some f
  introduced : h.Introduced f name
  nearer : ∀ k < distance, ∀ g, climb h.parent? k e = some g → ¬ h.Introduced g name

/-- After a history, an operation writes to a frame. -/
inductive Writes (h : FrameHistory) : FrameOp → FrameId → String → Option Value → Prop
  | define (f : FrameId) (name : String) (value : Value) :
    Writes h (.define f name value) f name (some value)
  | declare (f : FrameId) (name : String) : Writes h (.declare f name) f name none
  | assign {e f : FrameId} {name : String} {distance : Nat} (value : Value) :
    h.Nearest e name distance f → Writes h (.assign e name value) f name (some value)
  | assignAt {e f : FrameId} {name : String} {distance : Nat} (value : Value) :
    climb h.parent? distance e = some f → h.Introduced f name →
      Writes h (.assignAt e distance name value) f name (some value)

/-- What was last written to a frame under a name: a value, or that there is none yet. -/
def LastWritten (h : FrameHistory) (f : FrameId) (name : String) (slot : Option Value) : Prop :=
  ∃ i op, h[i]? = some op ∧ Writes (h.take i) op f name slot ∧
    ∀ j op' slot', i < j → h[j]? = some op' → ¬ Writes (h.take j) op' f name slot'

variable {h : FrameHistory} {op : FrameOp} {s : Store} {e f g : FrameId} {name : String}
  {slot : Option Value} {distance : Nat}

/-! ### One operation more -/

lemma store_concat (h : FrameHistory) (op : FrameOp) : store (h ++ [op]) = step h.store op := by
  simp [store]

lemma parents_append (h h' : FrameHistory) : parents (h ++ h') = h.parents ++ h'.parents :=
  List.filterMap_append

/-- What was performed when there is one operation more. -/
lemma getElem?_concat {i : Nat} {op' : FrameOp} :
    (h ++ [op])[i]? = some op' ↔ h[i]? = some op' ∨ (i = h.length ∧ op' = op) := by
  rcases Nat.lt_trichotomy i h.length with hlt | rfl | hgt
  · simp [List.getElem?_append_left hlt, Nat.ne_of_lt hlt]
  · simp [eq_comm]
  · have hbefore : h[i]? = none := List.getElem?_eq_none (Nat.le_of_lt hgt)
    have hnone : (h ++ [op])[i]? = none := by
      apply List.getElem?_eq_none
      rw [List.length_append, List.length_singleton]
      exact hgt
    simp [hbefore, hnone, Nat.ne_of_gt hgt]

lemma take_concat {i : Nat} (hi : i ≤ h.length) : (h ++ [op]).take i = h.take i :=
  List.take_append_of_le_length hi

lemma lt_of_getElem? {i : Nat} (hop : h[i]? = some op) : i < h.length :=
  (List.getElem?_eq_some_iff.mp hop).1

lemma valid_concat :
    Valid (h ++ [op]) ↔ h.Valid ∧ ∀ f ∈ op.frame?, f < h.parents.length := by
  constructor
  · intro hv
    constructor
    · intro i op' hop
      have hlater := hv i op' (getElem?_concat.mpr (.inl hop))
      rwa [take_concat (Nat.le_of_lt (lt_of_getElem? hop))] at hlater
    · have hlast := hv h.length op (getElem?_concat.mpr (.inr ⟨rfl, rfl⟩))
      rwa [List.take_left] at hlast
  · rintro ⟨hv, hlast⟩ i op' hop
    rcases getElem?_concat.mp hop with hop | ⟨rfl, rfl⟩
    · rw [take_concat (Nat.le_of_lt (lt_of_getElem? hop))]
      exact hv i op' hop
    · rwa [List.take_left]

lemma introduced_concat : Introduced (h ++ [op]) f name ↔ h.Introduced f name ∨
    (∃ value, op = .define f name value) ∨ op = .declare f name := by
  simp only [Introduced, List.mem_append, List.mem_singleton, exists_or, eq_comm (b := op)]
  exact or_or_or_comm

lemma lastWritten_concat : LastWritten (h ++ [op]) f name slot ↔
    h.Writes op f name slot ∨
      (h.LastWritten f name slot ∧ ∀ slot', ¬ h.Writes op f name slot') := by
  constructor
  · rintro ⟨i, op', hop, hw, hlater⟩
    rcases getElem?_concat.mp hop with hop | ⟨rfl, rfl⟩
    · have hi := lt_of_getElem? hop
      rw [take_concat (Nat.le_of_lt hi)] at hw
      refine .inr ⟨⟨i, op', hop, hw, fun j op'' slot' hj hop' => ?_⟩, fun slot' hw' => ?_⟩
      · have hno := hlater j op'' slot' hj (getElem?_concat.mpr (.inl hop'))
        rwa [take_concat (Nat.le_of_lt (lt_of_getElem? hop'))] at hno
      · refine hlater h.length op slot' hi (getElem?_concat.mpr (.inr ⟨rfl, rfl⟩)) ?_
        rwa [List.take_left]
    · rw [List.take_left] at hw
      exact .inl hw
  · rintro (hw | ⟨⟨i, op', hop, hw, hlater⟩, hno⟩)
    · refine ⟨h.length, op, getElem?_concat.mpr (.inr ⟨rfl, rfl⟩), by rwa [List.take_left], ?_⟩
      intro j op' slot' hj hop
      have hlt := lt_of_getElem? hop
      rw [List.length_append, List.length_singleton] at hlt
      exact absurd hlt (by omega)
    · refine ⟨i, op', getElem?_concat.mpr (.inl hop), ?_, fun j op'' slot' hj hop' hw' => ?_⟩
      · rwa [take_concat (Nat.le_of_lt (lt_of_getElem? hop))]
      · rcases getElem?_concat.mp hop' with hop' | ⟨rfl, rfl⟩
        · rw [take_concat (Nat.le_of_lt (lt_of_getElem? hop'))] at hw'
          exact hlater j op'' slot' hj hop' hw'
        · rw [List.take_left] at hw'
          exact hno slot' hw'

/-! ### The store reflects the history -/

/-- A store has what a history tells. -/
structure Reflects (h : FrameHistory) (s : Store) : Prop where
  size_eq : s.frames.size = h.parents.length
  descends : Descends h.parent? s.chain
  slot_iff : ∀ f name slot, s.slot? f name = some slot ↔ h.LastWritten f name slot
  isSome_iff : ∀ f name, (s.slot? f name).isSome ↔ h.Introduced f name

namespace Reflects

variable (hr : h.Reflects s)

include hr

lemma climb_eq (distance : Nat) (e : FrameId) :
    climb h.parent? distance e = (s.chain e)[distance]? :=
  hr.descends.climb_eq distance e

/-- The frame that a name is looked up in is the nearest one. -/
lemma locate_ok_iff : s.locate e name = .ok f ↔ ∃ distance, h.Nearest e name distance f := by
  rw [Store.locate_eq_ok, List.find?_eq_some_iff_getElem]
  constructor
  · rintro ⟨hsome, d, hd, rfl, hnearer⟩
    refine ⟨d, ?_, (hr.isSome_iff _ _).mp hsome, fun k hk g hg hintroduced => ?_⟩
    · rw [hr.climb_eq, List.getElem?_eq_getElem hd]
    · rw [hr.climb_eq] at hg
      obtain ⟨hlt, rfl⟩ := List.getElem?_eq_some_iff.mp hg
      simpa [(hr.isSome_iff _ _).mpr hintroduced] using hnearer k hk
  · rintro ⟨d, hclimb, hintroduced, hnearer⟩
    rw [hr.climb_eq] at hclimb
    obtain ⟨hd, rfl⟩ := List.getElem?_eq_some_iff.mp hclimb
    refine ⟨(hr.isSome_iff _ _).mpr hintroduced, d, hd, rfl, fun k hk => ?_⟩
    have hget := List.getElem?_eq_getElem (Nat.lt_trans hk hd)
    have hno := hnearer k hk _ ((hr.climb_eq k e).trans hget)
    rw [← hr.isSome_iff] at hno
    simpa using hno

/-- The frame at a distance is got to if the name was introduced there. -/
lemma locateAt_ok_iff : s.locateAt e distance name = .ok f ↔
    climb h.parent? distance e = some f ∧ h.Introduced f name := by
  rw [hr.climb_eq, ← hr.isSome_iff, Store.locateAt_eq_ok]

end Reflects

/-- The frame that an operation writes to, and what it writes. -/
def write? (s : Store) : FrameOp → Option (FrameId × String × Option Value)
  | .new _ => none
  | .define f name value => some (f, name, some value)
  | .declare f name => some (f, name, none)
  | .assign e name value => (s.locate e name).toOption.map (·, name, some value)
  | .assignAt e distance name value =>
    (s.locateAt e distance name).toOption.map (·, name, some value)

lemma Reflects.writes_iff (hr : h.Reflects s) :
    h.Writes op f name slot ↔ write? s op = some (f, name, slot) := by
  constructor
  · rintro (_ | _ | ⟨value, hn⟩ | ⟨value, hc, hi⟩)
    · rfl
    · rfl
    · simp [write?, hr.locate_ok_iff.mpr ⟨_, hn⟩, Except.toOption]
    · simp [write?, hr.locateAt_ok_iff.mpr ⟨hc, hi⟩, Except.toOption]
  · intro hw
    cases op with
    | new parent? => simp [write?] at hw
    | define g other value =>
      simp [write?] at hw
      obtain ⟨rfl, rfl, rfl⟩ := hw
      exact .define _ _ _
    | declare g other =>
      simp [write?] at hw
      obtain ⟨rfl, rfl, rfl⟩ := hw
      exact .declare _ _
    | assign e other value =>
      cases hl : s.locate e other with
      | error cause => simp [write?, hl, Except.toOption] at hw
      | ok g =>
        simp [write?, hl, Except.toOption] at hw
        obtain ⟨rfl, rfl, rfl⟩ := hw
        obtain ⟨distance, hn⟩ := hr.locate_ok_iff.mp hl
        exact .assign value hn
    | assignAt e distance other value =>
      cases hl : s.locateAt e distance other with
      | error cause => simp [write?, hl, Except.toOption] at hw
      | ok g =>
        simp [write?, hl, Except.toOption] at hw
        obtain ⟨rfl, rfl, rfl⟩ := hw
        obtain ⟨hc, hi⟩ := hr.locateAt_ok_iff.mp hl
        exact .assignAt value hc hi

/-- Apart from opening a frame, an operation does nothing but write. -/
lemma step_eq (hnew : ∀ parent?, op ≠ .new parent?) :
    step s op = (write? s op).elim s fun w => s.setSlot w.1 w.2.1 w.2.2 := by
  cases op with
  | new parent? => exact absurd rfl (hnew parent?)
  | define f name value => rfl
  | declare f name => rfl
  | assign e name value =>
    simp only [step, FrameOp.perform, Store.assign, write?]
    cases s.locate e name <;> rfl
  | assignAt e distance name value =>
    simp only [step, FrameOp.perform, Store.assignAt, write?]
    cases s.locateAt e distance name <;> rfl

lemma parent?_new (p : Option FrameId) (f : FrameId) :
    parent? (h ++ [FrameOp.new p]) f = if f = h.parents.length then p else h.parent? f := by
  have hparents : parents (h ++ [FrameOp.new p]) = h.parents ++ [p] := parents_append h [.new p]
  rw [parent?, hparents]
  rcases Nat.lt_trichotomy f h.parents.length with hlt | rfl | hgt
  · simp [List.getElem?_append_left hlt, Nat.ne_of_lt hlt, parent?]
  · simp
  · have hout : (h.parents ++ [p]).length ≤ f := by simpa using Nat.succ_le_of_lt hgt
    rw [if_neg (Nat.ne_of_gt hgt), parent?, List.getElem?_eq_none hout,
      List.getElem?_eq_none (Nat.le_of_lt hgt)]

lemma lt_of_parent? {f g : FrameId} (hp : h.parent? f = some g) : f < h.parents.length := by
  by_contra hlt
  simp [parent?, List.getElem?_eq_none (Nat.le_of_not_lt hlt)] at hp

/-- Opening a frame leaves the others as they are. -/
lemma Reflects.new (hr : h.Reflects s) {p : Option FrameId}
    (hp : ∀ f ∈ p, f < h.parents.length) : Reflects (h ++ [FrameOp.new p]) (step s (.new p)) := by
  have hstep : step s (.new p) = (s.addFrame ⟨.block, (p.map s.chain).getD [], []⟩).2 := by
    cases p <;> rfl
  have hchain : ∀ f, (step s (.new p)).chain f =
      if f = h.parents.length then f :: (p.map s.chain).getD [] else s.chain f := by
    intro f
    rw [hstep, ← hr.size_eq, Store.chain, Store.addFrame, Array.getElem?_push]
    split
    · rfl
    · rfl
  have hold : ∀ f < h.parents.length, (step s (.new p)).chain f = s.chain f := fun f hf => by
    rw [hchain, if_neg (Nat.ne_of_lt hf)]
  have hslot : ∀ f name, (step s (.new p)).slot? f name = s.slot? f name := by
    intro f name
    rw [hstep, Store.slot?, Store.slot?, Store.addFrame, Array.getElem?_push]
    split
    · next hf =>
      rw [hf, Array.getElem?_eq_none (Nat.le_refl _)]
      rfl
    · rfl
  constructor
  · rw [hstep, parents_append, List.length_append]
    exact (Array.size_push _).trans (congrArg Nat.succ hr.size_eq)
  · constructor
    · intro f
      rw [hchain, parent?_new]
      split
      · cases p with
        | none => rfl
        | some g => simp [hold g (hp g rfl)]
      · rw [hr.descends.path_eq f]
        cases hf : h.parent? f with
        | none => rfl
        | some g =>
          have hlt := Nat.lt_trans (hr.descends.lt f g hf) (lt_of_parent? hf)
          simp [hold g hlt]
    · intro f g hg
      rw [parent?_new] at hg
      split at hg
      · next hf => exact hf ▸ hp g hg
      · exact hr.descends.lt f g hg
  · intro f name slot
    have hno : ∀ slot', ¬ h.Writes (.new p) f name slot' := by
      rintro slot' ⟨⟩
    rw [hslot, hr.slot_iff, lastWritten_concat]
    simp [hno]
  · intro f name
    rw [hslot, hr.isSome_iff, introduced_concat]
    simp

lemma Reflects.lt_of_introduced (hr : h.Reflects s) {f : FrameId} {name : String}
    (hi : h.Introduced f name) : f < s.frames.size := by
  have hsome := (hr.isSome_iff f name).mpr hi
  by_contra hlt
  simp [Store.slot?, Array.getElem?_eq_none (Nat.le_of_not_lt hlt)] at hsome

/-- What an operation writes, it writes to a frame that is there, and only that is introduced. -/
lemma Reflects.introduced_write (hr : h.Reflects s) {f : FrameId} {name : String}
    {slot : Option Value} (hf : ∀ f ∈ op.frame?, f < h.parents.length)
    (hw : write? s op = some (f, name, slot)) :
    f < s.frames.size ∧ ∀ g other, Introduced (h ++ [op]) g other ↔
      (g = f ∧ other = name) ∨ h.Introduced g other := by
  -- where something is assigned, the name has been introduced before
  have assigned (hi : h.Introduced f name) (hd : ∀ g other value, op ≠ .define g other value)
      (hn : ∀ g other, op ≠ .declare g other) :
      f < s.frames.size ∧ ∀ g other, Introduced (h ++ [op]) g other ↔
        (g = f ∧ other = name) ∨ h.Introduced g other := by
    refine ⟨hr.lt_of_introduced hi, fun g other => ?_⟩
    simp only [introduced_concat, hd, hn, exists_false, or_false]
    refine ⟨.inr, ?_⟩
    rintro (⟨rfl, rfl⟩ | hi')
    · exact hi
    · exact hi'
  have hwrites := hr.writes_iff.mpr hw
  cases hwrites with
  | define =>
    refine ⟨hr.size_eq ▸ hf f rfl, fun g other => ?_⟩
    rw [introduced_concat]
    simp [or_comm, eq_comm]
  | declare =>
    refine ⟨hr.size_eq ▸ hf f rfl, fun g other => ?_⟩
    rw [introduced_concat]
    simp [or_comm, eq_comm]
  | assign _ hn => exact assigned hn.introduced (by simp) (by simp)
  | assignAt _ _ hi => exact assigned hi (by simp) (by simp)

/-- Writing to a frame. -/
lemma Reflects.write (hr : h.Reflects s) (hnew : ∀ p, op ≠ .new p)
    (hf : ∀ f ∈ op.frame?, f < h.parents.length) : Reflects (h ++ [op]) (step s op) := by
  have hparents : parents (h ++ [op]) = h.parents := by
    cases op with
    | new p => exact absurd rfl (hnew p)
    | _ => simp [parents]
  have hparent? : parent? (h ++ [op]) = h.parent? := by
    funext f
    rw [parent?, parent?, hparents]
  rw [step_eq hnew]
  cases hw : write? s op with
  | none =>
    have hno : ∀ f name slot, ¬ h.Writes op f name slot := by
      intro f name slot
      rw [hr.writes_iff, hw]
      simp
    refine ⟨hr.size_eq.trans (congrArg List.length hparents.symm), hparent? ▸ hr.descends, ?_, ?_⟩
    · intro f name slot
      simp [hr.slot_iff, lastWritten_concat, hno]
    · intro f name
      have hnone : ¬ ((∃ value, op = .define f name value) ∨ op = .declare f name) := by
        rintro (⟨value, rfl⟩ | rfl)
        · exact hno f name _ (.define f name value)
        · exact hno f name _ (.declare f name)
      simp [hr.isSome_iff, introduced_concat, hnone]
  | some write =>
    obtain ⟨f, name, slot⟩ := write
    obtain ⟨hsize, hintroduced⟩ := hr.introduced_write hf hw
    have hwrites : ∀ g other slot', h.Writes op g other slot' ↔
        (g = f ∧ other = name) ∧ slot' = slot := by
      intro g other slot'
      rw [hr.writes_iff, hw]
      simp [eq_comm, and_assoc]
    refine ⟨?_, ?_, ?_, ?_⟩
    · rw [hparents, ← hr.size_eq]
      simp [Store.setSlot]
    · rw [hparent?]
      have hchain : (s.setSlot f name slot).chain = s.chain := funext (s.chain_setSlot f name slot)
      exact hchain ▸ hr.descends
    · intro g other slot'
      rw [lastWritten_concat, ← hr.slot_iff]
      simp only [Option.elim_some, Store.slot?_setSlot hsize, hwrites]
      by_cases hg : g = f ∧ other = name
      · simp [hg, eq_comm]
      · simp [hg]
    · intro g other
      rw [hintroduced, ← hr.isSome_iff]
      simp only [Option.elim_some, Store.slot?_setSlot hsize]
      by_cases hg : g = f ∧ other = name
      · simp [hg]
      · simp [hg]

/-- The store after a history has what the history tells. -/
theorem reflects (hv : h.Valid) : h.Reflects h.store := by
  induction h using List.reverseRecOn with
  | nil =>
    have hslot : ∀ f name, (store []).slot? f name = none := fun _ _ => rfl
    refine ⟨rfl, ⟨fun f => rfl, fun f g hg => ?_⟩, fun f name slot => ?_, fun f name => ?_⟩
    · simp [parent?, parents] at hg
    · simp [hslot, LastWritten]
    · simp [hslot, Introduced]
  | append_singleton h op ih =>
    obtain ⟨hv, hop⟩ := valid_concat.mp hv
    have hr := ih hv
    rw [store_concat]
    cases op with
    | new parent? => exact hr.new hop
    | define f name value => exact hr.write (by simp) hop
    | declare f name => exact hr.write (by simp) hop
    | assign e name value => exact hr.write (by simp) hop
    | assignAt e distance name value => exact hr.write (by simp) hop

/-- What is read when the frame of a name was found. -/
lemma Reflects.exists_last (hr : h.Reflects s) {found : Except Cause FrameId} {f : FrameId}
    {name : String} (hf : found = .ok f) (hi : h.Introduced f name) :
    ∃ slot, (∀ slot', h.LastWritten f name slot' ↔ slot' = slot) ∧
      (found.bind fun g =>
        ((s.slot? g name).map Store.readSlot).getD (.error (.undefinedVariable name))) =
          slot.elim (.error .uninitialized) .ok := by
  obtain ⟨slot, hslot⟩ := Option.isSome_iff_exists.mp ((hr.isSome_iff f name).mpr hi)
  refine ⟨slot, fun slot' => ?_, ?_⟩
  · rw [← hr.slot_iff, hslot, Option.some.injEq, eq_comm]
  · rw [hf, ← Store.readSlot_eq]
    simp [Except.bind, hslot]

/-- **Frames remember what was last written.** After a history of operations on frames, a look-up
gives what was last written to the nearest frame in which the name was introduced, through whichever
frame that was done; a look-up at a distance gives that of the very frame there. Assigning succeeds
if there is such a frame and is the same as assigning at its distance, and an operation that fails
changes nothing. -/
theorem lookup_gives_last_written (hv : h.Valid) :
    let s := h.store
    (∀ e name,
      ((¬ ∃ distance f, h.Nearest e name distance f) →
        s.get e name = .error (.undefinedVariable name)) ∧
      ∀ distance f, h.Nearest e name distance f →
        ∃ slot, (∀ slot', h.LastWritten f name slot' ↔ slot' = slot) ∧
          s.get e name = slot.elim (.error .uninitialized) .ok) ∧
    (∀ e name distance,
      ((¬ ∃ f, climb h.parent? distance e = some f ∧ h.Introduced f name) →
        ∃ d, s.getAt e distance name = .error (.noBinding name d)) ∧
      ∀ f, climb h.parent? distance e = some f → h.Introduced f name →
        ∃ slot, (∀ slot', h.LastWritten f name slot' ↔ slot' = slot) ∧
          s.getAt e distance name = slot.elim (.error .uninitialized) .ok) ∧
    (∀ e name value,
      ((¬ ∃ distance f, h.Nearest e name distance f) →
        s.assign e name value = .error (.undefinedVariable name)) ∧
      ∀ distance f, h.Nearest e name distance f →
        (∃ s', s.assign e name value = .ok s') ∧
          s.assign e name value = s.assignAt e distance name value) ∧
    ∀ op cause, FrameOp.perform s op = .error cause → store (h ++ [op]) = s := by
  intro s
  have hr : h.Reflects s := reflects hv
  have missed {e : FrameId} {name : String} (hn : ¬ ∃ distance f, h.Nearest e name distance f) :
      s.locate e name = .error (.undefinedVariable name) := by
    cases hl : s.locate e name with
    | ok f =>
      obtain ⟨distance, hnearest⟩ := hr.locate_ok_iff.mp hl
      exact absurd ⟨distance, f, hnearest⟩ hn
    | error cause => rw [Store.locate_error hl]
  refine ⟨fun e name => ⟨fun hn => ?_, fun distance f hn => ?_⟩,
    fun e name distance => ⟨fun hn => ?_, fun f hc hi => ?_⟩,
    fun e name value => ⟨fun hn => ?_, fun distance f hn => ?_⟩, fun op cause hop => ?_⟩
  · rw [Store.get_eq, missed hn]
    rfl
  · rw [Store.get_eq]
    exact hr.exists_last (hr.locate_ok_iff.mpr ⟨distance, hn⟩) hn.introduced
  · cases hl : s.locateAt e distance name with
    | ok f => exact absurd ⟨f, hr.locateAt_ok_iff.mp hl⟩ hn
    | error cause =>
      obtain ⟨d, rfl⟩ := Store.locateAt_error hl
      exact ⟨d, by rw [Store.getAt_eq, hl]; rfl⟩
  · rw [Store.getAt_eq]
    exact hr.exists_last (hr.locateAt_ok_iff.mpr ⟨hc, hi⟩) hi
  · rw [Store.assign, missed hn]
    rfl
  · have hfound := hr.locate_ok_iff.mpr ⟨distance, hn⟩
    have hat := hr.locateAt_ok_iff.mpr ⟨hn.climb_eq, hn.introduced⟩
    rw [Store.assign, Store.assignAt, hfound, hat]
    exact ⟨⟨_, rfl⟩, rfl⟩
  · rw [store_concat, step]
    simp [s, hop, Except.toOption]

/-- Two frames inside of the same one: what is assigned in one of them, and at a distance in the
other, is seen in both until one has a variable of its own. -/
theorem lookup_gives_last_written_shared :
    let h : FrameHistory := [.new none, .declare 0 "a", .new (some 0), .new (some 0),
      .assign 1 "a" (.bool true), .assignAt 2 1 "a" .nil, .declare 2 "a", .assignAt 2 2 "a" .nil]
    h.Valid ∧ h.Nearest 1 "a" 1 0 ∧
      (∃ slot, (∀ slot', h.LastWritten 0 "a" slot' ↔ slot' = slot) ∧
        h.store.get 1 "a" = slot.elim (.error .uninitialized) .ok) ∧
      h.store.get 1 "a" = .ok .nil ∧ h.store.get 2 "a" = .error .uninitialized := by
  intro h
  have hv : h.Valid := by decide
  have hn : h.Nearest 1 "a" 1 0 := by
    refine ⟨rfl, by simp [Introduced, h], fun k hk g hg => ?_⟩
    obtain rfl : k = 0 := by omega
    obtain rfl : 1 = g := Option.some.inj hg
    simp [Introduced, h]
  exact ⟨hv, hn, ((lookup_gives_last_written hv).1 1 "a").2 1 0 hn, rfl, rfl⟩

end FrameHistory

end Scripting
