import Mathlib.Tactic.Common
import Scripting.Machine

/-!
# Stores only grow

Whatever a program does, a frame keeps its kind, the frames around it and every variable that it
has; callables and classes stay what they are, and instances stay instances of their class. What
changes is the values of variables and fields, and what is new.
-/

namespace Scripting

namespace Record

variable {α : Type}

@[simp] lemma has_insert (record : Record α) (name other : String) (entry : α) :
    has (insert record name entry) other = (other = name || has record other) := by
  by_cases h : other = name
  · subst h
    simp [has]
  · simp [has, h]

lemma get?_singleton (name other : String) (entry : α) :
    get? [(name, entry)] other = if other = name then some entry else none := by
  by_cases h : other = name
  · simp [get?, h]
  · have h' : (other == name) = false := by simpa using h
    simp [get?, List.lookup_cons, h, h']

@[simp] lemma has_singleton (name other : String) (entry : α) :
    has [(name, entry)] other = decide (other = name) := by
  by_cases h : other = name
  · simp [has, get?_singleton, h]
  · simp [has, get?_singleton, h]

@[simp] lemma has_nil (name : String) : has ([] : Record α) name = false := rfl

@[simp] lemma get?_nil (name : String) : get? ([] : Record α) name = none := rfl

/-- When one thing after the other is entered, the last one of a name is found. -/
lemma get?_foldl_insert {β : Type} (key : β → String) (entry : β → α) (bs : List β)
    (record : Record α) (name : String) :
    get? (bs.foldl (fun record b => insert record (key b) (entry b)) record) name =
      ((bs.reverse.find? (key · = name)).map entry).or (get? record name) := by
  induction bs generalizing record with
  | nil => rfl
  | cons b bs ih =>
    rw [List.foldl_cons, ih, List.reverse_cons, List.find?_append]
    cases bs.reverse.find? (key · = name) with
    | some b' => rfl
    | none =>
      by_cases hn : key b = name
      · simp [hn]
      · simp [hn, Ne.symm hn]

/-- What is found after one thing after the other was entered is one of them. -/
lemma exists_of_get?_foldl_insert {β : Type} {key : β → String} {entry : β → α} {bs : List β}
    {name : String} {a : α}
    (h : get? (bs.foldl (fun record b => insert record (key b) (entry b)) []) name = some a) :
    ∃ b ∈ bs, key b = name ∧ entry b = a := by
  rw [get?_foldl_insert, get?_nil, Option.or_none] at h
  obtain ⟨b, hb, rfl⟩ := Option.map_eq_some_iff.mp h
  exact ⟨b, List.mem_reverse.mp (List.mem_of_find?_eq_some hb),
    by simpa using List.find?_some hb, rfl⟩

end Record

/-- A frame that came from another one: the same kind and surroundings, no variable lost. -/
structure Frame.Grows (frame frame' : Frame) : Prop where
  kind_eq : frame'.kind = frame.kind
  outer_eq : frame'.outer = frame.outer
  keeps : ∀ name, frame.vars.has name → frame'.vars.has name

namespace Frame.Grows

lemma refl (frame : Frame) : frame.Grows frame :=
  ⟨rfl, rfl, fun _ h => h⟩

lemma trans {a b c : Frame} (h : a.Grows b) (h' : b.Grows c) : a.Grows c :=
  ⟨h'.kind_eq.trans h.kind_eq, h'.outer_eq.trans h.outer_eq,
    fun name has => h'.keeps name (h.keeps name has)⟩

end Frame.Grows

/-- A store that came from another one. -/
structure Store.Grows (s s' : Store) : Prop where
  frame : ∀ (f : FrameId) (frame : Frame), s.frames[f]? = some frame →
    ∃ frame', s'.frames[f]? = some frame' ∧ frame.Grows frame'
  callable : ∀ (i : CallableId) (k : Callable), s.callables[i]? = some k →
    s'.callables[i]? = some k
  class_ : ∀ (c : ClassId) (cls : Class), s.classes[c]? = some cls → s'.classes[c]? = some cls
  instance_ : ∀ (i : InstanceId) (inst : Instance), s.instances[i]? = some inst →
    ∃ inst', s'.instances[i]? = some inst' ∧ inst'.classId = inst.classId

namespace Store

namespace Grows

lemma refl (s : Store) : s.Grows s where
  frame := fun _ frame h => ⟨frame, h, .refl frame⟩
  callable := fun _ _ h => h
  class_ := fun _ _ h => h
  instance_ := fun _ inst h => ⟨inst, h, rfl⟩

lemma trans {s s' s'' : Store} (h : s.Grows s') (h' : s'.Grows s'') : s.Grows s'' where
  frame := by
    intro f frame hf
    obtain ⟨frame', hf', hg⟩ := h.frame f frame hf
    obtain ⟨frame'', hf'', hg'⟩ := h'.frame f frame' hf'
    exact ⟨frame'', hf'', hg.trans hg'⟩
  callable := fun i k hk => h'.callable i k (h.callable i k hk)
  class_ := fun c cls hc => h'.class_ c cls (h.class_ c cls hc)
  instance_ := by
    intro i inst hi
    obtain ⟨inst', hi', he⟩ := h.instance_ i inst hi
    obtain ⟨inst'', hi'', he'⟩ := h'.instance_ i inst' hi'
    exact ⟨inst'', hi'', he'.trans he⟩

end Grows

/-- What stands in an array stays there when something is put behind it. -/
lemma getElem?_push_of_some {α : Type} {xs : Array α} {i : Nat} {x : α} (y : α)
    (h : xs[i]? = some x) : (xs.push y)[i]? = some x := by
  obtain ⟨hi, rfl⟩ := Array.getElem?_eq_some_iff.mp h
  simp [Array.getElem?_push, Nat.ne_of_lt hi]

lemma grows_addFrame (s : Store) (frame : Frame) : s.Grows (s.addFrame frame).2 :=
  { Grows.refl s with
    frame := fun _ old h => ⟨old, getElem?_push_of_some frame h, .refl old⟩ }

lemma grows_addCallable (s : Store) (k : Callable) : s.Grows (s.addCallable k).2 :=
  { Grows.refl s with callable := fun _ _ h => getElem?_push_of_some k h }

lemma grows_addClass (s : Store) (cls : Class) : s.Grows (s.addClass cls).2 :=
  { Grows.refl s with class_ := fun _ _ h => getElem?_push_of_some cls h }

lemma grows_addInstance (s : Store) (inst : Instance) : s.Grows (s.addInstance inst).2 :=
  { Grows.refl s with
    instance_ := fun _ old h => ⟨old, getElem?_push_of_some inst h, rfl⟩ }

lemma grows_openFrame (s : Store) (kind : FrameKind) (f : FrameId)
    (vars : Record (Option Value)) : s.Grows (s.openFrame kind f vars).2 :=
  grows_addFrame s _

lemma grows_setSlot (s : Store) (f : FrameId) (name : String) (slot : Option Value) :
    s.Grows (s.setSlot f name slot) :=
  { Grows.refl s with
    frame := by
      intro g frame h
      simp only [setSlot, Array.getElem?_modify, h]
      split
      · refine ⟨_, rfl, rfl, rfl, fun other has => ?_⟩
        simp [has]
      · exact ⟨frame, rfl, .refl frame⟩ }

lemma grows_define (s : Store) (f : FrameId) (name : String) (value : Value) :
    s.Grows (s.define f name value) :=
  grows_setSlot s f name (some value)

lemma grows_declare (s : Store) (f : FrameId) (name : String) :
    s.Grows (s.declare f name) :=
  grows_setSlot s f name none

lemma grows_modifyInstance (s : Store) (i : InstanceId) (change : Instance → Instance)
    (h : ∀ inst, (change inst).classId = inst.classId) :
    s.Grows { s with instances := s.instances.modify i change } :=
  { Grows.refl s with
    instance_ := by
      intro j inst hj
      simp only [Array.getElem?_modify, hj]
      split
      · exact ⟨_, rfl, h inst⟩
      · exact ⟨inst, rfl, rfl⟩ }

lemma grows_setField (s : Store) (i : InstanceId) (name : String) (value : Value) :
    s.Grows (s.setField i name value) :=
  grows_modifyInstance s i _ fun _ => rfl

lemma grows_setHandle (s : Store) (i : InstanceId) (handle : Option Handle) :
    s.Grows (s.setHandle i handle) :=
  grows_modifyInstance s i _ fun _ => rfl

lemma grows_bindFunction (s : Store) (f : Function) (receiver : Value) :
    s.Grows (s.bindFunction f receiver).2 :=
  grows_openFrame s _ _ _

lemma grows_bindGetter (s : Store) (g : Getter) (receiver : Value) :
    s.Grows (s.bindGetter g receiver).2 :=
  grows_openFrame s _ _ _

lemma grows_property (s : Store) (i : InstanceId) (name : String) :
    s.Grows (s.property i name).2 := by
  unfold property
  split
  · exact .refl s
  · split
    · exact .refl s
    · split
      · exact (grows_bindGetter s _ _).trans (grows_addCallable _ _)
      · split
        · exact (grows_bindFunction s _ _).trans (grows_addCallable _ _)
        · split
          · exact grows_addCallable s _
          · exact .refl s

/-- The chain of a frame that is there stays the same. -/
lemma Grows.chain_eq {s s' : Store} (h : s.Grows s') {f : FrameId} {frame : Frame}
    (hf : s.frames[f]? = some frame) : s'.chain f = s.chain f := by
  obtain ⟨frame', hf', hg⟩ := h.frame f frame hf
  simp [chain, hf, hf', hg.outer_eq]

/-- A variable that a frame has stays there. -/
lemma Grows.slot?_isSome {s s' : Store} (h : s.Grows s') {f : FrameId} {name : String}
    (hs : (s.slot? f name).isSome) : (s'.slot? f name).isSome := by
  cases hf : s.frames[f]? with
  | none => simp [slot?, hf] at hs
  | some frame =>
    obtain ⟨frame', hf', hg⟩ := h.frame f frame hf
    have := hg.keeps name (by simpa [slot?, hf, Record.has] using hs)
    simpa [slot?, hf', Record.has] using this

end Store

end Scripting
