import Scripting.Proofs.Store.Alignment
import Scripting.Store.References

/-!
# Well-formed stores

The things in a store may refer to one another in circles, and look-ups follow two kinds of
reference: from a frame to the one around it, and from a class to its superclass. In a well-formed
store both lead to something older, and everything that is referred to is there. Every operation on
stores keeps it so, and therefore a look-up that follows the links one by one comes to an end.
-/

namespace Scripting

/-! ### Links to what is older -/

/-- Search from a place along links for something that is found there. There is no answer if that
takes more steps than there are. -/
def follow {α : Type} (next? : Nat → Option Nat) (found? : Nat → Option α) :
    Nat → Nat → Option (Option α)
  | 0, _ => none
  | steps + 1, i =>
    match found? i with
    | some a => some (some a)
    | none =>
      match next? i with
      | none => some none
      | some j => follow next? found? steps j

/-- Go along a number of links. -/
def climb (next? : Nat → Option Nat) : Nat → Nat → Option Nat
  | 0, i => some i
  | distance + 1, i => (next? i).bind (climb next? distance)

/-- Links lead to what is older, and a path has all the places that they lead to. -/
structure Descends (next? : Nat → Option Nat) (path : Nat → List Nat) : Prop where
  path_eq : ∀ i, path i = i :: ((next? i).map path).getD []
  lt : ∀ i j, next? i = some j → j < i

namespace Descends

variable {next? : Nat → Option Nat} {path : Nat → List Nat} (h : Descends next? path)

include h

lemma path_of_none {i : Nat} (hn : next? i = none) : path i = [i] := by
  rw [h.path_eq, hn]
  rfl

lemma path_of_some {i j : Nat} (hn : next? i = some j) : path i = i :: path j := by
  rw [h.path_eq, hn]
  rfl

/-- A search comes to an end before the steps do, and finds the first one on the path. -/
theorem follow_eq {α : Type} (found? : Nat → Option α) {steps i : Nat} (hs : i < steps) :
    follow next? found? steps i = some ((path i).findSome? found?) := by
  induction steps generalizing i with
  | zero => exact absurd hs (Nat.not_lt_zero i)
  | succ steps ih =>
    cases hf : found? i with
    | some a =>
      rw [h.path_eq]
      simp [follow, hf]
    | none =>
      cases hn : next? i with
      | none => simp [follow, hf, hn, h.path_of_none hn]
      | some j =>
        have hj : j < steps := Nat.lt_of_lt_of_le (h.lt i j hn) (Nat.le_of_lt_succ hs)
        simp [follow, hf, hn, h.path_of_some hn, ih hj]

/-- What passes along links holds on the whole path. -/
lemma forall_mem_path {P : Nat → Prop} (hnext : ∀ i j, P i → next? i = some j → P j) {i : Nat}
    (hi : P i) : ∀ j ∈ path i, P j := by
  induction i using Nat.strongRecOn with
  | ind i ih =>
    cases hn : next? i with
    | none => simpa [h.path_of_none hn] using hi
    | some j =>
      rw [h.path_of_some hn]
      exact List.forall_mem_cons.mpr ⟨hi, ih j (h.lt i j hn) (hnext i j hi hn)⟩

/-- A path ends where no link goes on. -/
lemma getLast?_path {P : Nat → Prop} {root : Nat}
    (hnext : ∀ i j, P i → next? i = some j → P j) (hroot : ∀ i, P i → next? i = none → i = root)
    {i : Nat} (hi : P i) : (path i).getLast? = some root := by
  induction i using Nat.strongRecOn with
  | ind i ih =>
    cases hn : next? i with
    | none =>
      rw [h.path_of_none hn, hroot i hi hn]
      rfl
    | some j =>
      have hj := ih j (h.lt i j hn) (hnext i j hi hn)
      rw [h.path_of_some hn, List.getLast?_cons, hj]
      rfl

/-- Going along links leads along the path. -/
lemma climb_eq (distance i : Nat) : climb next? distance i = (path i)[distance]? := by
  induction distance generalizing i with
  | zero =>
    rw [h.path_eq]
    rfl
  | succ distance ih =>
    cases hn : next? i with
    | none => simp [climb, hn, h.path_of_none hn]
    | some j => simp [climb, hn, h.path_of_some hn, ih]

end Descends

/-! ### What is in a store -/

namespace Record

variable {α : Type}

lemma mem_of_get? {record : Record α} {name : String} {entry : α}
    (h : get? record name = some entry) : (name, entry) ∈ record := by
  obtain ⟨before, after, rfl, -⟩ := List.lookup_eq_some_iff.mp h
  exact List.mem_append_right _ List.mem_cons_self

/-- Entering something brings in nothing else. -/
lemma mem_of_mem_insert {record : Record α} {name : String} {entry : α} {e : String × α}
    (h : e ∈ insert record name entry) : e = (name, entry) ∨ e ∈ record := by
  induction record with
  | nil => exact .inl (List.mem_singleton.mp h)
  | cons head rest ih =>
    obtain ⟨other, held⟩ := head
    unfold insert at h
    split at h
    · rcases List.mem_cons.mp h with rfl | h
      · exact .inl rfl
      · exact .inr (List.mem_cons_of_mem _ h)
    · rcases List.mem_cons.mp h with rfl | h
      · exact .inr List.mem_cons_self
      · exact (ih h).imp id (List.mem_cons_of_mem _)

/-- Entering one thing after the other brings in nothing else. -/
lemma forall_mem_foldl_insert {β : Type} {P : α → Prop} (name : β → String) (entry : β → α)
    {bs : List β} (hb : ∀ b ∈ bs, P (entry b)) {record : Record α} (hr : ∀ e ∈ record, P e.2) :
    ∀ e ∈ bs.foldl (fun record b => insert record (name b) (entry b)) record, P e.2 := by
  induction bs generalizing record with
  | nil => exact hr
  | cons b bs ih =>
    obtain ⟨hb, hbs⟩ := List.forall_mem_cons.mp hb
    refine ih hbs fun e he => ?_
    rcases mem_of_mem_insert he with rfl | he
    · exact hb
    · exact hr e he

end Record

/-- What the content of a variable refers to. -/
def slotReferences (slot : Option Value) : List Reference :=
  (slot.map Value.references).getD []

namespace Store

/-- Something that can be referred to is there. -/
def Has (s : Store) : Reference → Prop
  | .frame f => f < s.frames.size
  | .callable i => i < s.callables.size
  | .classRef c => c < s.classes.size
  | .instanceRef i => i < s.instances.size

/-- All of what is referred to is there. -/
def HasAll (s : Store) (references : List Reference) : Prop :=
  ∀ r ∈ references, s.Has r

/-- The superclass of a class. -/
def superclass? (s : Store) (c : ClassId) : Option ClassId :=
  (s.lineage c).tail.head?

/-- Frames and classes hang on older ones, up to the frame of the globals and classes without a
superclass, and everything that is referred to is there. -/
structure WellFormed (s : Store) : Prop where
  globals : ∃ frame, s.frames[Machine.globals]? = some frame ∧ frame.outer = []
  enclosed : ∀ (f : FrameId) (frame : Frame), s.frames[f]? = some frame → f ≠ Machine.globals →
    ∃ parent < f, frame.outer = s.chain parent
  derived : ∀ (c : ClassId) (cls : Class), s.classes[c]? = some cls →
    cls.ancestors = [] ∨ ∃ superclass < c, cls.ancestors = s.lineage superclass
  frame : ∀ (f : FrameId) (frame : Frame), s.frames[f]? = some frame → s.HasAll frame.references
  callable : ∀ (i : CallableId) (k : Callable), s.callables[i]? = some k → s.HasAll k.references
  class_ : ∀ (c : ClassId) (cls : Class), s.classes[c]? = some cls → s.HasAll cls.references
  instance_ : ∀ (i : InstanceId) (inst : Instance), s.instances[i]? = some inst →
    s.HasAll inst.references

variable {s s' : Store}

/-! ### References stay good -/

lemma Grows.has (hg : s.Grows s') {r : Reference} (h : s.Has r) : s'.Has r := by
  cases r with
  | frame f =>
    obtain ⟨_, hf, -⟩ := hg.frame f _ (Array.getElem?_eq_getElem h)
    exact (Array.getElem?_eq_some_iff.mp hf).1
  | callable i => exact (Array.getElem?_eq_some_iff.mp
      (hg.callable i _ (Array.getElem?_eq_getElem h))).1
  | classRef c => exact (Array.getElem?_eq_some_iff.mp
      (hg.class_ c _ (Array.getElem?_eq_getElem h))).1
  | instanceRef i =>
    obtain ⟨_, hi, -⟩ := hg.instance_ i _ (Array.getElem?_eq_getElem h)
    exact (Array.getElem?_eq_some_iff.mp hi).1

/-- What is there keeps its place among frames and classes. -/
lemma Grows.enclosing?_eq (hg : s.Grows s') {f : FrameId} (h : s.Has (.frame f)) :
    s'.enclosing? f = s.enclosing? f := by
  rw [enclosing?, enclosing?, hg.chain_eq (Array.getElem?_eq_getElem h)]

lemma Grows.lineage_eq (hg : s.Grows s') {c : ClassId} (h : s.Has (.classRef c)) :
    s'.lineage c = s.lineage c := by
  have hc := Array.getElem?_eq_getElem h
  simp [lineage, hc, hg.class_ c _ hc]

lemma Grows.superclass?_eq (hg : s.Grows s') {c : ClassId} (h : s.Has (.classRef c)) :
    s'.superclass? c = s.superclass? c := by
  rw [superclass?, superclass?, hg.lineage_eq h]

namespace HasAll

variable {rs rs' : List Reference}

lemma mono (h : s.HasAll rs) (hg : s.Grows s') : s'.HasAll rs :=
  fun r hr => hg.has (h r hr)

@[simp] lemma nil : s.HasAll [] := by
  simp [HasAll]

@[simp] lemma cons_iff {r : Reference} : s.HasAll (r :: rs) ↔ s.Has r ∧ s.HasAll rs :=
  List.forall_mem_cons

@[simp] lemma append_iff : s.HasAll (rs ++ rs') ↔ s.HasAll rs ∧ s.HasAll rs' :=
  List.forall_mem_append

lemma flatMap_iff {β : Type} {f : β → List Reference} {bs : List β} :
    s.HasAll (bs.flatMap f) ↔ ∀ b ∈ bs, s.HasAll (f b) := by
  simp only [HasAll, List.mem_flatMap]
  exact ⟨fun h b hb r hr => h r ⟨b, hb, hr⟩, fun h r ⟨b, hb, hr⟩ => h b hb r hr⟩

end HasAll

lemma has_frame_of_getElem? {f : FrameId} {frame : Frame} (h : s.frames[f]? = some frame) :
    s.Has (.frame f) :=
  (Array.getElem?_eq_some_iff.mp h).1

lemma exists_frame_of_has {f : FrameId} (h : s.Has (.frame f)) :
    ∃ frame, s.frames[f]? = some frame :=
  ⟨_, Array.getElem?_eq_getElem h⟩

/-- The frame around a frame and the contents of its variables are what it refers to. -/
lemma hasAll_frame {frame : Frame} :
    s.HasAll frame.references ↔ (∀ f ∈ frame.outer.head?, s.Has (.frame f)) ∧
      ∀ name slot, (name, slot) ∈ frame.vars → s.HasAll (slotReferences slot) := by
  rw [Frame.references, HasAll.append_iff, HasAll.flatMap_iff]
  refine and_congr ?_ ?_
  · simp [HasAll]
  · exact ⟨fun h name slot hm => h (name, slot) hm, fun h e he => h e.1 e.2 he⟩

/-- The superclass of a class and the frames of its members are what it refers to. -/
lemma hasAll_class {cls : Class} :
    s.HasAll cls.references ↔ (∀ c ∈ cls.ancestors.head?, s.Has (.classRef c)) ∧
      (∀ name f, (name, f) ∈ cls.methods → s.Has (.frame f.closure)) ∧
      ∀ name g, (name, g) ∈ cls.getters → s.Has (.frame g.closure) := by
  rw [Class.references, HasAll.append_iff, HasAll.append_iff, and_assoc]
  refine and_congr ?_ (and_congr ?_ ?_)
  · simp [HasAll]
  · exact List.forall_mem_map.trans Prod.forall
  · exact List.forall_mem_map.trans Prod.forall

/-- The class of an instance and the contents of its fields are what it refers to. -/
lemma hasAll_instance {inst : Instance} :
    s.HasAll inst.references ↔ s.Has (.classRef inst.classId) ∧
      ∀ name value, (name, value) ∈ inst.fields → s.HasAll value.references := by
  rw [Instance.references, HasAll.cons_iff, HasAll.flatMap_iff]
  exact and_congr Iff.rfl
    ⟨fun h name value hm => h (name, value) hm, fun h e he => h e.1 e.2 he⟩

/-! ### Look-ups in a well-formed store -/

namespace WellFormed

/-- Everything that something refers to is there. -/
lemma hasAll_referencesOf (h : s.WellFormed) (r : Reference) : s.HasAll (s.referencesOf r) := by
  cases r with
  | frame f =>
    cases hf : s.frames[f]? with
    | none => simp [referencesOf, hf]
    | some frame => simpa [referencesOf, hf] using h.frame f frame hf
  | callable i =>
    cases hk : s.callables[i]? with
    | none => simp [referencesOf, hk]
    | some k => simpa [referencesOf, hk] using h.callable i k hk
  | classRef c =>
    cases hc : s.classes[c]? with
    | none => simp [referencesOf, hc]
    | some cls => simpa [referencesOf, hc] using h.class_ c cls hc
  | instanceRef i =>
    cases hi : s.instances[i]? with
    | none => simp [referencesOf, hi]
    | some inst => simpa [referencesOf, hi] using h.instance_ i inst hi

/-- Frames hang on older ones. -/
lemma descends_chain (h : s.WellFormed) : Descends s.enclosing? s.chain := by
  have cases (f : FrameId) : s.chain f = [f] ∨ ∃ parent < f, s.chain f = f :: s.chain parent := by
    cases hf : s.frames[f]? with
    | none => exact .inl (by simp [chain, hf])
    | some frame =>
      by_cases hg : f = Machine.globals
      · obtain ⟨frame', hf', ho⟩ := h.globals
        subst hg
        exact .inl (by simp [chain, hf', ho])
      · obtain ⟨parent, hlt, ho⟩ := h.enclosed f frame hf hg
        exact .inr ⟨parent, hlt, by rw [chain, hf, Option.map_some, Option.getD_some, ho]⟩
  constructor
  · intro f
    rcases cases f with hc | ⟨parent, -, hc⟩
    · simp [enclosing?, hc]
    · have hn : s.enclosing? f = some parent := by rw [enclosing?, hc, List.tail_cons]; rfl
      rw [hn, hc]
      rfl
  · intro f g hn
    rcases cases f with hc | ⟨parent, hlt, hc⟩
    · simp [enclosing?, hc] at hn
    · rw [enclosing?, hc, List.tail_cons] at hn
      obtain rfl : parent = g := Option.some.inj hn
      exact hlt

/-- Classes hang on older ones. -/
lemma descends_lineage (h : s.WellFormed) : Descends s.superclass? s.lineage := by
  have cases (c : ClassId) :
      s.lineage c = [c] ∨ ∃ superclass < c, s.lineage c = c :: s.lineage superclass := by
    cases hc : s.classes[c]? with
    | none => exact .inl (by simp [lineage, hc])
    | some cls =>
      rcases h.derived c cls hc with ha | ⟨superclass, hlt, ha⟩
      · exact .inl (by simp [lineage, hc, ha])
      · exact .inr ⟨superclass, hlt, by rw [lineage, hc, Option.map_some, Option.getD_some, ha]⟩
  constructor
  · intro c
    rcases cases c with hl | ⟨superclass, -, hl⟩
    · simp [superclass?, hl]
    · have hn : s.superclass? c = some superclass := by rw [superclass?, hl, List.tail_cons]; rfl
      rw [hn, hl]
      rfl
  · intro c k hn
    rcases cases c with hl | ⟨superclass, hlt, hl⟩
    · simp [superclass?, hl] at hn
    · rw [superclass?, hl, List.tail_cons] at hn
      obtain rfl : superclass = k := Option.some.inj hn
      exact hlt

lemma has_globals (h : s.WellFormed) : s.Has (.frame Machine.globals) := by
  obtain ⟨_, hf, -⟩ := h.globals
  exact has_frame_of_getElem? hf

/-- The frame around one that is there is there, too. -/
lemma has_enclosing (h : s.WellFormed) {f g : FrameId} (hn : s.enclosing? f = some g) :
    s.Has (.frame g) := by
  cases hf : s.frames[f]? with
  | none => simp [enclosing?, chain, hf] at hn
  | some frame =>
    refine (hasAll_frame.mp (h.frame f frame hf)).1 g ?_
    simpa [enclosing?, chain, hf] using hn

/-- Only the frame of the globals has none around it. -/
lemma eq_globals_of_enclosing? (h : s.WellFormed) {f : FrameId} (hf : s.Has (.frame f))
    (hn : s.enclosing? f = none) : f = Machine.globals := by
  obtain ⟨frame, hframe⟩ := exists_frame_of_has hf
  by_contra hg
  obtain ⟨parent, -, ho⟩ := h.enclosed f frame hframe hg
  simp [enclosing?, chain, hframe, ho] at hn

/-- All frames around one that is there are there. -/
lemma has_of_mem_chain (h : s.WellFormed) {f : FrameId} (hf : s.Has (.frame f)) :
    ∀ g ∈ s.chain f, s.Has (.frame g) :=
  h.descends_chain.forall_mem_path (fun _ _ _ hn => h.has_enclosing hn) hf

/-- The frames around a frame end with that of the globals. -/
lemma getLast?_chain (h : s.WellFormed) {f : FrameId} (hf : s.Has (.frame f)) :
    (s.chain f).getLast? = some Machine.globals :=
  h.descends_chain.getLast?_path (fun _ _ _ hn => h.has_enclosing hn)
    (fun _ => h.eq_globals_of_enclosing?) hf

/-- A search for a variable comes to an end, and what it finds is read. -/
lemma get_eq_follow (h : s.WellFormed) (f : FrameId) (name : String) :
    ∃ slot?, follow s.enclosing? (s.slot? · name) (f + 1) f = some slot? ∧
      s.get f name = slot?.elim (.error (.undefinedVariable name)) readSlot := by
  refine ⟨_, h.descends_chain.follow_eq _ (Nat.lt_succ_self f), ?_⟩
  unfold get
  cases (s.chain f).findSome? (s.slot? · name) with
  | none => rfl
  | some slot => rfl

/-- A search for the frame of a variable comes to an end, and what it finds is written to. -/
lemma assign_eq_follow (h : s.WellFormed) (f : FrameId) (name : String) (value : Value) :
    ∃ g?, follow s.enclosing? (Option.guard fun g => (s.slot? g name).isSome) (f + 1) f =
        some g? ∧
      s.assign f name value =
        g?.elim (.error (.undefinedVariable name)) fun g => .ok (s.define g name value) := by
  refine ⟨_, h.descends_chain.follow_eq _ (Nat.lt_succ_self f), ?_⟩
  rw [List.findSome?_guard, assign, locate]
  cases (s.chain f).find? fun g => (s.slot? g name).isSome with
  | none => rfl
  | some g => rfl

/-- The frame at a distance is got to link by link. -/
lemma getAt_eq_climb (h : s.WellFormed) (f : FrameId) (distance : Nat) (name : String) :
    s.getAt f distance name =
      (climb s.enclosing? distance f).elim (.error (.noBinding name distance)) fun g =>
        (s.slot? g name).elim (.error (.noBinding name 0)) readSlot := by
  rw [h.descends_chain.climb_eq, getAt]
  cases (s.chain f)[distance]? with
  | none => rfl
  | some g =>
    dsimp only [Option.elim_some]
    cases s.slot? g name with
    | none => rfl
    | some slot => rfl

/-- What a variable holds is there. -/
lemma hasAll_slot (h : s.WellFormed) {f : FrameId} {name : String} {slot : Option Value}
    (hs : s.slot? f name = some slot) : s.HasAll (slotReferences slot) := by
  obtain ⟨frame, hf, hv⟩ := Option.bind_eq_some_iff.mp hs
  exact (hasAll_frame.mp (h.frame f frame hf)).2 name slot (Record.mem_of_get? hv)

lemma hasAll_get (h : s.WellFormed) {f : FrameId} {name : String} {value : Value}
    (hv : s.get f name = .ok value) : s.HasAll value.references := by
  obtain ⟨g, -, hg⟩ := List.exists_of_findSome?_eq_some (get_eq_ok.mp hv)
  exact h.hasAll_slot hg

lemma hasAll_getAt (h : s.WellFormed) {f : FrameId} {distance : Nat} {name : String}
    {value : Value} (hv : s.getAt f distance name = .ok value) : s.HasAll value.references := by
  obtain ⟨g, -, hg⟩ := getAt_eq_ok.mp hv
  exact h.hasAll_slot hg

/-- The frame that a method is closed over is there. -/
lemma has_findMethod? (h : s.WellFormed) {c : ClassId} {name : String} {f : Function}
    (hf : s.findMethod? c name = some f) : s.Has (.frame f.closure) := by
  obtain ⟨k, -, hk⟩ := List.exists_of_findSome?_eq_some hf
  obtain ⟨cls, hc, hm⟩ := Option.bind_eq_some_iff.mp hk
  exact (hasAll_class.mp (h.class_ k cls hc)).2.1 name f (Record.mem_of_get? hm)

lemma has_findGetter? (h : s.WellFormed) {c : ClassId} {name : String} {g : Getter}
    (hg : s.findGetter? c name = some g) : s.Has (.frame g.closure) := by
  obtain ⟨k, -, hk⟩ := List.exists_of_findSome?_eq_some hg
  obtain ⟨cls, hc, hm⟩ := Option.bind_eq_some_iff.mp hk
  exact (hasAll_class.mp (h.class_ k cls hc)).2.2 name g (Record.mem_of_get? hm)

lemma has_getter? (h : s.WellFormed) {value : Value} {g : Getter}
    (hg : s.getter? value = some g) : s.Has (.frame g.closure) := by
  unfold getter? at hg
  split at hg
  · split at hg
    · next g' hk =>
      obtain rfl : g' = g := Option.some.inj hg
      exact h.callable _ _ hk _ List.mem_cons_self
    · cases hg
  · cases hg

end WellFormed

/-! ### Operations keep stores well-formed -/

/-- As a store grows, only what is new or was changed is to be looked at. -/
lemma WellFormed.grow (h : s.WellFormed) (hg : s.Grows s')
    (hframe : ∀ (f : FrameId) (frame : Frame), s'.frames[f]? = some frame →
      s'.HasAll frame.references ∧ ((∃ old, s.frames[f]? = some old) ∨
        ∃ parent < f, s.Has (.frame parent) ∧ frame.outer = s.chain parent))
    (hcallable : ∀ (i : CallableId) (k : Callable), s'.callables[i]? = some k →
      s.callables[i]? = some k ∨ s'.HasAll k.references)
    (hclass : ∀ (c : ClassId) (cls : Class), s'.classes[c]? = some cls →
      s.classes[c]? = some cls ∨ s'.HasAll cls.references ∧
        (cls.ancestors = [] ∨ ∃ superclass < c, s.Has (.classRef superclass) ∧
          cls.ancestors = s.lineage superclass))
    (hinstance : ∀ (i : InstanceId) (inst : Instance), s'.instances[i]? = some inst →
      s.instances[i]? = some inst ∨ s'.HasAll inst.references) : s'.WellFormed where
  globals := by
    obtain ⟨frame, hf, ho⟩ := h.globals
    obtain ⟨frame', hf', hfg⟩ := hg.frame _ frame hf
    exact ⟨frame', hf', hfg.outer_eq.trans ho⟩
  enclosed := by
    intro f frame hf hne
    rcases (hframe f frame hf).2 with ⟨old, hold⟩ | ⟨parent, hlt, hp, ho⟩
    · obtain ⟨frame', hf', hfg⟩ := hg.frame f old hold
      obtain rfl : frame' = frame := Option.some.inj (hf'.symm.trans hf)
      obtain ⟨parent, hlt, ho⟩ := h.enclosed f old hold hne
      have hparent : s.Has (.frame parent) := Nat.lt_trans hlt (has_frame_of_getElem? hold)
      obtain ⟨_, hpf⟩ := exists_frame_of_has hparent
      exact ⟨parent, hlt, by rw [hfg.outer_eq, ho, hg.chain_eq hpf]⟩
    · obtain ⟨_, hpf⟩ := exists_frame_of_has hp
      exact ⟨parent, hlt, by rw [ho, hg.chain_eq hpf]⟩
  derived := by
    intro c cls hc
    rcases hclass c cls hc with hold | ⟨-, ha | ⟨superclass, hlt, hk, ha⟩⟩
    · rcases h.derived c cls hold with ha | ⟨superclass, hlt, ha⟩
      · exact .inl ha
      · have hk : s.Has (.classRef superclass) :=
          Nat.lt_trans hlt (Array.getElem?_eq_some_iff.mp hold).1
        exact .inr ⟨superclass, hlt, by rw [ha, hg.lineage_eq hk]⟩
    · exact .inl ha
    · exact .inr ⟨superclass, hlt, by rw [ha, hg.lineage_eq hk]⟩
  frame := fun f frame hf => (hframe f frame hf).1
  callable := by
    intro i k hk
    rcases hcallable i k hk with hold | hnew
    · exact (h.callable i k hold).mono hg
    · exact hnew
  class_ := by
    intro c cls hc
    rcases hclass c cls hc with hold | hnew
    · exact (h.class_ c cls hold).mono hg
    · exact hnew.1
  instance_ := by
    intro i inst hi
    rcases hinstance i inst hi with hold | hnew
    · exact (h.instance_ i inst hold).mono hg
    · exact hnew

namespace WellFormed

/-- Frames that stay as they are keep referring to what is there. -/
lemma frame_of_grows (h : s.WellFormed) (hg : s.Grows s') (f : FrameId) (frame : Frame)
    (hf : s.frames[f]? = some frame) :
    s'.HasAll frame.references ∧ ((∃ old, s.frames[f]? = some old) ∨
      ∃ parent < f, s.Has (.frame parent) ∧ frame.outer = s.chain parent) :=
  ⟨(h.frame f frame hf).mono hg, .inl ⟨frame, hf⟩⟩

lemma setSlot (h : s.WellFormed) (f : FrameId) (name : String) {slot : Option Value}
    (hs : s.HasAll (slotReferences slot)) : (s.setSlot f name slot).WellFormed := by
  have hg := grows_setSlot s f name slot
  refine h.grow hg ?_ (fun _ _ hk => .inl hk) (fun _ _ hc => .inl hc) fun _ _ hi => .inl hi
  intro g frame hframe
  simp only [Store.setSlot, Array.getElem?_modify] at hframe
  split at hframe
  · obtain ⟨old, hold, rfl⟩ := Option.map_eq_some_iff.mp hframe
    obtain ⟨houter, hvars⟩ := hasAll_frame.mp (h.frame g old hold)
    refine ⟨hasAll_frame.mpr ⟨fun p hp => hg.has (houter p hp), ?_⟩, .inl ⟨old, hold⟩⟩
    intro other held hm
    rcases Record.mem_of_mem_insert hm with he | hm
    · obtain ⟨rfl, rfl⟩ := Prod.mk.inj he
      exact hs.mono hg
    · exact (hvars other held hm).mono hg
  · exact h.frame_of_grows hg g frame hframe

lemma define (h : s.WellFormed) (f : FrameId) (name : String) {value : Value}
    (hv : s.HasAll value.references) : (s.define f name value).WellFormed :=
  h.setSlot f name hv

lemma declare (h : s.WellFormed) (f : FrameId) (name : String) : (s.declare f name).WellFormed :=
  h.setSlot f name .nil

lemma openFrame (h : s.WellFormed) (kind : FrameKind) {f : FrameId} (hf : s.Has (.frame f))
    {vars : Record (Option Value)}
    (hv : ∀ name slot, (name, slot) ∈ vars → s.HasAll (slotReferences slot)) :
    (s.openFrame kind f vars).2.WellFormed := by
  have hg := grows_openFrame s kind f vars
  refine h.grow hg ?_ (fun _ _ hk => .inl hk) (fun _ _ hc => .inl hc) fun _ _ hi => .inl hi
  intro g frame hframe
  simp only [Store.openFrame, addFrame, Array.getElem?_push] at hframe
  split at hframe
  · next he =>
    obtain rfl : _ = frame := Option.some.inj hframe
    refine ⟨hasAll_frame.mpr ⟨?_, fun name slot hm => (hv name slot hm).mono hg⟩, .inr ?_⟩
    · intro p hp
      obtain rfl : f = p := Option.some.inj hp
      exact hg.has hf
    · exact ⟨f, Nat.lt_of_lt_of_eq hf he.symm, hf, rfl⟩
  · exact h.frame_of_grows hg g frame hframe

lemma has_openFrame (kind : FrameKind) (f : FrameId) (vars : Record (Option Value)) :
    (s.openFrame kind f vars).2.Has (.frame (s.openFrame kind f vars).1) :=
  has_frame_of_getElem? (frames_openFrame s kind f vars)

lemma addCallable (h : s.WellFormed) {k : Callable} (hk : s.HasAll k.references) :
    (s.addCallable k).2.WellFormed := by
  have hg := grows_addCallable s k
  refine h.grow hg (h.frame_of_grows hg) ?_ (fun _ _ hc => .inl hc) fun _ _ hi => .inl hi
  intro i k' hi
  simp only [Store.addCallable, Array.getElem?_push] at hi
  split at hi
  · obtain rfl : k = k' := Option.some.inj hi
    exact .inr (hk.mono hg)
  · exact .inl hi

lemma addClass (h : s.WellFormed) {cls : Class} (hc : s.HasAll cls.references)
    (ha : cls.ancestors = [] ∨ ∃ superclass, cls.ancestors = s.lineage superclass) :
    (s.addClass cls).2.WellFormed := by
  have hg := grows_addClass s cls
  refine h.grow hg (h.frame_of_grows hg) (fun _ _ hk => .inl hk) ?_ fun _ _ hi => .inl hi
  intro c cls' hi
  simp only [Store.addClass, Array.getElem?_push] at hi
  split at hi
  · next he =>
    obtain rfl : cls = cls' := Option.some.inj hi
    refine .inr ⟨hc.mono hg, ha.imp id ?_⟩
    rintro ⟨superclass, ha⟩
    have hk : s.Has (.classRef superclass) := (hasAll_class.mp hc).1 superclass (by rw [ha]; rfl)
    exact ⟨superclass, Nat.lt_of_lt_of_eq hk he.symm, hk, ha⟩
  · exact .inl hi

lemma addInstance (h : s.WellFormed) {inst : Instance} (hi : s.HasAll inst.references) :
    (s.addInstance inst).2.WellFormed := by
  have hg := grows_addInstance s inst
  refine h.grow hg (h.frame_of_grows hg) (fun _ _ hk => .inl hk) (fun _ _ hc => .inl hc) ?_
  intro i inst' hnew
  simp only [Store.addInstance, Array.getElem?_push] at hnew
  split at hnew
  · obtain rfl : inst = inst' := Option.some.inj hnew
    exact .inr (hi.mono hg)
  · exact .inl hnew

/-- An instance may be changed as long as it only refers to what is there. -/
lemma modifyInstance (h : s.WellFormed) (i : InstanceId) {change : Instance → Instance}
    (hclass : ∀ inst, (change inst).classId = inst.classId)
    (hc : ∀ inst, s.HasAll inst.references → s.HasAll (change inst).references) :
    Store.WellFormed { s with instances := s.instances.modify i change } := by
  have hg := grows_modifyInstance s i change hclass
  refine h.grow hg (h.frame_of_grows hg) (fun _ _ hk => .inl hk) (fun _ _ hc => .inl hc) ?_
  intro j inst hj
  simp only [Array.getElem?_modify] at hj
  split at hj
  · obtain ⟨old, hold, rfl⟩ := Option.map_eq_some_iff.mp hj
    exact .inr ((hc old (h.instance_ j old hold)).mono hg)
  · exact .inl hj

lemma setField (h : s.WellFormed) (i : InstanceId) (name : String) {value : Value}
    (hv : s.HasAll value.references) : (s.setField i name value).WellFormed := by
  refine h.modifyInstance i (fun _ => rfl) fun inst hinst => ?_
  obtain ⟨hclass, hfields⟩ := hasAll_instance.mp hinst
  refine hasAll_instance.mpr ⟨hclass, fun other held hm => ?_⟩
  rcases Record.mem_of_mem_insert hm with he | hm
  · obtain ⟨rfl, rfl⟩ := Prod.mk.inj he
    exact hv
  · exact hfields other held hm

lemma setHandle (h : s.WellFormed) (i : InstanceId) (handle : Option Handle) :
    (s.setHandle i handle).WellFormed :=
  h.modifyInstance i (fun _ => rfl) fun _ hinst => hinst

/-! Members that are bound to a receiver. -/

lemma openReceiver (h : s.WellFormed) {f : FrameId} (hf : s.Has (.frame f)) {receiver : Value}
    (hr : s.HasAll receiver.references) : (s.openReceiver f receiver).2.WellFormed := by
  refine h.openFrame .receiver hf fun name slot hm => ?_
  obtain ⟨rfl, rfl⟩ := Prod.mk.inj (List.mem_singleton.mp hm)
  exact hr

lemma addBound (h : s.WellFormed) {f : Function} (hf : s.Has (.frame f.closure))
    {receiver : Value} (hr : s.HasAll receiver.references) :
    ((s.bindFunction f receiver).2.addFunction (s.bindFunction f receiver).1).2.WellFormed := by
  refine (h.openReceiver hf hr).addCallable ?_
  exact HasAll.cons_iff.mpr ⟨has_openFrame _ _ _, .nil⟩

/-- The last callable is there. -/
lemma has_addCallable (k : Callable) : (s.addCallable k).2.Has (.callable (s.addCallable k).1) := by
  simp [Has, Store.addCallable]

/-- A property of an instance is there. -/
lemma property (h : s.WellFormed) {i : InstanceId} (hi : s.Has (.instanceRef i)) (name : String) :
    (s.property i name).2.WellFormed ∧ ∀ value, (s.property i name).1 = .ok value →
      (s.property i name).2.HasAll value.references := by
  have hreceiver : s.HasAll (Value.instanceRef i).references := HasAll.cons_iff.mpr ⟨hi, .nil⟩
  have bound {s' : Store} {k : Callable} (value : Value)
      (he : (.ok (.callable (s'.addCallable k).1) : Except Cause Value) = .ok value) :
      (s'.addCallable k).2.HasAll value.references := by
    obtain rfl := Except.ok.inj he
    exact HasAll.cons_iff.mpr ⟨has_addCallable k, .nil⟩
  unfold Store.property
  split
  · exact ⟨h, nofun⟩
  · next inst hinst =>
    split
    · next value hvalue =>
      refine ⟨h, fun value' he => ?_⟩
      obtain rfl := Except.ok.inj he
      exact (hasAll_instance.mp (h.instance_ i inst hinst)).2 name value (Record.mem_of_get? hvalue)
    · split
      · next g hg =>
        refine ⟨(h.openReceiver (h.has_findGetter? hg) hreceiver).addCallable ?_, bound⟩
        exact HasAll.cons_iff.mpr ⟨has_openFrame _ _ _, .nil⟩
      · split
        · next f hf => exact ⟨h.addBound (h.has_findMethod? hf) hreceiver, bound⟩
        · split
          · exact ⟨h.addCallable hreceiver, bound⟩
          · exact ⟨h, nofun⟩

end WellFormed

end Store

end Scripting
