import Mathlib.Data.Option.Basic
import Scripting.Store.References
import Scripting.Store.Text

/-!
# Stores that look alike

Two stores look alike if nothing that is shown of what is in them tells them apart, and neither
does who refers to whom. Then every value is shown in the same way, and the same instances are
abandoned.
-/

namespace Scripting

/-! ### Related entries -/

section

variable {α β γ δ : Type} {R S : α → β → Prop} {a : Option α} {b : Option β}

lemma rel_mono (h : Option.Rel R a b) (hR : ∀ x y, R x y → S x y) : Option.Rel S a b := by
  cases h with
  | some hr => exact .some (hR _ _ hr)
  | none => exact .none

/-- What is the same for related things. -/
lemma rel_map_eq (h : Option.Rel R a b) {f : α → γ} {g : β → γ} (hf : ∀ x y, R x y → g y = f x) :
    b.map g = a.map f := by
  cases h with
  | some hr => exact congrArg some (hf _ _ hr)
  | none => rfl

lemma rel_bind (h : Option.Rel R a b) {T : γ → δ → Prop} {f : α → Option γ} {g : β → Option δ}
    (hf : ∀ x y, R x y → Option.Rel T (f x) (g y)) : Option.Rel T (a.bind f) (b.bind g) := by
  cases h with
  | some hr => exact hf _ _ hr
  | none => exact .none

end

/-- Two arrays have related entries in the same places. -/
def Entrywise {α β : Type} (R : α → β → Prop) (a : Array α) (b : Array β) : Prop :=
  ∀ i : Nat, Option.Rel R a[i]? b[i]?

namespace Entrywise

variable {α β γ : Type} {R S : α → β → Prop} {a : Array α} {b : Array β}

lemma size_eq (h : Entrywise R a b) : b.size = a.size := by
  apply Nat.le_antisymm
  · by_contra hlt
    have hend := h a.size
    rw [Array.getElem?_eq_none (Nat.le_refl _),
      Array.getElem?_eq_getElem (Nat.lt_of_not_le hlt)] at hend
    cases hend
  · by_contra hlt
    have hend := h b.size
    rw [Array.getElem?_eq_none (Nat.le_refl _),
      Array.getElem?_eq_getElem (Nat.lt_of_not_le hlt)] at hend
    cases hend

lemma mono (h : Entrywise R a b) (hR : ∀ x y, R x y → S x y) : Entrywise S a b :=
  fun i => rel_mono (h i) hR

lemma push (h : Entrywise R a b) {x : α} {y : β} (hx : R x y) :
    Entrywise R (a.push x) (b.push y) := by
  intro i
  rw [Array.getElem?_push, Array.getElem?_push, h.size_eq]
  split
  · exact .some hx
  · exact h i

/-- An array goes along with itself if its entries do. -/
lemma of_self {R : α → α → Prop} (h : ∀ (i : Nat) (x : α), a[i]? = some x → R x x) :
    Entrywise R a a := by
  intro i
  cases ha : a[i]? with
  | none => exact .none
  | some x => exact .some (h i x ha)

lemma map_getElem? (h : Entrywise R a b) {f : α → γ} {g : β → γ} (hf : ∀ x y, R x y → g y = f x)
    (i : Nat) : (b[i]?).map g = (a[i]?).map f :=
  rel_map_eq (h i) hf

end Entrywise

/-! ### What is shown and referred to -/

/-- Two callables are shown alike and refer to the same. -/
structure Callable.LooksLike (k k' : Callable) : Prop where
  display_eq : k'.display = k.display
  inspect_eq : k'.inspect = k.inspect
  references_eq : k'.references = k.references

/-- Two classes are shown alike and refer to the same. -/
structure Class.LooksLike (c c' : Class) : Prop where
  name_eq : c'.name = c.name
  ancestors_eq : c'.ancestors = c.ancestors
  inspect_eq : c'.inspect = c.inspect
  references_eq : c'.references = c.references

namespace Store

/-- Two stores have in the same places what is shown alike and refers to the same. -/
structure LooksLike (s s' : Store) : Prop where
  frames : Entrywise (fun f f' => f'.references = f.references) s.frames s'.frames
  callables : Entrywise Callable.LooksLike s.callables s'.callables
  classes : Entrywise Class.LooksLike s.classes s'.classes
  instances_eq : s'.instances = s.instances

lemma LooksLike.refl (s : Store) : s.LooksLike s :=
  ⟨.of_self fun _ _ _ => rfl, .of_self fun _ _ _ => ⟨rfl, rfl, rfl⟩,
    .of_self fun _ _ _ => ⟨rfl, rfl, rfl, rfl⟩, rfl⟩

namespace LooksLike

variable {s s' : Store} (h : s.LooksLike s')

include h

lemma className_eq (c : ClassId) : s'.className c = s.className c := by
  rw [className, className, h.classes.map_getElem? fun _ _ hc => hc.name_eq]

/-- A value is displayed in the same way. -/
theorem display_eq (value : Value) : s'.display value = s.display value := by
  cases value with
  | callable id =>
    rw [display, display, h.callables.map_getElem? fun _ _ hk => hk.display_eq]
  | classRef c => exact h.className_eq c
  | instanceRef i => simp only [display, h.instances_eq, h.className_eq]
  | _ => rfl

lemma inspectLineage_eq (cs : List ClassId) : s'.inspectLineage cs = s.inspectLineage cs := by
  induction cs with
  | nil => rfl
  | cons c rest ih =>
    simp only [inspectLineage, ih]
    exact h.classes.map_getElem? (fun _ _ hc => congrFun hc.inspect_eq _) c

lemma inspectInstance_eq : s'.inspectInstance = s.inspectInstance := by
  funext i
  simp only [inspectInstance, h.className_eq]

/-- A value is inspected in the same way. -/
theorem inspect_eq (value : Value) : s'.inspect value = s.inspect value := by
  cases value with
  | callable id =>
    rw [inspect, inspect, h.callables.map_getElem? fun _ _ hk => hk.inspect_eq]
  | classRef c =>
    simp only [inspect, inspectClass, h.inspectLineage_eq,
      h.classes.map_getElem? fun _ _ hc => hc.ancestors_eq]
  | instanceRef i => simp only [inspect, h.instances_eq, h.inspectInstance_eq]
  | _ => rfl

lemma inspectList_eq (values : List Value) : s'.inspectList values = s.inspectList values := by
  rw [inspectList, inspectList, show s'.inspect = s.inspect from funext h.inspect_eq]

/-! ### What is referred to -/

lemma referencesOf_eq : s'.referencesOf = s.referencesOf := by
  funext r
  cases r with
  | frame f => rw [referencesOf, referencesOf, h.frames.map_getElem? fun _ _ hf => hf]
  | callable c =>
    rw [referencesOf, referencesOf, h.callables.map_getElem? fun _ _ hk => hk.references_eq]
  | classRef c =>
    rw [referencesOf, referencesOf, h.classes.map_getElem? fun _ _ hc => hc.references_eq]
  | instanceRef i => rw [referencesOf, referencesOf, h.instances_eq]

lemma placeOf_eq : s'.placeOf = s.placeOf := by
  funext r
  cases r <;> simp only [placeOf, h.frames.size_eq, h.callables.size_eq, h.classes.size_eq]

lemma contents_eq : s'.contents = s.contents := by
  simp only [contents, h.frames.size_eq, h.callables.size_eq, h.classes.size_eq, h.instances_eq]

lemma referenceCounts_eq (roots : List Reference) :
    s'.referenceCounts roots = s.referenceCounts roots := by
  have hcount : s'.countAll = s.countAll := by
    funext counts references
    rw [countAll, countAll, h.placeOf_eq]
  simp only [referenceCounts, h.contents_eq, hcount, h.referencesOf_eq, h.frames.size_eq,
    h.callables.size_eq, h.classes.size_eq, h.instances_eq]

lemma uncountAll_eq (references : List Reference) (counts : Array Nat)
    (abandoned : List Reference) :
    s'.uncountAll counts abandoned references = s.uncountAll counts abandoned references := by
  induction references generalizing counts abandoned with
  | nil => rfl
  | cons r rest ih => simp only [uncountAll, h.placeOf_eq, ih]

lemma abandon_eq (steps : Nat) (counts : Array Nat) (abandoned : List Reference) :
    s'.abandon steps counts abandoned = s.abandon steps counts abandoned := by
  induction steps generalizing counts abandoned with
  | zero => cases abandoned <;> rfl
  | succ steps ih =>
    cases abandoned with
    | nil => rfl
    | cons r rest => simp only [abandon, h.uncountAll_eq, h.referencesOf_eq, ih]

/-- The same instances are abandoned. -/
theorem abandonedHandles_eq (roots : List Reference) :
    s'.abandonedHandles roots = s.abandonedHandles roots := by
  simp only [abandonedHandles, liveCounts, h.referenceCounts_eq, h.contents_eq, h.placeOf_eq,
    h.abandon_eq, h.instances_eq]
  rfl

end LooksLike

end Store

end Scripting
