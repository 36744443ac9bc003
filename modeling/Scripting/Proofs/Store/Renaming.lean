import Scripting.Machine
import Scripting.Proofs.Program.Renaming
import Scripting.Proofs.Store.Likeness

/-!
# Stores with renamed code

Renaming the code in a store changes neither frames nor instances, and neither what is found where
nor what values look like. Every operation on stores goes the same way with the renamed code.
-/

namespace Scripting

namespace Record

variable {α β : Type}

/-- A record with other entries under the same names. -/
def mapEntries (f : α → β) (record : Record α) : Record β :=
  record.map fun (name, entry) => (name, f entry)

@[simp] lemma get?_mapEntries (f : α → β) (record : Record α) (name : String) :
    get? (mapEntries f record) name = (get? record name).map f := by
  induction record with
  | nil => rfl
  | cons head rest ih =>
    obtain ⟨other, held⟩ := head
    simp only [get?, mapEntries, List.map_cons, List.lookup_cons] at ih ⊢
    split
    · rfl
    · exact ih

lemma insert_mapEntries (f : α → β) (record : Record α) (name : String) (entry : α) :
    insert (mapEntries f record) name (f entry) = mapEntries f (insert record name entry) := by
  induction record with
  | nil => rfl
  | cons head rest ih =>
    obtain ⟨other, held⟩ := head
    simp only [mapEntries, List.map_cons, insert] at ih ⊢
    split
    · rfl
    · rw [ih]
      rfl

end Record

/-! ### Code -/

/-- A function with renamed code. -/
def Function.rename (ρ : Renaming) (f : Function) : Function :=
  { f with declaration := f.declaration.rename ρ }

/-- A getter with renamed code. -/
def Getter.rename (ρ : Renaming) (g : Getter) : Getter :=
  { g with declaration := g.declaration.rename ρ }

/-- A callable with renamed code. -/
def Callable.rename (ρ : Renaming) : Callable → Callable
  | .function f => .function (f.rename ρ)
  | .getter g => .getter (g.rename ρ)
  | .builtin b => .builtin b
  | .hostMethod method receiver => .hostMethod method receiver

/-- A class with renamed code. -/
def Class.rename (ρ : Renaming) (c : Class) : Class :=
  { c with
    methods := c.methods.mapEntries (Function.rename ρ)
    getters := c.getters.mapEntries (Getter.rename ρ) }

/-- A store with renamed code. -/
def Store.rename (ρ : Renaming) (s : Store) : Store :=
  { s with
    callables := s.callables.map (Callable.rename ρ)
    classes := s.classes.map (Class.rename ρ) }

section

variable (ρ : Renaming)

@[simp] lemma Callable.arity_rename (k : Callable) : (k.rename ρ).arity = k.arity := by
  cases k with
  | function f => simp [rename, arity, Function.rename]
  | _ => rfl

@[simp] lemma Callable.display_rename (k : Callable) : (k.rename ρ).display = k.display := by
  cases k with
  | function f => simp [rename, display, Function.rename]
  | getter g => simp [rename, display, Getter.rename]
  | _ => rfl

@[simp] lemma Function.inspect_rename (f : Function) : (f.rename ρ).inspect = f.inspect := by
  have hd : (f.rename ρ).declaration = f.declaration.rename ρ := rfl
  simp only [inspect, hd, FunctionDecl.rename_name, Token.rename_lexeme,
    FunctionDecl.rename_params, List.length_map]
  rfl

@[simp] lemma Getter.inspect_rename (g : Getter) : (g.rename ρ).inspect = g.inspect := by
  simp [inspect, Getter.rename]

@[simp] lemma Callable.inspect_rename (k : Callable) : (k.rename ρ).inspect = k.inspect := by
  cases k with
  | function f => exact f.inspect_rename ρ
  | getter g => exact g.inspect_rename ρ
  | _ => rfl

@[simp] lemma Callable.references_rename (k : Callable) :
    (k.rename ρ).references = k.references := by
  cases k <;> rfl

lemma inspectRecord_mapEntries {α : Type} {f : α → α} {show_ : α → String}
    (h : ∀ a, show_ (f a) = show_ a) (record : Record α) :
    inspectRecord show_ (record.mapEntries f) = inspectRecord show_ record := by
  simp [inspectRecord, Record.mapEntries, h, Function.comp_def]

lemma Class.inspect_rename (c : Class) (superclass : String) :
    (c.rename ρ).inspect superclass = c.inspect superclass := by
  have hm := inspectRecord_mapEntries (Function.inspect_rename ρ) c.methods
  have hg := inspectRecord_mapEntries (Getter.inspect_rename ρ) c.getters
  simp only [inspect, Class.rename, hm, hg]

lemma Class.references_rename (c : Class) : (c.rename ρ).references = c.references := by
  simp [references, Class.rename, Record.mapEntries, Function.comp_def, Function.rename,
    Getter.rename]

end

namespace Store

variable (ρ : Renaming) (s : Store)

@[simp] lemma frames_rename : (s.rename ρ).frames = s.frames := rfl

@[simp] lemma instances_rename : (s.rename ρ).instances = s.instances := rfl

@[simp] lemma getElem?_callables_rename (i : CallableId) :
    (s.rename ρ).callables[i]? = (s.callables[i]?).map (Callable.rename ρ) := by
  simp [rename]

@[simp] lemma getElem?_classes_rename (c : ClassId) :
    (s.rename ρ).classes[c]? = (s.classes[c]?).map (Class.rename ρ) := by
  simp [rename]

/-! ### What is added -/

lemma addCallable_rename (k : Callable) :
    (s.rename ρ).addCallable (k.rename ρ) =
      ((s.addCallable k).1, (s.addCallable k).2.rename ρ) := by
  simp [addCallable, rename]

lemma addClass_rename (c : Class) :
    (s.rename ρ).addClass (c.rename ρ) = ((s.addClass c).1, (s.addClass c).2.rename ρ) := by
  simp [addClass, rename]

lemma addFunction_rename (f : Function) :
    (s.rename ρ).addFunction (f.rename ρ) =
      ((s.addFunction f).1, (s.addFunction f).2.rename ρ) := by
  have h := addCallable_rename ρ s (.function f)
  simp only [Callable.rename] at h
  simp only [addFunction, h]

lemma addGetter_rename (g : Getter) :
    (s.rename ρ).addGetter (g.rename ρ) = ((s.addGetter g).1, (s.addGetter g).2.rename ρ) := by
  have h := addCallable_rename ρ s (.getter g)
  simp only [Callable.rename] at h
  simp only [addGetter, h]

lemma bindFunction_rename (f : Function) (receiver : Value) :
    (s.rename ρ).bindFunction (f.rename ρ) receiver =
      ((s.bindFunction f receiver).1.rename ρ, (s.bindFunction f receiver).2.rename ρ) := rfl

lemma bindGetter_rename (g : Getter) (receiver : Value) :
    (s.rename ρ).bindGetter (g.rename ρ) receiver =
      ((s.bindGetter g receiver).1.rename ρ, (s.bindGetter g receiver).2.rename ρ) := rfl

/-! ### What is found -/

@[simp] lemma lineage_rename (c : ClassId) : (s.rename ρ).lineage c = s.lineage c := by
  simp only [lineage, getElem?_classes_rename, Option.map_map]
  rfl

@[simp] lemma findMethod?_rename (c : ClassId) (name : String) :
    (s.rename ρ).findMethod? c name = (s.findMethod? c name).map (Function.rename ρ) := by
  simp only [findMethod?, lineage_rename]
  induction s.lineage c with
  | nil => rfl
  | cons k rest ih =>
    have hk : ((s.rename ρ).classes[k]?).bind (fun cls => cls.methods.get? name) =
        ((s.classes[k]?).bind fun cls => cls.methods.get? name).map (Function.rename ρ) := by
      cases hc : s.classes[k]? with
      | none => simp [hc]
      | some cls => simp [hc, Class.rename]
    rw [List.findSome?_cons, List.findSome?_cons, hk, ih]
    cases (s.classes[k]?).bind fun cls => cls.methods.get? name with
    | none => rfl
    | some f => rfl

@[simp] lemma findGetter?_rename (c : ClassId) (name : String) :
    (s.rename ρ).findGetter? c name = (s.findGetter? c name).map (Getter.rename ρ) := by
  simp only [findGetter?, lineage_rename]
  induction s.lineage c with
  | nil => rfl
  | cons k rest ih =>
    have hk : ((s.rename ρ).classes[k]?).bind (fun cls => cls.getters.get? name) =
        ((s.classes[k]?).bind fun cls => cls.getters.get? name).map (Getter.rename ρ) := by
      cases hc : s.classes[k]? with
      | none => simp [hc]
      | some cls => simp [hc, Class.rename]
    rw [List.findSome?_cons, List.findSome?_cons, hk, ih]
    cases (s.classes[k]?).bind fun cls => cls.getters.get? name with
    | none => rfl
    | some g => rfl

@[simp] lemma host_rename (c : ClassId) :
    ((s.rename ρ).classes[c]?).bind Class.host = (s.classes[c]?).bind Class.host := by
  cases hc : s.classes[c]? with
  | none => simp [hc]
  | some cls => simp [hc, Class.rename]

@[simp] lemma findHostMethod?_rename (c : ClassId) (name : String) :
    (s.rename ρ).findHostMethod? c name = s.findHostMethod? c name := by
  unfold findHostMethod?
  cases hc : s.classes[c]? with
  | none => simp [hc]
  | some cls => simp [hc, Class.rename]

@[simp] lemma classArity_rename (c : ClassId) : (s.rename ρ).classArity c = s.classArity c := by
  unfold classArity
  rw [host_rename, findMethod?_rename]
  cases s.findMethod? c initializerName with
  | none => rfl
  | some f => simp [Function.rename]

@[simp] lemma getter?_rename (value : Value) :
    (s.rename ρ).getter? value = (s.getter? value).map (Getter.rename ρ) := by
  cases value with
  | callable id =>
    simp only [getter?, getElem?_callables_rename]
    cases s.callables[id]? with
    | none => rfl
    | some k => cases k <;> rfl
  | _ => rfl

/-- A property is the same, and what it adds to the store is renamed. -/
lemma property_rename (i : InstanceId) (name : String) :
    (s.rename ρ).property i name = ((s.property i name).1, (s.property i name).2.rename ρ) := by
  unfold property
  rw [instances_rename]
  cases s.instances[i]? with
  | none => rfl
  | some inst =>
    dsimp only
    cases inst.fields.get? name with
    | some value => rfl
    | none =>
      dsimp only
      rw [findGetter?_rename, findMethod?_rename, findHostMethod?_rename]
      cases s.findGetter? inst.classId name with
      | some getter =>
        simp only [Option.map_some, bindGetter_rename, addGetter_rename]
      | none =>
        cases s.findMethod? inst.classId name with
        | some method =>
          simp only [Option.map_none, Option.map_some, bindFunction_rename, addFunction_rename]
        | none =>
          cases s.findHostMethod? inst.classId name with
          | some method =>
            simp only [Option.map_none]
            rw [show Callable.hostMethod method i = (Callable.hostMethod method i).rename ρ from
              rfl, addCallable_rename]
            rfl
          | none => rfl

/-! ### What values look like -/

/-- Renaming cannot be seen. -/
lemma looksLike_rename : s.LooksLike (s.rename ρ) where
  frames i := by
    rw [frames_rename]
    cases s.frames[i]? with
    | none => exact .none
    | some frame => exact .some rfl
  callables i := by
    rw [getElem?_callables_rename]
    cases s.callables[i]? with
    | none => exact .none
    | some k => exact .some ⟨k.display_rename ρ, k.inspect_rename ρ, k.references_rename ρ⟩
  classes i := by
    rw [getElem?_classes_rename]
    cases s.classes[i]? with
    | none => exact .none
    | some c => exact .some ⟨rfl, rfl, funext (c.inspect_rename ρ), c.references_rename ρ⟩
  instances_eq := rfl

@[simp] lemma display_rename (value : Value) : (s.rename ρ).display value = s.display value :=
  (s.looksLike_rename ρ).display_eq value

/-! ### Two renamings -/

lemma rename_comp (σ : Renaming) : s.rename (σ.comp ρ) = (s.rename ρ).rename σ := by
  have hf : ∀ f : Function, f.rename (σ.comp ρ) = (f.rename ρ).rename σ := by
    intro f
    simp only [Function.rename, FunctionDecl.rename_comp]
  have hg : ∀ g : Getter, g.rename (σ.comp ρ) = (g.rename ρ).rename σ := by
    intro g
    simp only [Getter.rename, GetterDecl.rename_comp]
  have hk : Callable.rename (σ.comp ρ) = Callable.rename σ ∘ Callable.rename ρ := by
    funext k
    cases k with
    | function f => simp only [Callable.rename, hf, Function.comp_apply]
    | getter g => simp only [Callable.rename, hg, Function.comp_apply]
    | _ => rfl
  have hc : Class.rename (σ.comp ρ) = Class.rename σ ∘ Class.rename ρ := by
    funext c
    simp only [Class.rename, Record.mapEntries, Function.comp_apply, List.map_map,
      Function.comp_def, hf, hg]
  simp only [rename, hk, hc, Array.map_map]

/-- A renaming that keeps all lines and identities leaves a store alone. -/
lemma rename_id : s.rename (.ofNodes id) = s := by
  have hf : Function.rename (.ofNodes id) = id := by
    funext f
    have hd : f.declaration.rename (.ofNodes id) = f.declaration :=
      f.declaration.rename_eq_self fun _ _ => rfl
    simp only [Function.rename, hd, id]
  have hg : Getter.rename (.ofNodes id) = id := by
    funext g
    have hd : g.declaration.rename (.ofNodes id) = g.declaration :=
      g.declaration.rename_eq_self fun _ _ => rfl
    simp only [Getter.rename, hd, id]
  have hk : Callable.rename (.ofNodes id) = id := by
    funext k
    cases k with
    | function f => simp only [Callable.rename, hf, id]
    | getter g => simp only [Callable.rename, hg, id]
    | _ => rfl
  have hc : Class.rename (.ofNodes id) = id := by
    funext c
    simp [Class.rename, Record.mapEntries, hf, hg]
  simp only [rename, hk, hc, Array.map_id_fun, id]

end Store

end Scripting
