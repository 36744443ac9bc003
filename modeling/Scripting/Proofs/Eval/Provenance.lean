import Scripting.Proofs.Eval.Actions
import Scripting.Proofs.Program.Vocabulary

/-!
# Where the code that runs comes from

Callables are made of the declarations in the code that runs, or of members of classes, and classes
of the class statements in that code. So what holds of the parts of all programs holds of all code
that ever runs, in whatever frames that is and however the distances of its names were found.
-/

namespace Scripting

open Resolution

namespace Eval

/-- Something holds of all callables in a store, and something of all classes. -/
structure Stores (good : Store → Callable → Prop) (fine : Class → Prop) (s : Store) : Prop where
  callable : ∀ (id : CallableId) (k : Callable), s.callables[id]? = some k → good s k
  class_ : ∀ (id : ClassId) (cls : Class), s.classes[id]? = some cls → fine cls

/-- What is once true of a callable stays true, and what is true of all classes makes it true of
their members when they are bound. -/
structure Lasting (good : Store → Callable → Prop) (fine : Class → Prop) : Prop where
  grow : ∀ s s' k, s.Grows s' → good s k → good s' k
  member : ∀ s k, Stores good fine s → s.BindsMember k → good s k
  host : ∀ s method i, good s (.hostMethod method i)

/-- It is true of what a call declares. -/
structure Call.Provides (good : Store → Callable → Prop) (fine : Class → Prop) (c : Call) :
    Prop where
  closure : ∀ s k x d, c.task.place? = some x → x.Holds [] d →
    k.code? = some (d, c.machine.scope) → c.machine.store.Grows s →
      (∀ f, k = .function f → f.isInitializer = false) → good s k
  class_ : ∀ name superclass methods getters closure ancestors,
    c.task = .stmt (.classDecl name superclass methods getters) →
      fine ⟨name.lexeme, ancestors, methodRecord closure methods, getterRecord closure getters,
        none⟩

section

variable {good : Store → Callable → Prop} {fine : Class → Prop} {c c' : Call} {s s' : Store}

lemma Stores.grow (h : Stores good fine s) (hl : Lasting good fine) (hg : s.Grows s')
    (hk : s'.callables = s.callables) (hc : s'.classes = s.classes) : Stores good fine s' where
  callable := by
    intro id k hid
    rw [hk] at hid
    exact hl.grow s s' k hg (h.callable id k hid)
  class_ := by
    intro id cls hid
    rw [hc] at hid
    exact h.class_ id cls hid

lemma Stores.addCallable (h : Stores good fine s) (hl : Lasting good fine) {k : Callable}
    (hk : good s k) : Stores good fine (s.addCallable k).2 where
  callable := by
    intro id k' hid
    refine hl.grow s _ k' (s.grows_addCallable k) ?_
    simp only [Store.addCallable, Array.getElem?_push] at hid
    split at hid
    · obtain rfl : k = k' := by simpa using hid
      exact hk
    · exact h.callable id k' hid
  class_ := h.class_

lemma Stores.addClass (h : Stores good fine s) (hl : Lasting good fine) {cls : Class}
    (hc : fine cls) : Stores good fine (s.addClass cls).2 where
  callable := fun id k hid => hl.grow s _ k (s.grows_addClass cls) (h.callable id k hid)
  class_ := by
    intro id cls' hid
    simp only [Store.addClass, Array.getElem?_push] at hid
    split at hid
    · obtain rfl : cls = cls' := by simpa using hid
      exact hc
    · exact h.class_ id cls' hid

/-- The actions of a call keep what is true of what it declares. -/
theorem Act.stores (h : Act c s s') (hl : Lasting good fine) (hc : c.Provides good fine)
    (hs : Stores good fine s) : Stores good fine s' := by
  induction h with
  | aside hg _ hk hcls _ => exact hs.grow hl hg hk hcls
  | trans _ _ ih ih' => exact ih' (ih hs)
  | write f slot _ => exact hs.grow hl (Store.grows_setSlot _ f _ slot) rfl rfl
  | field i v _ => exact hs.grow hl (Store.grows_setField _ i _ v) rfl rfl
  | block f => exact hs.grow hl (Store.grows_openFrame _ _ f _) rfl rfl
  | call f _ => exact hs.grow hl (Store.grows_openFrame _ _ f _) rfl rfl
  | receiver f _ => exact hs.grow hl (Store.grows_openFrame _ _ f _) rfl rfl
  | superclass f superclass => exact hs.grow hl (Store.grows_openFrame _ _ f _) rfl rfl
  | closure hg _ hx hd hk hf => exact hs.addCallable hl (hc.closure _ _ _ _ hx hd hk hg hf)
  | member hb => exact hs.addCallable hl (hl.member _ _ hs hb)
  | host method i => exact hs.addCallable hl (hl.host _ method i)
  | class_ ht _ => exact hs.addClass hl (hc.class_ _ _ _ _ _ _ ht)

end

/-! ### All code -/

section

variable {q : Place → Prop} {c c' : Call} {s : Store}

/-- Something holds everywhere in the code of a callable. -/
def CallableHas (q : Place → Prop) (k : Callable) : Prop :=
  ∀ d f, k.code? = some (d, f) → d.Everywhere q

/-- Something holds everywhere in the members of a class. -/
def ClassHas (q : Place → Prop) (cls : Class) : Prop :=
  ∀ d f, cls.Has d f → d.Everywhere q

/-- Something holds everywhere in the code of a store. -/
abbrev StoreHas (q : Place → Prop) : Store → Prop :=
  Stores (fun _ => CallableHas q) (ClassHas q)

/-- Something holds everywhere in the code that a call is made for. -/
structure Call.Has (q : Place → Prop) (c : Call) : Prop where
  place : ∀ x, c.task.place? = some x → x.Everywhere q
  code : ∀ d f, c.task.code? = some (d, f) → d.Everywhere q
  callable : ∀ k arguments, c.task = .callable k arguments → CallableHas q k

lemma lasting_callableHas (q : Place → Prop) :
    Lasting (fun _ => CallableHas q) (ClassHas q) where
  grow := fun _ _ _ _ hk => hk
  member := by
    intro s k hs hb d f hd
    obtain ⟨_, d', _, hk, cls, closure, _, hc, hhas, -⟩ := hb.exists_binds
    obtain ⟨rfl, -⟩ := Prod.mk.inj (Option.some.inj (hk.symm.trans hd))
    exact hs.class_ _ cls hc _ closure hhas
  host := fun _ _ _ _ _ hd => by cases hd

lemma everywhere_of_mem_stmts {s : Stmt} {ss : List Stmt} (h : (Place.stmts ss).Everywhere q)
    (hs : s ∈ ss) : (Place.stmt s).Everywhere q := by
  induction ss with
  | nil => cases hs
  | cons first ss ih =>
    rcases List.mem_cons.mp hs with rfl | hs
    · exact h.part (r := .start) List.mem_cons_self
    · exact ih (h.part (r := .start) (List.mem_cons_of_mem _ List.mem_cons_self)) hs

lemma everywhere_of_mem_functions {d : FunctionDecl} {ds : List FunctionDecl}
    (h : (Place.functions ds).Everywhere q) (hd : d ∈ ds) : (Place.function d).Everywhere q := by
  induction ds with
  | nil => cases hd
  | cons first ds ih =>
    rcases List.mem_cons.mp hd with rfl | hd
    · exact h.part (r := .start) List.mem_cons_self
    · exact ih (h.part (r := .start) (List.mem_cons_of_mem _ List.mem_cons_self)) hd

lemma everywhere_of_mem_getters {d : GetterDecl} {ds : List GetterDecl}
    (h : (Place.getters ds).Everywhere q) (hd : d ∈ ds) : (Place.getter d).Everywhere q := by
  induction ds with
  | nil => cases hd
  | cons first ds ih =>
    rcases List.mem_cons.mp hd with rfl | hd
    · exact h.part (r := .start) List.mem_cons_self
    · exact ih (h.part (r := .start) (List.mem_cons_of_mem _ List.mem_cons_self)) hd

/-- The members of a class statement are in it. -/
lemma everywhere_of_has {name : Token} {superclass : Option Expr} {methods : List FunctionDecl}
    {getters : List GetterDecl} {closure f : FrameId} {ancestors : List ClassId} {d : Place}
    (h : (Place.stmt (.classDecl name superclass methods getters)).Everywhere q)
    (hd : Class.Has ⟨name.lexeme, ancestors, methodRecord closure methods,
      getterRecord closure getters, none⟩ d f) : d.Everywhere q := by
  obtain ⟨hmethods, hgetters⟩ :
      (Place.functions methods).Everywhere q ∧ (Place.getters getters).Everywhere q := by
    cases superclass with
    | none =>
      exact ⟨h.part (r := .start) List.mem_cons_self,
        h.part (r := .start) (List.mem_cons_of_mem _ List.mem_cons_self)⟩
    | some superclass =>
      exact ⟨h.part (r := .start) (List.mem_cons_of_mem _ List.mem_cons_self),
        h.part (r := .start)
          (List.mem_cons_of_mem _ (List.mem_cons_of_mem _ List.mem_cons_self))⟩
  cases hd with
  | method hf => exact everywhere_of_mem_functions hmethods (exists_of_methodRecord hf).1
  | getter hg => exact everywhere_of_mem_getters hgetters (exists_of_getterRecord hg).1

lemma Call.Has.provides (h : c.Has q) : c.Provides (fun _ => CallableHas q) (ClassHas q) where
  closure := by
    intro s k x d hx hh hk _ _ d' f hd
    obtain ⟨rfl, -⟩ := Prod.mk.inj (Option.some.inj (hk.symm.trans hd))
    exact (h.place x hx).of_holds hh
  class_ := by
    intro name superclass methods getters closure ancestors ht d f hd
    exact everywhere_of_has (h.place _ (by rw [ht]; rfl)) hd

/-- What a call goes through is all that is to be looked at, if it goes through code. -/
lemma Call.Has.of_place {x : Place} (hx : c.task.place? = some x) (h : x.Everywhere q) :
    c.Has q := by
  obtain ⟨hcode, hcallable⟩ := Task.code?_eq_none_of_place? hx
  refine ⟨fun y hy => ?_, fun d f hd => ?_, fun k arguments ht => absurd ht (hcallable k arguments)⟩
  · obtain rfl := Option.some.inj (hx.symm.trans hy)
    exact h
  · rw [hcode] at hd
    cases hd

lemma Call.Has.of_code {d : Place} {f : FrameId} (hd : c.task.code? = some (d, f))
    (h : d.Everywhere q) : c.Has q := by
  obtain ⟨hplace, hcallable⟩ := Task.place?_eq_none_of_code? hd
  refine ⟨fun x hx => ?_, fun d' f' hd' => ?_,
    fun k arguments ht => absurd ht (hcallable k arguments)⟩
  · rw [hplace] at hx
    cases hx
  · obtain ⟨rfl, -⟩ := Prod.mk.inj (Option.some.inj (hd.symm.trans hd'))
    exact h

lemma Call.Has.of_callable {k : Callable} {arguments : List Value}
    (ht : c.task = .callable k arguments) (h : CallableHas q k) : c.Has q := by
  refine ⟨fun x hx => ?_, fun d f hd => ?_, fun k' arguments' ht' => ?_⟩
  · rw [ht] at hx
    cases hx
  · rw [ht] at hd
    cases hd
  · obtain ⟨rfl, -⟩ := Task.callable.inj (ht.symm.trans ht')
    exact h

/-- The calls that a call makes are for its own code, or for code in the store. -/
lemma Asked.has (h : Asked c c') (hc : c.Has q) (hs : StoreHas q c'.machine.store) : c'.Has q := by
  cases h with
  | part hx hx' hh _ _ => exact .of_place hx' ((hc.place _ hx).of_holds hh)
  | block hx hx' hh _ _ => exact .of_place hx' ((hc.place _ hx).of_holds hh)
  | body hd hx' hh _ _ => exact .of_place hx' ((hc.code _ _ hd).of_holds hh)
  | value ht =>
    exact ⟨by simp [ht, Task.place?], by simp [ht, Task.code?], by simp [ht]⟩
  | callable id ht hk _ => exact .of_callable ht (hs.callable id _ hk)
  | construct ht _ => exact ⟨by simp [ht, Task.place?], by simp [ht, Task.code?], by simp [ht]⟩
  | runFunction ht ht' _ => exact .of_code (by rw [ht']; rfl) (hc.callable _ _ ht _ _ rfl)
  | runGetter ht ht' _ => exact .of_code (by rw [ht']; rfl) (hc.callable _ _ ht _ _ rfl)
  | getter id ht hk => exact .of_code (by rw [ht]; rfl) (hs.callable _ _ hk _ _ rfl)
  | initializer _ _ _ ht hb =>
    have hk := (lasting_callableHas q).member _ _ hs hb
    exact .of_code (by rw [ht]; rfl) (hk _ _ rfl)

end

/-- What holds everywhere in a program, and in the code that it finds, holds of all code that is run
with it and that it leaves. -/
theorem Run.has {run : Run} {q : Place → Prop} (hp : (Place.stmts run.program).Everywhere q)
    (hs : StoreHas q run.machine.store) :
    (∀ trail c, run.Visits trail c → c.Has q) ∧ StoreHas q run.after.store := by
  have hdoes : ∀ (trail : List Call) (c : Call), c.Has q →
      c.Does (fun s s' => StoreHas q s → StoreHas q s')
        (fun c' => c.Makes c' → StoreHas q c'.machine.store → c'.Has q) := by
    intro trail c hc
    refine c.acts.mono (fun s s' ha => ha.stores (lasting_callableHas q) hc.provides) ?_
    exact fun c' _ ha _ hs' => ha.has hc hs'
  obtain ⟨hcalls, hend⟩ := Run.keeps_of_does hdoes hs fun root hr _ => by
    obtain ⟨⟨s, hmem, ht⟩, -⟩ := advances_of_asks_programPlan hr.2
    exact Call.Has.of_place (by rw [ht]; rfl) (everywhere_of_mem_stmts hp hmem)
  exact ⟨fun trail c hc => (hcalls trail c hc).1, hend⟩

end Eval

end Scripting
