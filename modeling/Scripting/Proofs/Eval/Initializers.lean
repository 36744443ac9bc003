import Scripting.Proofs.Eval.Provenance

/-!
# Which functions are initializers

A function is marked as an initializer when its class is declared. Bound to a receiver it keeps the
mark, and no other function has it: what code declares for itself is closed over a frame that holds
no receiver. So of all functions that are ever called, the initializers are those that are closed
over a receiver and are called so.
-/

namespace Scripting

namespace Eval

/-- A frame is there, and not for a receiver. -/
def IsPlain (s : Store) (f : FrameId) : Prop :=
  ∃ frame, s.frames[f]? = some frame ∧ frame.kind ≠ .receiver

/-- A function is an initializer if it is closed over a receiver and named like one, and only
then. -/
def Tagged (s : Store) (f : Function) : Prop :=
  ∃ frame, s.frames[f.closure]? = some frame ∧
    (f.isInitializer ↔ frame.kind = .receiver ∧
      f.declaration.name.lexeme = Store.initializerName)

/-- A callable that is a function is tagged. -/
def CallableTagged (s : Store) (k : Callable) : Prop :=
  ∀ f, k = .function f → Tagged s f

/-- The methods of a class are under their names, and the initializer is marked as such. -/
def ClassTagged (cls : Class) : Prop :=
  ∀ name f, Record.get? cls.methods name = some f → f.declaration.name.lexeme = name ∧
    (f.isInitializer ↔ name = Store.initializerName)

/-- What is known of a call: its code runs in no frame for a receiver, and its function is
tagged. -/
structure Call.Tagged (c : Call) : Prop where
  place : ∀ x, c.task.place? = some x → IsPlain c.machine.store c.machine.scope
  function : ∀ f arguments, c.task = .function f arguments → Eval.Tagged c.machine.store f
  callable : ∀ k arguments, c.task = .callable k arguments → CallableTagged c.machine.store k

section

variable {s s' : Store} {c c' : Call} {f : FrameId} {function : Function}

lemma IsPlain.grow (h : IsPlain s f) (hg : s.Grows s') : IsPlain s' f := by
  obtain ⟨frame, hf, hk⟩ := h
  obtain ⟨frame', hf', hgrown⟩ := hg.frame f frame hf
  exact ⟨frame', hf', hgrown.kind_eq ▸ hk⟩

lemma Tagged.grow (h : Tagged s function) (hg : s.Grows s') : Tagged s' function := by
  obtain ⟨frame, hf, hiff⟩ := h
  obtain ⟨frame', hf', hgrown⟩ := hg.frame _ frame hf
  exact ⟨frame', hf', hgrown.kind_eq ▸ hiff⟩

/-- A function that holds its receiver is an initializer if it is named like one. -/
lemma Tagged.isInitializer (h : Tagged s function) (hk : s.kind? function.closure = some .receiver)
    (hn : function.declaration.name.lexeme = Store.initializerName) : function.isInitializer := by
  obtain ⟨frame, hf, hiff⟩ := h
  rw [Store.kind?, hf] at hk
  exact hiff.mpr ⟨Option.some.inj hk, hn⟩

lemma lasting_tagged : Lasting CallableTagged ClassTagged where
  grow := fun _ _ _ hg hk function he => (hk function he).grow hg
  member := by
    intro s k hs hb function he
    cases hb with
    | @method c cls name m f hc hm hf =>
      cases he
      obtain ⟨hname, hiff⟩ := hs.class_ c cls hc name m hm
      obtain ⟨frame, hframe, hkind, -⟩ := hf
      exact ⟨frame, hframe, by simp [hkind, hname, hiff]⟩
    | getter _ _ _ => cases he
  host := fun _ _ _ _ he => by cases he

lemma Call.Tagged.provides (h : c.Tagged) : c.Provides CallableTagged ClassTagged where
  closure := by
    rintro s k x d hx - hk hg hf function rfl
    obtain ⟨-, hclosure⟩ := Prod.mk.inj (Option.some.inj hk)
    obtain ⟨frame, hframe, hkind⟩ := (h.place x hx).grow hg
    refine ⟨frame, hclosure ▸ hframe, ?_⟩
    simp [hf function rfl, hkind]
  class_ := by
    intro name superclass methods getters closure ancestors _ key function hfound
    obtain ⟨-, -, hname, hiff⟩ := exists_of_methodRecord hfound
    exact ⟨hname, hiff⟩

lemma Call.Tagged.of_place {x : Place} (hx : c.task.place? = some x)
    (h : IsPlain c.machine.store c.machine.scope) : c.Tagged := by
  obtain ⟨hcode, hcallable⟩ := Task.code?_eq_none_of_place? hx
  refine ⟨fun _ _ => h, fun f arguments ht => ?_,
    fun k arguments ht => absurd ht (hcallable k arguments)⟩
  rw [ht] at hcode
  cases hcode

lemma Call.Tagged.of_function {arguments : List Value} (ht : c.task = .function function arguments)
    (h : Eval.Tagged c.machine.store function) : c.Tagged := by
  refine ⟨fun x hx => ?_, fun f arguments' ht' => ?_, fun k arguments' ht' => ?_⟩
  · rw [ht] at hx
    cases hx
  · obtain ⟨rfl, -⟩ := Task.function.inj (ht.symm.trans ht')
    exact h
  · rw [ht] at ht'
    cases ht'

/-- What a call makes is known to be tagged. -/
lemma Asked.tagged (h : Asked c c') (hc : c.Tagged)
    (hs : Stores CallableTagged ClassTagged c'.machine.store) : c'.Tagged := by
  cases h with
  | part hx hx' _ hg hscope =>
    refine .of_place hx' ?_
    rw [hscope]
    exact (hc.place _ hx).grow hg
  | block _ hx' _ _ hframe => exact .of_place hx' ⟨_, hframe, nofun⟩
  | body _ hx' _ _ hframe => exact .of_place hx' ⟨_, hframe, nofun⟩
  | value ht => exact ⟨by simp [ht, Task.place?], by simp [ht], by simp [ht]⟩
  | callable id ht hk _ =>
    refine ⟨by simp [ht, Task.place?], by simp [ht], fun k' arguments' ht' => ?_⟩
    obtain ⟨rfl, -⟩ := Task.callable.inj (ht.symm.trans ht')
    exact hs.callable id _ hk
  | construct ht _ => exact ⟨by simp [ht, Task.place?], by simp [ht], by simp [ht]⟩
  | runFunction ht ht' hm =>
    refine .of_function ht' ?_
    rw [hm]
    exact hc.callable _ _ ht _ rfl
  | runGetter _ ht' _ => exact ⟨by simp [ht', Task.place?], by simp [ht'], by simp [ht']⟩
  | getter id ht _ => exact ⟨by simp [ht, Task.place?], by simp [ht], by simp [ht]⟩
  | initializer _ _ _ ht hb =>
    exact .of_function ht (lasting_tagged.member _ _ hs hb _ rfl)

end

/-- All functions that are called in a run are tagged, and so are those that it leaves. -/
theorem Run.tagged {run : Run} (hscope : IsPlain run.machine.store run.machine.scope)
    (hs : Stores CallableTagged ClassTagged run.machine.store) :
    (∀ trail c, run.Visits trail c → c.Tagged) ∧
      Stores CallableTagged ClassTagged run.after.store := by
  have hdoes : ∀ (trail : List Call) (c : Call), c.Tagged →
      c.Does (fun s s' => Stores CallableTagged ClassTagged s →
        Stores CallableTagged ClassTagged s')
        (fun c' => c.Makes c' → Stores CallableTagged ClassTagged c'.machine.store →
          c'.Tagged) := by
    intro trail c hc
    refine c.acts.mono (fun s s' ha => ha.stores lasting_tagged hc.provides) ?_
    exact fun c' _ ha _ hs' => ha.tagged hc hs'
  obtain ⟨hcalls, hend⟩ := Run.keeps_of_does hdoes hs fun root hr _ => by
    obtain ⟨⟨s, -, ht⟩, hadvances⟩ := advances_of_asks_programPlan hr.2
    refine Call.Tagged.of_place (x := .stmt s) (by rw [ht]; rfl) ?_
    rw [hadvances.scope_eq]
    exact hscope.grow hadvances.grows
  exact ⟨fun trail c hc => (hcalls trail c hc).1, hend⟩

end Eval

end Scripting
