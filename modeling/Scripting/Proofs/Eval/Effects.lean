import Scripting.Proofs.Eval.Actions

/-!
# What a call of an accepted program does

Where code stands as it should, more is known of what a call does by itself. `Effect` has what it
does to the store: it writes no reserved words, and the frame that the members of a class are closed
over holds the superclass that the class was declared with. `Leads` has the calls that it makes: for
a part of their code in the same frame or in a new one, or for the code of a callable. `Call.does`
says that there is nothing else.
-/

namespace Scripting

open Resolution

namespace Eval

/-- The frame that members are closed over holds the superclass that their class was declared with,
if there is one. -/
def Closes (c : Call) (s : Store) (cls : Class) (closure : FrameId) : Prop :=
  (∃ frame, s.frames[closure]? = some frame ∧ frame.kind ≠ .superclass) ∨
    ∃ superclass, s.slot? closure "super" = some (some (.classRef superclass)) ∧
      c.Derives s.classes.size superclass cls.ancestors

/-- What a call does to the store. -/
inductive Effect (c : Call) : Store → Store → Prop
  | quiet {s s' : Store} : s.Grows s' → s'.frames = s.frames → s'.callables = s.callables →
    s'.classes = s.classes → Effect c s s'
  | trans {s s' s'' : Store} : Effect c s s' → Effect c s' s'' → Effect c s s''
  | write {s : Store} {name : String} (f : FrameId) (slot : Option Value) :
    ¬ IsReserved name → Effect c s (s.setSlot f name slot)
  | scope {s : Store} {kind : FrameKind} {vars : Record (Option Value)} (f : FrameId) :
    kind = .block ∨ kind = .call → (∀ word, IsReserved word → ¬ vars.has word) →
      Effect c s (s.openFrame kind f vars).2
  /-- A receiver is an instance, or else it comes from another frame. -/
  | receiver {s : Store} {value : Value} (f : FrameId) :
    ((∃ i, value = .instanceRef i) ∨ ∃ g, s.slot? g "this" = some (some value)) →
      Effect c s (s.openReceiver f value).2
  | superclass {s : Store} (f : FrameId) (superclass : ClassId) :
    Effect c s (withSuperclass s f superclass).2
  | closure {s : Store} {k : Callable} {d : Place} : c.machine.store.Grows s →
    c.Creates s.callables.size → k.code? = some (d, c.machine.scope) →
      Effect c s (s.addCallable k).2
  | member {s : Store} {k : Callable} {cls : ClassId} {d : Place} {f : FrameId} :
    k.code? = some (d, f) → s.Binds cls d f → Effect c s (s.addCallable k).2
  | host {s : Store} (method : HostMethod) (i : InstanceId) :
    Effect c s (s.addCallable (.hostMethod method i)).2
  | class_ {s : Store} {cls : Class} :
    (∀ d closure, cls.Has d closure → Closes c s cls closure) → Effect c s (s.addClass cls).2

/-- What a call that another one makes is for. -/
inductive Leads (c c' : Call) : Prop
  /-- A part of the code, in the same scope. -/
  | part {x x' : Place} : c.task.place? = some x → c'.task.place? = some x' → x.Holds [] x' →
    c.machine.store.Grows c'.machine.store → c'.machine.scope = c.machine.scope → Leads c c'
  | block {x x' : Place} : c.task.place? = some x → c'.task.place? = some x' →
    x.Holds [.block] x' → c.machine.store.Grows c'.machine.store →
      c'.machine.store.frames[c'.machine.scope]? =
        some ⟨.block, c.machine.store.chain c.machine.scope, []⟩ → Leads c c'
  /-- The body of a function or of a getter. -/
  | body {d x' : Place} {f : FrameId} {vars : Record (Option Value)} :
    c.task.code? = some (d, f) → c'.task.place? = some x' → d.Holds [.call] x' →
      c.machine.store.Grows c'.machine.store →
        c'.machine.store.frames[c'.machine.scope]? = some ⟨.call, c.machine.store.chain f, vars⟩ →
          Leads c c'
  /-- A call of a value, before it is known what that is. -/
  | value : c'.task.place? = none → c'.task.code? = none →
    (∀ k arguments, c'.task ≠ .callable k arguments) → Leads c c'
  | callable {k : Callable} {arguments : List Value} (id : CallableId) :
    c'.task = .callable k arguments → c'.machine.store.callables[id]? = some k → Leads c c'
  | run {k : Callable} {arguments : List Value} {code : Place × FrameId} :
    c.task = .callable k arguments → k.code? = some code → c'.task.code? = some code →
      c'.machine = c.machine → Leads c c'
  /-- A getter that is read as a property. -/
  | getter {g : Getter} (id : CallableId) : c'.task = .getter g →
    c'.machine.store.callables[id]? = some (.getter g) → Leads c c'
  | initializer {cls : ClassId} {d : Place} {f : FrameId} :
    c'.task.code? = some (d, f) → c'.machine.store.Binds cls d f → Leads c c'

/-! ### What is known of the actions -/

section

variable {b : Background} {trail : List Call} {c c' : Call} {s s' : Store}

/-- Only identifiers are written. -/
lemma isName_of_written (hr : (siteLaw b).ready trail c) {name : Token}
    (hw : c.task.written? = some name) : name.IsName := by
  obtain ⟨steps, t, m⟩ := c
  obtain ⟨-, hready⟩ := hr
  cases t with
  | expr e =>
    cases e with
    | assign id token value =>
      obtain rfl : token = name := by simpa [Task.written?] using hw
      exact StandsExpr.isName_of_assign hready
    | _ => cases hw
  | stmt s => exact isName_of_stands hready hw
  | _ => cases hw

/-- No parameter is a reserved word. -/
lemma not_isReserved_parameters (hr : (siteLaw b).ready trail c) {f : Function}
    {arguments : List Value} (ht : c.task = .function f arguments) {word : String}
    (hw : IsReserved word) : ¬ (bindParameters f.declaration.params arguments).has word := by
  intro hhas
  obtain ⟨steps, t, m⟩ := c
  obtain rfl : t = _ := ht
  obtain ⟨-, hs, ha⟩ := hr
  obtain ⟨param, hp, rfl⟩ := (has_bindParameters ha word).mp hhas
  obtain ⟨p, hprog, ks, r, hl, -⟩ := hs.1
  have hwf := (hl.site (b.accepted p hprog)).wellFormed
  obtain ⟨⟨name, params, body⟩, closure, isInitializer⟩ := f
  exact (hwf.1 param hp).not_isReserved hw

/-- The frame that code runs in is not one for a superclass. -/
lemma exists_frame_of_stands {f : FrameId} {x : Place}
    (h : s.Stands b.programs (b.Pending trail) f x) :
    ∃ frame, s.frames[f]? = some frame ∧ frame.kind ≠ .superclass := by
  obtain ⟨p, hp, ks, r, hl, ha⟩ := h
  have hlayout := (hl.site (b.accepted p hp)).layout
  obtain ⟨frame, hf⟩ := ha.exists_frame
  refine ⟨frame, hf, ?_⟩
  have hkind := congrArg List.head? ha.map_kind?
  rw [Store.chain, List.map_cons, Store.kind?, hf, Option.map_some, List.head?_cons,
    List.head?_map, List.head?_append] at hkind
  cases hhead : ks.head? with
  | none =>
    rw [hhead] at hkind
    have hk := Option.some.inj (Option.some.inj hkind)
    rw [hk]
    decide
  | some kind =>
    rw [hhead] at hkind
    have hk := Option.some.inj (Option.some.inj hkind)
    rw [hk]
    rintro rfl
    exact hlayout.head?_ne_superclass hhead

/-- All members of a class that is declared are closed over one frame. -/
lemma closure_eq_of_has {closure f : FrameId} {name : String} {ancestors : List ClassId}
    {methods : List FunctionDecl} {getters : List GetterDecl} {host : Option HostClass} {d : Place}
    (h : Class.Has ⟨name, ancestors, methodRecord closure methods, getterRecord closure getters,
      host⟩ d f) : f = closure := by
  cases h with
  | method hf => exact (exists_of_methodRecord hf).2.1
  | getter hg => exact (exists_of_getterRecord hg).2

lemma Act.effect (hr : (siteLaw b).ready trail c) (h : Act c s s') : Effect c s s' := by
  induction h with
  | aside hg hf hk hc _ => exact .quiet hg hf hk hc
  | trans _ _ ih ih' => exact .trans ih ih'
  | write f slot hw => exact .write f slot (isName_of_written hr hw).not_isReserved
  | field i v _ => exact .quiet (Store.grows_setField _ i _ v) rfl rfl rfl
  | block f => exact .scope f (.inl rfl) (by simp)
  | call f hv =>
    refine .scope f (.inr rfl) fun word hw => ?_
    rcases hv with rfl | ⟨function, arguments, ht, rfl⟩
    · simp
    · exact not_isReserved_parameters hr ht hw
  | receiver f hv => exact .receiver f hv
  | superclass f superclass => exact .superclass f superclass
  | closure hg hcreates _ _ hk _ => exact .closure hg hcreates hk
  | member hm =>
    obtain ⟨_, _, _, hk, hb⟩ := hm.exists_binds
    exact .member hk hb
  | host method i => exact .host method i
  | class_ ht hclosure =>
    refine .class_ fun d f hd => ?_
    rw [closure_eq_of_has hd]
    rcases hclosure with ⟨rfl, hg⟩ | ⟨k, hslot, hderives⟩
    · obtain ⟨steps, t, m⟩ := c
      obtain rfl : t = _ := ht
      obtain ⟨frame, hf, hk⟩ := exists_frame_of_stands hr.2
      obtain ⟨frame', hf', hgrown⟩ := hg.frame _ _ hf
      exact .inl ⟨frame', hf', hgrown.kind_eq ▸ hk⟩
    · exact .inr ⟨k, hslot, hderives⟩

lemma Asked.leads (h : Asked c c') : Leads c c' := by
  cases h with
  | part hx hx' hh hg hs => exact .part hx hx' hh hg hs
  | block hx hx' hh hg hf => exact .block hx hx' hh hg hf
  | body hd hx' hh hg hf => exact .body hd hx' hh hg hf
  | value ht => exact .value (by rw [ht]; rfl) (by rw [ht]; rfl) (by simp [ht])
  | callable id ht hk _ => exact .callable id ht hk
  | construct ht _ => exact .value (by rw [ht]; rfl) (by rw [ht]; rfl) (by simp [ht])
  | runFunction ht ht' hm => exact .run ht rfl (by rw [ht']; rfl) hm
  | runGetter ht ht' hm => exact .run ht rfl (by rw [ht']; rfl) hm
  | getter id ht hk => exact .getter id ht hk
  | initializer _ _ _ ht hb =>
    obtain ⟨_, _, _, hd, hb⟩ := hb.exists_binds
    exact .initializer (by rw [ht]; exact hd) hb

end

/-- All that a call does by itself, if its code stands where it should. -/
theorem Call.does {b : Background} {trail : List Call} {c : Call}
    (hr : (siteLaw b).ready trail c) : c.Does (Effect c) (Leads c) :=
  c.acts.mono (fun _ _ ha => ha.effect hr) fun _ _ ha => ha.leads

end Eval

end Scripting
