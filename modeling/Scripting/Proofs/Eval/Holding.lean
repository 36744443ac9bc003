import Scripting.Proofs.Eval.Belonging
import Scripting.Proofs.Eval.Footprint
import Scripting.Proofs.Eval.Likeness
import Scripting.Proofs.Eval.Outcomes
import Scripting.Proofs.Store.Abandonment
import Scripting.Proofs.Store.WellFormed

/-!
# Receivers need not be held

What is held keeps things in use that a program could not get at otherwise, and only the network can
tell: what is not in use any more is closed. While the body of a bound member runs, its frame is in
use, and around this is the one with the receiver, which nothing can take away. So whether the
receiver is held as well makes no difference, up to what is held.
-/

namespace Scripting

namespace Store

variable {s s' : Store} {f : FrameId} {i : InstanceId}

/-- A frame is directly inside of one that has an instance as its receiver. -/
def Anchors (s : Store) (f : FrameId) (i : InstanceId) : Prop :=
  ∃ frame g, s.frames[f]? = some frame ∧ frame.outer.head? = some g ∧
    s.slot? g "this" = some (some (.instanceRef i))

/-- Nothing that leaves the reserved words alone takes the receiver away. -/
lemma Anchors.fixes (h : s.Anchors f i) (hs : s.Fixes s') : s'.Anchors f i := by
  obtain ⟨frame, g, hf, hg, hi⟩ := h
  obtain ⟨frame', hf', hgrown⟩ := hs.frame f frame hf
  exact ⟨frame', g, hf', by rw [hgrown.outer_eq, hg], hs.slot?_of_some hi (.inl rfl)⟩

lemma Anchors.congr (h : s.Anchors f i) (hf : s'.frames = s.frames) : s'.Anchors f i := by
  unfold Anchors slot? at h ⊢
  rwa [hf]

/-- The receiver can be reached from the frame. -/
lemma Anchors.reached (h : s.Anchors f i) {roots : List Reference} (hr : .frame f ∈ roots) :
    s.Reached roots (.instanceRef i) := by
  obtain ⟨frame, g, hf, hg, hi⟩ := h
  obtain ⟨receiver, hreceiver, hslot⟩ := Option.bind_eq_some_iff.mp hi
  have hinner : .frame g ∈ s.referencesOf (.frame f) := by
    simp [referencesOf, hf, Frame.references, hg]
  have houter : .instanceRef i ∈ s.referencesOf (.frame g) := by
    rw [referencesOf, hreceiver]
    refine List.mem_append_right _ (List.mem_flatMap.mpr ⟨_, Record.mem_of_get? hslot, ?_⟩)
    exact List.mem_singleton.mpr rfl
  exact .next (.next (.root hr) hinner) houter

end Store

/-- Two machines that are the same up to references to an instance among what is held. -/
structure Machine.SameBut (i : InstanceId) (m m' : Machine) : Prop where
  eq : m' = { m with held := m'.held }
  held_eq : m'.held.filter (· ≠ .instanceRef i) = m.held.filter (· ≠ .instanceRef i)

/-- Such machines, on which a frame is in use that has the instance as its receiver. -/
structure Machine.Spares (f : FrameId) (i : InstanceId) (m m' : Machine) : Prop
    extends Machine.SameBut i m m' where
  root : .frame f ∈ m.roots
  anchors : m.store.Anchors f i

namespace Machine

variable {f : FrameId} {i : InstanceId} {m m' : Machine}

lemma SameBut.alike (h : m.SameBut i m') : m.Alike m' := by
  rw [h.eq]
  exact ⟨rfl, rfl, rfl⟩

lemma SameBut.withStore (h : m.SameBut i m') (store : Store) :
    Machine.SameBut i { m with store } { m' with store } :=
  ⟨by rw [h.eq], h.held_eq⟩

namespace Spares

/-- Nothing but the instance is in use on one of the machines only. -/
lemma filter_roots (h : m.Spares f i m') (references : List Reference) :
    (references ++ m'.roots).filter (· ≠ .instanceRef i) =
      (references ++ m.roots).filter (· ≠ .instanceRef i) := by
  have hscope : m'.scope = m.scope := h.alike.scope_eq
  simp only [roots, hscope, List.filter_append, List.filter_cons, h.held_eq]

/-- The same is abandoned on both machines. -/
lemma abandonedHandles_eq (h : m.Spares f i m') (references : List Reference) :
    m.store.abandonedHandles (references ++ m'.roots) =
      m.store.abandonedHandles (references ++ m.roots) := by
  have hreached : m.store.Reached ((references ++ m.roots).filter (· ≠ .instanceRef i))
      (.instanceRef i) := by
    refine h.anchors.reached (List.mem_filter.mpr ⟨List.mem_append_right _ h.root, ?_⟩)
    simp
  rw [Store.abandonedHandles_filter hreached, ← h.filter_roots references]
  refine Store.abandonedHandles_filter ?_
  rwa [h.filter_roots references]

/-- What changes the machines in the same way, and the frames not at all, leaves them so. -/
lemma congr (h : m.Spares f i m') {n n' : Machine} (he : n' = { n with held := n'.held })
    (hheld : n.held = m.held) (hheld' : n'.held = m'.held) (hscope : n.scope = m.scope)
    (ha : n.store.Anchors f i) : n.Spares f i n' := by
  refine ⟨⟨he, by rw [hheld, hheld', h.held_eq]⟩, ?_, ha⟩
  rw [roots, hscope, hheld]
  exact h.root

lemma withStore (h : m.Spares f i m') {store : Store} (hs : m.store.Fixes store) :
    Machine.Spares f i { m with store } { m' with store } :=
  ⟨h.toSameBut.withStore store, h.root, h.anchors.fixes hs⟩

end Spares

lemma SameBut.enter (h : m.SameBut i m') (mode : Eval.Mode) :
    (mode.enter m).SameBut i (mode.enter m') := by
  cases mode with
  | plain => exact h
  | within frame =>
    refine ⟨?_, ?_⟩
    · rw [h.eq]
      rfl
    · simp only [Eval.Mode.enter, h.alike.scope_eq, List.filter_cons, h.held_eq]
  | holding value =>
    refine ⟨?_, ?_⟩
    · rw [h.eq]
      rfl
    · simp only [Eval.Mode.enter, List.filter_append, h.held_eq]

/-- What is in use stays so during a call. -/
lemma mem_roots_enter {r : Reference} (h : r ∈ m.roots) (mode : Eval.Mode) :
    r ∈ (mode.enter m).roots := by
  simp only [roots, List.mem_cons] at h
  cases mode with
  | plain => simpa [Eval.Mode.enter, roots] using h
  | within frame =>
    simp only [Eval.Mode.enter, roots, List.mem_cons]
    tauto
  | holding value =>
    simp only [Eval.Mode.enter, roots, List.mem_cons, List.mem_append]
    tauto

lemma Spares.enter (h : m.Spares f i m') (mode : Eval.Mode) :
    (mode.enter m).Spares f i (mode.enter m') := by
  refine ⟨h.toSameBut.enter mode, mem_roots_enter h.root mode, ?_⟩
  rw [mode.enter_store]
  exact h.anchors

lemma SameBut.leave (h : m.SameBut i m') (mode : Eval.Mode) {after after' : Machine}
    (ha : after.SameBut i after') : (mode.leave m after).SameBut i (mode.leave m' after') := by
  have hscope := h.alike.scope_eq
  cases mode with
  | plain => exact ha
  | within frame =>
    refine ⟨?_, h.held_eq⟩
    rw [ha.eq]
    simp only [Eval.Mode.leave, hscope]
  | holding value =>
    refine ⟨?_, h.held_eq⟩
    rw [ha.eq]
    simp only [Eval.Mode.leave, hscope]

lemma Spares.leave (h : m.Spares f i m') (mode : Eval.Mode) {after after' : Machine}
    (ha : after.Spares f i after') : (mode.leave m after).Spares f i (mode.leave m' after') := by
  refine ⟨h.toSameBut.leave mode ha.toSameBut, ?_, ?_⟩
  · cases mode with
    | plain => exact ha.root
    | within frame => exact h.root
    | holding value => exact h.root
  · rw [mode.leave_store]
    exact ha.anchors

end Machine

/-- Built-in functions and host classes cannot tell such machines apart. -/
lemma Machine.likeness_spares (f : FrameId) (i : InstanceId) :
    Machine.Likeness (Machine.Spares f i) where
  looksLike h := by
    rw [h.alike.store_eq]
    exact .refl _
  abandoned_eq h := h.abandonedHandles_eq
  input_eq h := by rw [h.eq]
  network_eq h := by rw [h.eq]
  time_eq h := by rw [h.eq]
  withInput h _ := h.congr (by rw [h.eq]) rfl rfl rfl h.anchors
  withNetwork h _ := h.congr (by rw [h.eq]) rfl rfl rfl h.anchors
  withTime h _ := h.congr (by rw [h.eq]) rfl rfl rfl h.anchors
  log h _ _ _ := h.congr (by rw [h.eq]; rfl) rfl rfl rfl h.anchors
  addInstance h _ := h.congr (by rw [h.eq]) rfl rfl rfl (h.anchors.congr rfl)
  setHandle h _ _ := h.congr (by rw [h.eq]) rfl rfl rfl (h.anchors.congr rfl)

/-! ### Actions on two machines -/

namespace Exec

variable {α β : Type} {M : Machine → Machine → Prop} {x : Exec α} {m m' : Machine}

/-- The same result or the same stop, on related machines. -/
def EndsMatched (M : Machine → Machine → Prop) :
    EStateM.Result Stop Machine α → EStateM.Result Stop Machine α → Prop
  | .ok a after, .ok a' after' => a' = a ∧ M after after'
  | .error stop after, .error stop' after' => stop' = stop ∧ M after after'
  | _, _ => False

/-- An action ends in the same way on two machines, and leaves related ones. -/
def Matches (M : Machine → Machine → Prop) (x : Exec α) (m m' : Machine) : Prop :=
  EndsMatched M (x m) (x m')

namespace Matches

lemma of_ok (h : x.Matches M m m') {a : α} {after : Machine} (ho : x m = .ok a after) :
    ∃ after', x m' = .ok a after' ∧ M after after' := by
  unfold Matches at h
  rw [ho] at h
  cases ho' : x m' with
  | ok a' after' =>
    rw [ho'] at h
    obtain ⟨rfl, h⟩ := h
    exact ⟨after', rfl, h⟩
  | error stop after' =>
    rw [ho'] at h
    exact h.elim

lemma of_error (h : x.Matches M m m') {stop : Stop} {after : Machine}
    (ho : x m = .error stop after) : ∃ after', x m' = .error stop after' ∧ M after after' := by
  unfold Matches at h
  rw [ho] at h
  cases ho' : x m' with
  | ok a' after' =>
    rw [ho'] at h
    exact h.elim
  | error stop' after' =>
    rw [ho'] at h
    obtain ⟨rfl, h⟩ := h
    exact ⟨after', rfl, h⟩

lemma ok {a : α} {after after' : Machine} (ho : x m = .ok a after) (ho' : x m' = .ok a after')
    (h : M after after') : x.Matches M m m' := by
  rw [Matches, ho, ho']
  exact ⟨rfl, h⟩

lemma error {stop : Stop} {after after' : Machine} (ho : x m = .error stop after)
    (ho' : x m' = .error stop after') (h : M after after') : x.Matches M m m' := by
  rw [Matches, ho, ho']
  exact ⟨rfl, h⟩

lemma pure (a : α) (h : M m m') : (Pure.pure a : Exec α).Matches M m m' :=
  ok rfl rfl h

lemma bind {next : α → Exec β} (hx : x.Matches M m m')
    (hn : ∀ a after after', x m = .ok a after → M after after' →
      (next a).Matches M after after') : (x >>= next).Matches M m m' := by
  cases ho : x m with
  | ok a after =>
    obtain ⟨after', ho', h⟩ := hx.of_ok ho
    rw [Matches, bind_of_ok ho, bind_of_ok ho']
    exact hn a after after' ho h
  | error stop after =>
    obtain ⟨after', ho', h⟩ := hx.of_error ho
    exact error (bind_of_error ho) (bind_of_error ho') h

/-- A local action does not tell machines apart that are alike. -/
lemma of_local (hx : x.Local) (ha : m.Alike m')
    (h : M { m with store := (x.after m).store } { m' with store := (x.after m).store }) :
    x.Matches M m m' := by
  obtain ⟨a, store, ho⟩ | ⟨stop, store, ho⟩ := hx.exists_store m
  · rw [Exec.after, ho] at h
    exact ok ho (hx.ok ha ho) h
  · rw [Exec.after, ho] at h
    exact error ho (hx.error ha ho) h

lemma of_agree (hx : Agree M Eq x x) (h : M m m') : x.Matches M m m' := by
  obtain ⟨a, _, after, after', ho, ho', rfl, hafter⟩ := hx m m' h
  exact ok ho ho' hafter

lemma wrap {mode : Eval.Mode} {N : Machine → Machine → Prop}
    (h : x.Matches M (mode.enter m) (mode.enter m'))
    (hleave : ∀ after after', M after after' → N (mode.leave m after) (mode.leave m' after')) :
    (mode.wrap x).Matches N m m' := by
  unfold Matches
  rw [mode.wrap_apply, mode.wrap_apply]
  cases ho : x (mode.enter m) with
  | ok a after =>
    obtain ⟨after', ho', hafter⟩ := h.of_ok ho
    rw [ho']
    exact ⟨rfl, hleave _ _ hafter⟩
  | error stop after =>
    obtain ⟨after', ho', hafter⟩ := h.of_error ho
    rw [ho']
    exact ⟨rfl, hleave _ _ hafter⟩

end Matches

end Exec

/-! ### The evaluator on two machines -/

namespace Eval

open Exec

variable {f : FrameId} {i : InstanceId} {m m' : Machine}

/-- What looks at what is held or at the world does not tell such machines apart. -/
lemma Task.Outward.spares {t : Task} {γ : Type} {x : Exec γ} (h : t.Outward x)
    (hm : m.Spares f i m') : x.Matches (Machine.Spares f i) m m' := by
  have hlike := Machine.likeness_spares f i
  cases h with
  | print keyword value text =>
    have hsink : m'.sink = m.sink := by rw [hm.eq]
    have hafter : ∀ sink, Machine.Spares f i { m with sink } { m' with sink } :=
      fun sink => hm.congr (by rw [hm.eq]) rfl rfl rfl hm.anchors
    unfold Matches
    rw [print_apply, print_apply, hsink]
    split_ifs
    · exact ⟨rfl, hafter _⟩
    · exact ⟨rfl, hafter _⟩
  | builtin b arguments => exact .of_agree (b.run_agree hlike arguments) hm
  | hostMethod method receiver arguments =>
    exact .of_agree (method.run_agree hlike receiver arguments) hm
  | host host c arguments => exact .of_agree (host.construct_agree hlike c arguments) hm

/-- Neither does a plan, if its calls do not. -/
lemma Plan.Confined.spares {α : Type} {outward : {γ : Type} → Exec γ → Prop} {steps : Nat}
    {asks : Task → Machine → Prop} {p : Plan α} (hp : p.Confined outward)
    (hout : ∀ {γ : Type} {x : Exec γ}, outward x → ∀ m m', m.Spares f i m' →
      x.Matches (Machine.Spares f i) m m')
    (hd : p.Does (Task.perform steps) Store.Fixes asks m) (hm : m.Spares f i m')
    (hcalls : ∀ t m m', asks t m → m.Spares f i m' →
      (t.perform steps).Matches (Machine.Spares f i) m m') :
    (p.perform (Task.perform steps)).Matches (Machine.Spares f i) m m' := by
  induction hp generalizing m m' with
  | done a => exact .pure a hm
  | @act γ x next hx _ ih =>
    refine .bind (.of_local hx hm.alike (hm.withStore hd.1)) fun g after after' ho hafter => ?_
    exact ih g (hd.2 g after ho) hafter
  | scope next _ ih =>
    -- both machines have the same scope
    have hnext := ih m.scope (hd.2 m m rfl) hm
    unfold Matches at hnext ⊢
    rw [Plan.perform_act, bind_of_ok (get_apply m), bind_of_ok (get_apply m'), hm.alike.scope_eq]
    exact hnext
  | @outward γ x next hx _ ih =>
    refine .bind (hout hx m m' hm) fun g after after' ho hafter => ?_
    exact ih g (hd.2 g after ho) hafter
  | @call mode t next _ ih =>
    refine .bind (.wrap (hcalls t _ _ hd.1 (hm.enter mode)) fun _ _ => hm.leave mode) ?_
    intro r after after' ho hafter
    have ho : (mode.wrap (t.perform steps)).Ends m (.ok r) after := ho
    obtain ⟨inside, hr, rfl⟩ := mode.ends_wrap.mp ho
    exact ih r (hd.2 r inside hr (Task.advances_leave hr)) hafter

/-- Whatever the evaluator is asked to do, it does in the same way on both machines. -/
theorem Task.spares {b : Background} {trail : List Call} {steps : Nat} {t : Task}
    (hr : (siteLaw b).ready trail ⟨steps, t, m⟩) (hm : m.Spares f i m') :
    (t.perform steps).Matches (Machine.Spares f i) m m' := by
  induction steps generalizing trail t m m' with
  | zero =>
    rw [t.perform_zero]
    exact .error rfl rfl hm
  | succ steps ih =>
    have hd : Call.Does ⟨steps + 1, t, m⟩ Store.Fixes
        fun c => (siteLaw b).ready (⟨steps + 1, t, m⟩ :: trail) c :=
      (Call.does hr).mono (fun _ _ he => he.fixes) fun _ hmakes _ =>
        (siteLaw_sound b).ready_of_makes hr hmakes
    rw [t.perform_succ]
    exact t.plan_confined.spares (fun hx _ _ hm => hx.spares hm) (hd steps rfl) hm
      fun _ _ _ hready hm => ih hready hm

/-! ### Getters that are bound -/

/-- A bound getter does the same on both machines: around the frame of its body is that with its
receiver. -/
lemma runGetter_sameBut {b : Background} {trail : List Call} {steps : Nat} {g : Getter}
    (hr : (siteLaw b).ready trail ⟨steps, .getter g, m⟩)
    (hi : m.store.slot? g.closure "this" = some (some (.instanceRef i))) (hm : m.SameBut i m') :
    (runGetter steps g).Matches (Machine.SameBut i) m m' := by
  change ((Task.getter g).perform steps).Matches _ m m'
  cases steps with
  | zero => exact .error rfl rfl hm
  | succ steps =>
    let opened := m.store.openFrame .call g.closure []
    let body : Call := ⟨steps, .stmts g.declaration.body,
      (Mode.within opened.1).enter { m with store := opened.2 }⟩
    have hopen : (Exec.updateStore (·.openFrame .call g.closure [])).Local := .updateStore _
    have hready : (siteLaw b).ready (⟨steps + 1, .getter g, m⟩ :: trail) body :=
      (siteLaw_sound b).ready_of_makes hr ⟨rfl, _, _, rfl, .inl ⟨rfl, rfl⟩⟩
    have hanchors : opened.2.Anchors opened.1 i :=
      ⟨_, g.closure, m.store.frames_openFrame .call g.closure [], rfl,
        (Store.fixes_openFrame .call g.closure []).slot?_of_some hi (.inl rfl)⟩
    rw [Task.perform_succ]
    refine .bind (.of_local hopen hm.alike (hm.withStore _)) ?_
    rintro frame between between' ⟨⟩ hbetween
    have hspares : body.machine.Spares opened.1 i ((Mode.within opened.1).enter between') :=
      ⟨hbetween.enter (.within opened.1), by simp [body, Mode.enter, Machine.roots], hanchors⟩
    refine .bind (.wrap (Task.spares hready hspares) fun _ _ h =>
      hbetween.leave _ h.toSameBut) fun completion after after' _ hafter => ?_
    rw [Plan.perform_only]
    exact .of_local (resultOf_local _ _) hafter.alike (hafter.withStore _)

/-- Holding an instance makes no difference to what does the same with and without it. -/
lemma holding_of_sameBut {α : Type} {x : Exec α} (hx : x.Advances)
    (h : x.Matches (Machine.SameBut i) m ((Mode.holding (.instanceRef i)).enter m)) :
    Exec.holding (.instanceRef i) x m = x m := by
  have hleave : ∀ after after' : Machine, m.Advances after → after.SameBut i after' →
      (Mode.holding (.instanceRef i)).leave m after' = after := by
    intro after after' ha hs
    rw [hs.eq]
    simp only [Mode.leave, ← ha.scope_eq, ← ha.held_eq]
  have hend := hx m
  have hwrap := (Mode.holding (.instanceRef i)).wrap_apply x m
  unfold Exec.after at hend
  cases ho : x m with
  | ok a after =>
    obtain ⟨after', ho', hs⟩ := h.of_ok ho
    rw [ho] at hend
    rw [ho'] at hwrap
    exact hwrap.trans (congrArg _ (hleave _ _ hend hs))
  | error stop after =>
    obtain ⟨after', ho', hs⟩ := h.of_error ho
    rw [ho] at hend
    rw [ho'] at hwrap
    exact hwrap.trans (congrArg _ (hleave _ _ hend hs))

/-- A bound getter does the same, whether its receiver is held besides or not. -/
theorem holding_runGetter {b : Background} {trail : List Call} {steps : Nat} {g : Getter}
    (hr : (siteLaw b).ready trail ⟨steps, .getter g, m⟩)
    (hi : m.store.slot? g.closure "this" = some (some (.instanceRef i))) :
    Exec.holding (.instanceRef i) (runGetter steps g) m = runGetter steps g m := by
  refine holding_of_sameBut (Task.perform_advances steps (.getter g)) (runGetter_sameBut hr hi ?_)
  exact ⟨rfl, by simp [Mode.enter, Value.references]⟩

end Eval

end Scripting
