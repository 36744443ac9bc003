import Scripting.Proofs.Eval.Belonging

/-!
# What `this` and `super` find

The calls that a call of a member owns run in frames inside of the frame that holds its receiver,
with only blocks and calls in between. Hence a `this` in them finds this receiver, and a `super` the
class that the class of the member was declared with.
-/

namespace Scripting

open Resolution

/-- What is known of the calls that were made so far, and of the store at which they have
arrived. -/
structure Eval.History (visited : Eval.Call → Prop) (s : Store) : Prop where
  makes : ∀ c c', visited c → c.Makes c' → visited c'
  ready : ∀ c, visited c → ∃ b trail, (siteLaw b).ready trail c
  rooted : ∀ c, visited c → c.Rooted visited
  fixes_start : ∀ c, visited c → c.machine.store.Fixes s
  fixes_end : ∀ c, visited c → c.after.store.Fixes s
  kept : Kept visited s

namespace Store

/-- Code that runs in a frame is written inside of other code, and the frame is inside of the one of
that, with a frame for every scope in between. -/
def Encloses (s : Store) (x : Place) (f : FrameId) (y : Place) (g : FrameId) : Prop :=
  ∃ ks inner, x.Holds ks y ∧ LocalKinds ks ∧ s.chain g = inner ++ s.chain f ∧
    inner.map s.kind? = ks.map some

namespace Encloses

variable {s : Store} {x y z : Place} {f g h : FrameId}

lemma of_holds (hh : x.Holds [] y) : s.Encloses x f y f :=
  ⟨[], [], hh, .nil, rfl, rfl⟩

lemma trans (hxy : s.Encloses x f y g) (hyz : s.Encloses y g z h) : s.Encloses x f z h := by
  obtain ⟨ks, inner, hh, hl, hc, hk⟩ := hxy
  obtain ⟨ks', inner', hh', hl', hc', hk'⟩ := hyz
  refine ⟨ks' ++ ks, inner' ++ inner, hh.trans hh', hl'.append hl, ?_, ?_⟩
  · rw [hc', hc, List.append_assoc]
  · rw [List.map_append, List.map_append, hk, hk']

/-- A frame that was opened directly inside. -/
lemma of_frame {s₀ : Store} {kind : FrameKind} {vars : Record (Option Value)}
    (hg : s₀.Grows s) (hh : x.Holds [kind] y) (hk : kind = .block ∨ kind = .call)
    (hf : s₀.frames[g]? = some ⟨kind, s.chain f, vars⟩) : s.Encloses x f y g := by
  obtain ⟨frame, hframe, hgrown⟩ := hg.frame g _ hf
  refine ⟨[kind], [g], hh, by simpa [LocalKinds] using hk, ?_, ?_⟩
  · rw [chain, hframe, Option.map_some, Option.getD_some, hgrown.outer_eq]
    rfl
  · simp [kind?, hframe, hgrown.kind_eq]

end Encloses

end Store

namespace Eval

/-! ### Owned calls -/

/-- A function or a getter that a call makes is closed over its scope. -/
lemma Call.Creates.exists_callable {u : Call} {id : CallableId} (h : u.Creates id) :
    ∃ k d x, u.after.store.callables[id]? = some k ∧ k.code? = some (d, u.machine.scope) ∧
      u.task.place? = some x ∧ x.Holds [] d := by
  obtain ⟨steps, t, m⟩ := u
  obtain ⟨hs, rfl, h⟩ := h
  obtain ⟨steps, rfl⟩ := Nat.exists_eq_succ_of_ne_zero hs
  rcases h with ⟨d, rfl⟩ | ⟨d, rfl⟩ | ⟨d, rfl⟩
  · exact ⟨.function ⟨d, m.scope, false⟩, _, _, Array.getElem?_push_size, rfl, rfl,
      holds_part List.mem_cons_self⟩
  · exact ⟨.function ⟨d, m.scope, false⟩, _, _, Array.getElem?_push_size, rfl, rfl,
      holds_part List.mem_cons_self⟩
  · exact ⟨.getter ⟨d, m.scope⟩, _, _, Array.getElem?_push_size, rfl, rfl,
      holds_part List.mem_cons_self⟩

/-- Code is run as a part of other code, in the same frame or in a block, or as the body of a
declaration. -/
lemma Leads.of_place {c c' : Call} {x' : Place} (h : Leads c c')
    (hx' : c'.task.place? = some x') :
    (∃ x, c.task.place? = some x ∧ x.Holds [] x' ∧ c'.machine.scope = c.machine.scope) ∨
    (∃ x, c.task.place? = some x ∧ x.Holds [.block] x' ∧
      c'.machine.store.frames[c'.machine.scope]? =
        some ⟨.block, c.machine.store.chain c.machine.scope, []⟩) ∨
    ∃ d f vars, c.task.code? = some (d, f) ∧ d.Holds [.call] x' ∧
      c'.machine.store.frames[c'.machine.scope]? =
        some ⟨.call, c.machine.store.chain f, vars⟩ := by
  obtain ⟨hcode, hcallable⟩ := Task.code?_eq_none_of_place? hx'
  cases h with
  | part hx hy hh _ hscope =>
    obtain rfl := Option.some.inj (hx'.symm.trans hy)
    exact .inl ⟨_, hx, hh, hscope⟩
  | block hx hy hh _ hframe =>
    obtain rfl := Option.some.inj (hx'.symm.trans hy)
    exact .inr (.inl ⟨_, hx, hh, hframe⟩)
  | body hd hy hh _ hframe =>
    obtain rfl := Option.some.inj (hx'.symm.trans hy)
    exact .inr (.inr ⟨_, _, _, hd, hh, hframe⟩)
  | value hy => simp [hx'] at hy
  | callable _ he _ => exact absurd he (hcallable _ _)
  | run _ _ ht _ => simp [hcode] at ht
  | getter _ he _ => simp [he, Task.code?] at hcode
  | initializer hd _ => simp [hcode] at hd

namespace History

variable {visited : Call → Prop} {s : Store} (h : History visited s)

include h

lemma leads {c c' : Call} (hc : visited c) (hm : c.Makes c') : Leads c c' := by
  obtain ⟨b, trail, hr⟩ := h.ready c hc
  exact (Call.does hr).of_makes hm

/-- The frame that code runs in is there. -/
lemma chain_scope {c : Call} {x : Place} (hc : visited c) (hx : c.task.place? = some x) :
    s.chain c.machine.scope = c.machine.store.chain c.machine.scope := by
  obtain ⟨b, trail, -, hr⟩ := h.ready c hc
  have hframe : ∃ frame, c.machine.store.frames[c.machine.scope]? = some frame := by
    cases ht : c.task with
    | expr e =>
      rw [ht] at hr
      obtain ⟨_, _, _, _, _, _, ha, _⟩ := hr
      exact ha.exists_frame
    | exprs es =>
      rw [ht] at hr
      exact Store.Stands.exists_frame hr
    | stmt s =>
      rw [ht] at hr
      exact Store.Stands.exists_frame hr
    | loop condition body =>
      rw [ht] at hr
      exact hr.1.exists_frame
    | stmts ss =>
      rw [ht] at hr
      exact Store.Stands.exists_frame hr
    | _ =>
      rw [ht] at hx
      cases hx
  obtain ⟨frame, hf⟩ := hframe
  exact (h.fixes_start c hc).chain_eq hf

/-- The frame that a declaration is closed over is there. -/
lemma chain_closure {c : Call} {d : Place} {f : FrameId} (hc : visited c)
    (hd : c.task.code? = some (d, f)) : s.chain f = c.machine.store.chain f := by
  obtain ⟨b, trail, -, hr⟩ := h.ready c hc
  have hframe : ∃ frame, c.machine.store.frames[f]? = some frame := by
    cases ht : c.task with
    | function function arguments =>
      rw [ht] at hr hd
      cases hd
      exact hr.1.1.exists_frame
    | getter g =>
      rw [ht] at hr hd
      cases hd
      exact Store.Stands.exists_frame hr
    | _ =>
      rw [ht] at hd
      cases hd
  obtain ⟨frame, hf⟩ := hframe
  exact (h.fixes_start c hc).chain_eq hf

/-- The calls that a call makes for parts of its code run inside of its frame. -/
lemma encloses_part {c c' : Call} {x x' : Place} (hc : visited c) (hm : c.Makes c')
    (hx : c.task.place? = some x) (hx' : c'.task.place? = some x') :
    s.Encloses x c.machine.scope x' c'.machine.scope := by
  have hgrows := (h.fixes_start c' (h.makes c c' hc hm)).toGrows
  rcases (h.leads hc hm).of_place hx' with ⟨y, hy, hh, hscope⟩ | ⟨y, hy, hh, hframe⟩ |
    ⟨d, f, vars, hd, -⟩
  · obtain rfl := Option.some.inj (hx.symm.trans hy)
    rw [hscope]
    exact .of_holds hh
  · obtain rfl := Option.some.inj (hx.symm.trans hy)
    rw [← h.chain_scope hc hx] at hframe
    exact .of_frame hgrows hh (.inl rfl) hframe
  · rw [(Task.code?_eq_none_of_place? hx).1] at hd
    cases hd

/-- The body of a declaration runs inside of the frame that this is closed over. -/
lemma encloses_body {c c' : Call} {d x' : Place} {f : FrameId} (hc : visited c) (hm : c.Makes c')
    (hd : c.task.code? = some (d, f)) (hx' : c'.task.place? = some x') :
    s.Encloses d f x' c'.machine.scope := by
  have hgrows := (h.fixes_start c' (h.makes c c' hc hm)).toGrows
  have hplace := (Task.place?_eq_none_of_code? hd).1
  rcases (h.leads hc hm).of_place hx' with ⟨y, hy, -⟩ | ⟨y, hy, -⟩ |
    ⟨d', f', vars, hd', hh, hframe⟩
  · rw [hplace] at hy
    cases hy
  · rw [hplace] at hy
    cases hy
  · obtain ⟨rfl, rfl⟩ := Prod.mk.inj (Option.some.inj (hd.symm.trans hd'))
    rw [← h.chain_closure hc hd] at hframe
    exact .of_frame hgrows hh (.inr rfl) hframe

/-- Everything that a call owns runs inside of the frame that its declaration is closed over. -/
theorem encloses_of_owns {v c : Call} {d : Place} {f : FrameId} (hv : visited v)
    (hd : v.task.code? = some (d, f)) (ho : v.Owns visited c) :
    ∃ x, c.task.place? = some x ∧ s.Encloses d f x c.machine.scope := by
  induction ho with
  | body hm hx => exact ⟨_, hx, h.encloses_body hv hm hd hx⟩
  | part hu hm hx ih =>
    obtain ⟨y, hy, hin⟩ := ih
    exact ⟨_, hx, hin.trans (h.encloses_part (hu.mem h.makes hv) hm hy hx)⟩
  | @closure u t w id x hu hcreates ht hruns hm hx ih =>
    obtain ⟨y, hy, hin⟩ := ih
    obtain ⟨k, d', y', hk, hcode, hy', hh⟩ := hcreates.exists_callable
    obtain ⟨k', code, hk', hcode', ht'⟩ := hruns
    obtain rfl := Option.some.inj (hy.symm.trans hy')
    -- the callable is the same at both times
    have hnow := (h.fixes_end u (hu.mem h.makes hv)).callable id k hk
    have hnow' := (h.fixes_start t ht).callable id k' hk'
    obtain rfl := Option.some.inj (hnow.symm.trans hnow')
    obtain rfl := Option.some.inj (hcode.symm.trans hcode')
    exact ⟨_, hx, hin.trans ((Store.Encloses.of_holds hh).trans (h.encloses_body ht hm ht' hx))⟩

end History

/-! ### Receivers -/

/-- A call runs a member of a class, which is bound to an instance by a frame. -/
structure Call.BoundTo (v : Call) (k : ClassId) (d : Place) (f : FrameId) (i : InstanceId) :
    Prop where
  code?_eq : v.task.code? = some (d, f)
  binds : v.machine.store.Binds k d f
  slot?_eq : v.machine.store.slot? f "this" = some (some (.instanceRef i))

/-- The innermost receiver around code that is written inside of a bound member is that of the
member. -/
lemma findIdx?_receiver_of_encloses {s : Store} {x y : Place} {f g : FrameId}
    {ks : List FrameKind} (hin : s.Encloses x f y g) (hf : s.kind? f = some .receiver)
    (hks : (s.chain g).map s.kind? = (ks ++ [FrameKind.globals]).map some) :
    ∃ distance, ks.findIdx? (· = .receiver) = some distance ∧
      ∀ n, (s.chain g)[distance + n]? = (s.chain f)[n]? := by
  obtain ⟨ks', inner, -, hlocal, hchain, hinner⟩ := hin
  have hlength : inner.length = ks'.length := by
    simpa using congrArg List.length hinner
  have hall : (ks ++ [FrameKind.globals]).findIdx? (· = .receiver) = some inner.length := by
    rw [hchain, List.map_append, hinner, Store.chain, List.map_cons, hf] at hks
    obtain ⟨first, rest, he, hfirst, hrest⟩ := List.map_eq_append_iff.mp hks.symm
    obtain ⟨kind, rest, rfl, hkind, -⟩ := List.map_eq_cons_iff.mp hrest
    obtain rfl := Option.some.inj hkind
    obtain rfl : first = ks' := List.map_injective_iff.mpr (fun _ _ => Option.some.inj) hfirst
    rw [he, hlocal.findIdx?_append (by decide) (by decide), hlength]
    simp [List.findIdx?_cons]
  refine ⟨inner.length, ?_, fun n => ?_⟩
  · rw [List.findIdx?_append] at hall
    simpa [List.findIdx?_cons] using hall
  · rw [hchain, List.getElem?_append_right (Nat.le_add_right _ _), Nat.add_sub_cancel_left]

/-- The frame at the distance of a kind is of that kind. -/
lemma kind?_of_findIdx? {s : Store} {fs : List FrameId} {ks : List FrameKind} {kind : FrameKind}
    {distance : Nat} {f : FrameId} (hks : fs.map s.kind? = (ks ++ [FrameKind.globals]).map some)
    (hd : ks.findIdx? (· = kind) = some distance) (hf : fs[distance]? = some f) :
    s.kind? f = some kind := by
  obtain ⟨hlt, hk, -⟩ := List.findIdx?_eq_some_iff_getElem.mp hd
  have hat : ks[distance]? = some kind := by
    rw [List.getElem?_eq_getElem hlt]
    simpa using hk
  have hmap := congrArg (·[distance]?) hks
  simp only [List.getElem?_map, hf, List.getElem?_append_left hlt, hat, Option.map_some] at hmap
  exact Option.some.inj hmap

namespace History

variable {visited : Call → Prop} {s : Store} (h : History visited s)

include h

/-- Where an expression that is evaluated is written, and what the frames around it are for. -/
lemma exists_located {c : Call} {e : Expr} (hc : visited c) (ht : c.task = .expr e) :
    ∃ p ks r, Program.Accepted c.machine.distances p ∧ Located p ks r (.expr e) ∧
      s.chain c.machine.scope = c.machine.store.chain c.machine.scope ∧
      (s.chain c.machine.scope).map c.machine.store.kind? =
        (ks ++ [FrameKind.globals]).map some ∧
      (s.chain c.machine.scope).map s.kind? = (ks ++ [FrameKind.globals]).map some := by
  have hchain := h.chain_scope (x := .expr e) hc (by rw [ht]; rfl)
  obtain ⟨b, trail, hm, hr⟩ := h.ready c hc
  rw [ht] at hr
  obtain ⟨p, hp, ks, r, scopes, hl, ha, -⟩ := hr
  have hacc := b.accepted p hp
  rw [← hm.distances_eq] at hacc
  rw [← hchain] at ha
  have hlater : s.Aligned (b.Pending trail) _ ks scopes :=
    ha.mono (h.fixes_start c hc).toGrows fun _ _ hp => .inr hp
  exact ⟨p, ks, r, hacc, hl, hchain, ha.map_kind?, hlater.map_kind?⟩

/-- Code that needs a receiver is owned by a call of a bound member. -/
lemma exists_runsMember {c : Call} {e : Expr} {ks : List FrameKind} {distance : Nat}
    (hc : visited c) (ht : c.task = .expr e)
    (hks : (s.chain c.machine.scope).map s.kind? = (ks ++ [FrameKind.globals]).map some)
    (hd : ks.findIdx? (· = .receiver) = some distance) :
    ∃ v, visited v ∧ v.RunsMember ∧ v.Owns visited c := by
  rcases (h.rooted c hc).place (.expr e) (by rw [ht]; rfl) with hfree | howned
  · -- one of the frames around it is for a receiver
    exfalso
    have hmem : some FrameKind.receiver ∈ (s.chain c.machine.scope).map s.kind? := by
      obtain ⟨hlt, hk, -⟩ := List.findIdx?_eq_some_iff_getElem.mp hd
      have he : ks[distance] = .receiver := by simpa using hk
      rw [hks]
      exact List.mem_map_of_mem (List.mem_append_left _ (he ▸ List.getElem_mem hlt))
    obtain ⟨g, hg, hkind⟩ := List.mem_map.mp hmem
    obtain ⟨frame, hf, hne⟩ := (hfree.mono (h.fixes_start c hc).toGrows) g hg
    rw [Store.kind?, hf] at hkind
    exact hne (Option.some.inj hkind)
  · exact howned

/-- Code that needs a receiver is owned by a call of a bound member that it is written in. -/
lemma exists_boundTo {c : Call} {e : Expr} (hc : visited c) (ht : c.task = .expr e)
    (he : ∀ p ks r, Program.Accepted c.machine.distances p → Located p ks r (.expr e) →
      ∃ distance, ks.findIdx? (· = .receiver) = some distance) :
    ∃ v k d f i, visited v ∧ v.BoundTo k d f i ∧ v.Owns visited c ∧ d.HoldsLocally (.expr e) := by
  obtain ⟨p, ks, r, hacc, hl, -, -, hnow⟩ := h.exists_located hc ht
  obtain ⟨distance, hdistance⟩ := he p ks r hacc hl
  obtain ⟨v, hv, ⟨k, d, f, hd, hb⟩, ho⟩ := h.exists_runsMember hc ht hnow hdistance
  have hfixes := h.fixes_start v hv
  obtain ⟨i, hi⟩ := h.kept.marked.slot?_receiver (hfixes.kind?_eq_some hb.kind?_eq)
  obtain ⟨x, hx, ks', -, hh, hlocal, -⟩ := h.encloses_of_owns hv hd ho
  rw [ht] at hx
  obtain rfl := Option.some.inj hx
  exact ⟨v, k, d, f, i, hv,
    ⟨hd, hb, (hfixes.slot?_of_kind? hb.kind?_eq (.inl rfl)).symm.trans hi⟩, ho, ks', hh, hlocal⟩

/-- The innermost receiver around an expression that a call owns is the one in the frame that is
called. -/
lemma exists_receiver_of_owns {v c : Call} {d : Place} {f : FrameId} {i : InstanceId} {e : Expr}
    (hv : visited v) (hd : v.task.code? = some (d, f))
    (hi : v.machine.store.slot? f "this" = some (some (.instanceRef i)))
    (ho : v.Owns visited c) (ht : c.task = .expr e) :
    ∃ p ks r distance, Program.Accepted c.machine.distances p ∧ Located p ks r (.expr e) ∧
      (c.machine.store.chain c.machine.scope).map c.machine.store.kind? =
        (ks ++ [FrameKind.globals]).map some ∧
      ks.findIdx? (· = .receiver) = some distance ∧
      (∀ n, (c.machine.store.chain c.machine.scope)[distance + n]? = (s.chain f)[n]?) ∧
      c.machine.store.slot? f "this" = some (some (.instanceRef i)) := by
  have hc := ho.mem h.makes hv
  obtain ⟨x, -, hin⟩ := h.encloses_of_owns hv hd ho
  obtain ⟨p, ks, r, hacc, hl, hchain, hthen, hnow⟩ := h.exists_located hc ht
  have hend := (h.fixes_start v hv).slot?_of_some hi (.inl rfl)
  obtain ⟨distance, hdistance, hframes⟩ :=
    findIdx?_receiver_of_encloses hin (h.kept.marked.of_this hend).1 hnow
  rw [hchain] at hthen hframes
  have hkind := kind?_of_findIdx? hthen hdistance (hframes 0)
  exact ⟨p, ks, r, distance, hacc, hl, hthen, hdistance, hframes,
    ((h.fixes_start c hc).slot?_of_kind? hkind (.inl rfl)).symm.trans hend⟩

/-- A `this` that a call owns finds the receiver in the frame that is called. -/
theorem evaluate_this {v c : Call} {d : Place} {f : FrameId} {i : InstanceId} {id : NodeId}
    {keyword : Token} (hv : visited v) (hd : v.task.code? = some (d, f))
    (hi : v.machine.store.slot? f "this" = some (some (.instanceRef i)))
    (ho : v.Owns visited c) (ht : c.task = .expr (.this id keyword)) (hs : c.steps ≠ 0) :
    evaluate c.steps (.this id keyword) c.machine = .ok (.instanceRef i) c.machine := by
  obtain ⟨p, ks, r, distance, hacc, hl, -, hdistance, hframes, hthis⟩ :=
    h.exists_receiver_of_owns hv hd hi ho ht
  obtain ⟨distance', hget, hdistance'⟩ := hl.get?_this hacc
  obtain rfl := Option.some.inj (hdistance.symm.trans hdistance')
  have hkey : keyword.lexeme = "this" := (hl.site hacc).wellFormed
  obtain ⟨steps, hsteps⟩ := Nat.exists_eq_succ_of_ne_zero hs
  rw [hsteps]
  change readVariable id keyword c.machine = _
  rw [readVariable_apply, hkey, variableValue_of_distance hget (hframes 0), hthis]
  rfl

/-- A `super` that a call of a bound member of a class owns finds the class that this was declared
with, and binds a method of it to the receiver of the member. -/
theorem evaluate_super {v c : Call} {k : ClassId} {d : Place} {f : FrameId} {i : InstanceId}
    {id : NodeId} {keyword method : Token} (hv : visited v) (hb : v.BoundTo k d f i)
    (ho : v.Owns visited c) (ht : c.task = .expr (.super id keyword method)) (hs : c.steps ≠ 0) :
    ∃ superclass,
      (∃ x ancestors, visited x ∧ x.Derives k superclass ancestors ∧
        v.machine.store.lineage k = k :: ancestors) ∧
      (c.machine.store.findMethod? superclass method.lexeme = none →
        evaluate c.steps (.super id keyword method) c.machine =
          .error (.fault ⟨.undefinedProperty method.lexeme, method.line⟩) c.machine) ∧
      ∀ function, c.machine.store.findMethod? superclass method.lexeme = some function →
        evaluate c.steps (.super id keyword method) c.machine =
          let bound := c.machine.store.bindFunction function (.instanceRef i)
          .ok (bound.2.addFunction bound.1).1
            { c.machine with store := (bound.2.addFunction bound.1).2 } := by
  obtain ⟨p, ks, r, distance, hacc, hl, hkinds, hdistance, hframes, hslot⟩ :=
    h.exists_receiver_of_owns hv hb.code?_eq hb.slot?_eq ho ht
  obtain ⟨inner, -, -, -, -, -, -, hreceiver, hsuper, hget, -, -, -⟩ := hl.super_memberOf hacc
  obtain rfl := Option.some.inj (hdistance.symm.trans hreceiver)
  have hthis := Store.getAt_eq_ok.mpr ⟨_, hframes 0, hslot⟩
  -- one frame further out is what the member was closed over
  obtain ⟨cls, closure, frame, hcls, hhas, hframe, -, houter⟩ := hb.binds
  have hgrows := (h.fixes_start v hv).toGrows
  have hat : (c.machine.store.chain c.machine.scope)[inner.length + 1]? = some closure := by
    obtain ⟨frame', hframe', hgrown⟩ := hgrows.frame f frame hframe
    rw [hframes 1, Store.chain, hframe', Option.map_some, Option.getD_some, hgrown.outer_eq,
      List.getElem?_cons_succ, ← List.head?_eq_getElem?, houter]
  have hkind := kind?_of_findIdx? hkinds hsuper hat
  have hfixes := h.fixes_start c (ho.mem h.makes hv)
  obtain ⟨superclass, hclass, x, hx, hderives⟩ :=
    (h.kept.class_ k cls d closure (hgrows.class_ k cls hcls) hhas).resolve_left (by
      rintro ⟨other, ho, hk⟩
      have hend := hfixes.kind?_eq_some hkind
      rw [Store.kind?, ho] at hend
      exact hk (Option.some.inj hend))
  have hkey : keyword.lexeme = "super" := (hl.site hacc).wellFormed
  have hfound := Store.getAt_eq_ok.mpr
    ⟨_, hat, (hfixes.slot?_of_kind? hkind (.inr rfl)).symm.trans hclass⟩
  rw [← hkey] at hfound
  obtain ⟨steps, hsteps⟩ := Nat.exists_eq_succ_of_ne_zero hs
  rw [hsteps]
  refine ⟨superclass, ⟨x, _, hx, hderives, ?_⟩, readSuper_of_no_method hget hfound hthis,
    fun function hm => readSuper_of_method hget hfound hthis hm⟩
  rw [Store.lineage, hcls]
  rfl

end History

end Eval

end Scripting
