import Mathlib.Tactic.Common
import Scripting.Network

/-!
# Connections

The two ends of a connection stay the ends of each other, and only a closed end resets the other
one. So what is written at an end that is connected arrives at the other one, behind what arrived
before, and nothing else does. Reading takes a line off at one end, and everything else leaves what
arrived where it is.
-/

namespace Scripting

/-- An endpoint with the same peer. It may be closed now, reset if `resets`, and bytes that arrived
are changed as said. -/
structure Endpoint.Moves (moved : List UInt8 → List UInt8) (resets : Prop) (x x' : Endpoint) :
    Prop where
  peer_eq : x'.peer = x.peer
  arrived_eq : x'.arrived = moved x.arrived
  isClosed : x.isClosed → x'.isClosed
  isReset : x'.isReset → x.isReset ∨ resets

namespace Network

/-- An endpoint is closed. -/
def IsClosed (n : Network) (e : Nat) : Prop :=
  ∃ x, n.endpoints[e]? = some x ∧ x.isClosed

/-- Two endpoints are the ends of one connection, and neither of them is closed. -/
def Connects (n : Network) (a b : Nat) : Prop :=
  ∃ x y : Endpoint, n.endpoints[a]? = some x ∧ n.endpoints[b]? = some y ∧ x.peer = b ∧
    y.peer = a ∧ x.isClosed = false ∧ y.isClosed = false

instance (n : Network) (a b : Nat) : Decidable (n.Connects a b) :=
  decidable_of_iff ((n.endpoints[a]?).any fun x => (n.endpoints[b]?).any fun y =>
      x.peer == b && y.peer == a && !x.isClosed && !y.isClosed) <| by
    simp [Connects, Option.any_eq_true, and_assoc]

/-- The bytes that arrived at an endpoint and were not read yet. -/
def arrived (n : Network) (e : Nat) : List UInt8 :=
  ((n.endpoints[e]?).map Endpoint.arrived).getD []

/-- An endpoint waits to be accepted. -/
def Waits (n : Network) (e : Nat) : Prop :=
  ∃ (l : Nat) (listener : Listener), n.listeners[l]? = some listener ∧ e ∈ listener.waiting

/-- Endpoints come in pairs, and only a closed end resets the other one. -/
structure Sound (n : Network) : Prop where
  peer : ∀ (e : Nat) (x : Endpoint), n.endpoints[e]? = some x →
    ∃ y : Endpoint, n.endpoints[x.peer]? = some y ∧ y.peer = e
  reset : ∀ (e : Nat) (x : Endpoint), n.endpoints[e]? = some x → x.isReset → n.IsClosed x.peer
  waits : ∀ e, n.Waits e → e < n.endpoints.size

variable {n n' n'' : Network} {a b e : Nat} {x : Endpoint}

lemma arrived_of_getElem? (h : n.endpoints[e]? = some x) : n.arrived e = x.arrived := by
  rw [arrived, h]
  rfl

lemma arrived_of_size_le (h : n.endpoints.size ≤ e) : n.arrived e = [] := by
  rw [arrived, Array.getElem?_eq_none h]
  rfl

lemma Connects.lt_size (h : n.Connects a b) : a < n.endpoints.size ∧ b < n.endpoints.size := by
  obtain ⟨x, y, ha, hb, -⟩ := h
  exact ⟨(Array.getElem?_eq_some_iff.mp ha).1, (Array.getElem?_eq_some_iff.mp hb).1⟩

lemma Connects.symm (h : n.Connects a b) : n.Connects b a := by
  obtain ⟨x, y, ha, hb, hpeer, hpeer', hopen, hopen'⟩ := h
  exact ⟨y, x, hb, ha, hpeer', hpeer, hopen', hopen⟩

/-- The other end of a connection. -/
lemma Connects.of_getElem? (h : n.Connects a b) (hx : n.endpoints[a]? = some x) :
    x.peer = b ∧ ∃ y, n.endpoints[x.peer]? = some y ∧ y.isClosed = false := by
  obtain ⟨x', y, ha, hb, rfl, -, -, hopen⟩ := h
  obtain rfl := Option.some.inj (hx.symm.trans ha)
  exact ⟨rfl, y, hb, hopen⟩

/-- An end of a connection is not reset. -/
lemma Connects.isReset_eq_false (h : n.Connects a b) (hn : n.Sound)
    (hx : n.endpoints[a]? = some x) : x.isReset = false := by
  refine eq_false_of_ne_true fun hreset => ?_
  obtain ⟨-, y, hy, hopen⟩ := h.of_getElem? hx
  obtain ⟨y', hy', hclosed⟩ := hn.reset a x hx hreset
  obtain rfl := Option.some.inj (hy.symm.trans hy')
  exact Bool.noConfusion (hclosed.symm.trans hopen)

/-! ### What moves bytes -/

/-- The endpoints keep their peers, only the peers of closed ones are reset, and the bytes that
arrived are changed as said. -/
structure Moves (n n' : Network) (moved : Nat → List UInt8 → List UInt8) : Prop where
  size_eq : n'.endpoints.size = n.endpoints.size
  endpoint : ∀ (e : Nat) (x : Endpoint), n.endpoints[e]? = some x →
    ∃ x', n'.endpoints[e]? = some x' ∧ x.Moves (moved e) (n'.IsClosed x.peer) x'
  waits : ∀ e, n'.Waits e → n.Waits e

/-- All bytes that arrived stay where they are. -/
abbrev Settles (n n' : Network) : Prop :=
  n.Moves n' fun _ => id

namespace Moves

variable {moved moved' : Nat → List UInt8 → List UInt8}

lemma isClosed (h : n.Moves n' moved) (he : n.IsClosed e) : n'.IsClosed e := by
  obtain ⟨x, hx, hclosed⟩ := he
  obtain ⟨x', hx', hmoves⟩ := h.endpoint e x hx
  exact ⟨x', hx', hmoves.isClosed hclosed⟩

/-- Every endpoint was there before. -/
lemma exists_before (h : n.Moves n' moved) {x' : Endpoint} (hx' : n'.endpoints[e]? = some x') :
    ∃ x, n.endpoints[e]? = some x ∧ x.Moves (moved e) (n'.IsClosed x.peer) x' := by
  have hlt : e < n.endpoints.size := by
    rw [← h.size_eq]
    exact (Array.getElem?_eq_some_iff.mp hx').1
  obtain ⟨x'', hx'', hmoves⟩ := h.endpoint e _ (Array.getElem?_eq_getElem hlt)
  obtain rfl := Option.some.inj (hx'.symm.trans hx'')
  exact ⟨_, Array.getElem?_eq_getElem hlt, hmoves⟩

lemma refl (n : Network) : n.Settles n :=
  ⟨rfl, fun _ x hx => ⟨x, hx, rfl, rfl, id, .inl⟩, fun _ => id⟩

lemma trans (h : n.Moves n' moved) (h' : n'.Moves n'' moved') :
    n.Moves n'' fun e arrived => moved' e (moved e arrived) where
  size_eq := h'.size_eq.trans h.size_eq
  endpoint := by
    intro e x hx
    obtain ⟨x', hx', hmoves⟩ := h.endpoint e x hx
    obtain ⟨x'', hx'', hmoves'⟩ := h'.endpoint e x' hx'
    refine ⟨x'', hx'', hmoves'.peer_eq.trans hmoves.peer_eq, ?_,
      hmoves'.isClosed ∘ hmoves.isClosed, fun hreset => ?_⟩
    · rw [hmoves'.arrived_eq, hmoves.arrived_eq]
    · rcases hmoves'.isReset hreset with hreset | hclosed
      · exact (hmoves.isReset hreset).imp_right h'.isClosed
      · exact .inr (hmoves.peer_eq ▸ hclosed)
  waits := fun e he => h.waits e (h'.waits e he)

lemma sound (h : n.Moves n' moved) (hn : n.Sound) : n'.Sound where
  peer := by
    intro e x' hx'
    obtain ⟨x, hx, hmoves⟩ := h.exists_before hx'
    obtain ⟨y, hy, he⟩ := hn.peer e x hx
    obtain ⟨y', hy', hmoves'⟩ := h.endpoint _ y hy
    exact ⟨y', by rw [hmoves.peer_eq, hy'], hmoves'.peer_eq.trans he⟩
  reset := by
    intro e x' hx' hreset
    obtain ⟨x, hx, hmoves⟩ := h.exists_before hx'
    rw [hmoves.peer_eq]
    exact (hmoves.isReset hreset).elim (fun hr => h.isClosed (hn.reset e x hx hr)) id
  waits := fun e he => h.size_eq ▸ hn.waits e (h.waits e he)

/-- Ends that are connected were so before. -/
lemma connects (h : n.Moves n' moved) (hab : n'.Connects a b) : n.Connects a b := by
  obtain ⟨x', y', ha', hb', hpeer, hpeer', hopen, hopen'⟩ := hab
  obtain ⟨x, ha, hx⟩ := h.exists_before ha'
  obtain ⟨y, hb, hy⟩ := h.exists_before hb'
  refine ⟨x, y, ha, hb, hx.peer_eq ▸ hpeer, hy.peer_eq ▸ hpeer', ?_, ?_⟩
  · exact eq_false_of_ne_true fun hc => Bool.noConfusion (hopen.symm.trans (hx.isClosed hc))
  · exact eq_false_of_ne_true fun hc => Bool.noConfusion (hopen'.symm.trans (hy.isClosed hc))

lemma arrived (h : n.Moves n' moved) (he : e < n.endpoints.size) :
    n'.arrived e = moved e (n.arrived e) := by
  have hx := Array.getElem?_eq_getElem he
  obtain ⟨x', hx', hmoves⟩ := h.endpoint e _ hx
  rw [arrived_of_getElem? hx, arrived_of_getElem? hx', hmoves.arrived_eq]

/-- One endpoint is changed. -/
lemma modify {change : Endpoint → Endpoint} {moved : List UInt8 → List UInt8}
    (h : ∀ x, n.endpoints[e]? = some x → x.Moves moved (n.IsClosed x.peer) (change x)) :
    n.Moves { n with endpoints := n.endpoints.modify e change }
      fun e' => if e' = e then moved else id := by
  have hclosed : ∀ e', n.IsClosed e' →
      Network.IsClosed { n with endpoints := n.endpoints.modify e change } e' := by
    rintro e' ⟨x, hx, hclosed⟩
    refine ⟨if e = e' then change x else x, ?_, ?_⟩
    · rw [Array.getElem?_modify, hx]
      split_ifs <;> rfl
    · split_ifs with he
      · exact (h x (he ▸ hx)).isClosed hclosed
      · exact hclosed
  refine ⟨Array.size_modify, fun e' x hx => ?_, fun _ he => he⟩
  dsimp only
  rw [Array.getElem?_modify, hx]
  by_cases he : e = e'
  · subst he
    obtain ⟨hpeer, harrived, hkept, hreset⟩ := h x hx
    rw [if_pos rfl, if_pos rfl]
    exact ⟨_, rfl, hpeer, harrived, hkept, fun hr => (hreset hr).imp_right (hclosed _)⟩
  · rw [if_neg he, if_neg (Ne.symm he)]
    exact ⟨x, rfl, rfl, rfl, id, .inl⟩

end Moves

lemma Settles.arrived (h : n.Settles n') (e : Nat) : n'.arrived e = n.arrived e := by
  by_cases he : e < n.endpoints.size
  · exact Moves.arrived h he
  · have hle := Nat.le_of_not_lt he
    rw [arrived_of_size_le hle, arrived_of_size_le (h.size_eq ▸ hle)]

/-- One endpoint is changed, but not the bytes that arrived there. -/
lemma settles_modify {change : Endpoint → Endpoint}
    (h : ∀ x, n.endpoints[e]? = some x → x.Moves id (n.IsClosed x.peer) (change x)) :
    n.Settles { n with endpoints := n.endpoints.modify e change } := by
  have hmoves := Moves.modify h
  simp only [ite_self] at hmoves
  exact hmoves

/-- A change of the listeners by which no endpoint comes to wait. -/
lemma settles_listeners {listeners : Array Listener}
    (h : ∀ (l : Nat) (listener : Listener), listeners[l]? = some listener →
      ∀ e ∈ listener.waiting, n.Waits e) : n.Settles { n with listeners } where
  size_eq := rfl
  endpoint := (Moves.refl n).endpoint
  waits := fun e ⟨l, listener, hl, he⟩ => h l listener hl e he

lemma settles_modify_listener {l : Nat} {change : Listener → Listener}
    (h : ∀ listener : Listener, (change listener).waiting ⊆ listener.waiting) :
    n.Settles { n with listeners := n.listeners.modify l change } := by
  refine settles_listeners fun l' listener hl e he => ?_
  rw [Array.getElem?_modify] at hl
  split_ifs at hl
  · obtain ⟨old, hold, rfl⟩ := Option.map_eq_some_iff.mp hl
    exact ⟨l', old, hold, h old he⟩
  · exact ⟨l', listener, hl, he⟩

/-! ### What leaves all bytes where they are -/

/-- An endpoint is closed. If bytes are left there that were not taken over, its peer is reset. -/
lemma close_settles (hn : n.Sound) (e : Nat) : n.Settles (n.close e).2 := by
  unfold close
  split
  · exact .refl n
  · next near hnear =>
    have hclose : n.Settles
        { n with endpoints := n.endpoints.modify e fun e => { e with isClosed := true } } :=
      settles_modify fun _ _ => ⟨rfl, rfl, fun _ => rfl, .inl⟩
    dsimp only
    split_ifs
    · -- the peer of the peer is the endpoint that was closed
      refine hclose.trans (settles_modify fun y hy => ⟨rfl, rfl, id, fun _ => .inr ?_⟩)
      obtain ⟨y', hy', hpeer⟩ := hn.peer e near hnear
      obtain ⟨y'', hy'', hmoves⟩ := hclose.endpoint _ y' hy'
      obtain rfl := Option.some.inj (hy.symm.trans hy'')
      rw [hmoves.peer_eq, hpeer]
      exact ⟨_, by rw [Array.getElem?_modify, if_pos rfl, hnear, Option.map_some], rfl⟩
    · exact hclose

lemma closeListener_settles (hn : n.Sound) (l : Nat) : n.Settles (n.closeListener l) := by
  have hfold : ∀ (waiting : List Nat) (n : Network), n.Sound →
      n.Settles (waiting.foldl (fun n endpoint => (n.close endpoint).2) n) := by
    intro waiting
    induction waiting with
    | nil => exact fun n _ => .refl n
    | cons e rest ih =>
      intro n hn
      have hclose := close_settles hn e
      exact hclose.trans (ih _ (hclose.sound hn))
  exact (hfold _ n hn).trans (settles_modify_listener fun _ => List.nil_subset _)

lemma listen_settles {port l : Nat} (h : n.listen port = some (l, n')) : n.Settles n' := by
  unfold listen at h
  split_ifs at h
  cases h
  refine settles_listeners fun l listener hl e he => ?_
  rw [Array.getElem?_push] at hl
  split_ifs at hl
  · cases hl
    cases he
  · exact ⟨l, listener, hl, he⟩

/-- The endpoint that is accepted has waited. -/
lemma accept_settles {l : Nat} (h : n.accept l = some (e, n')) : n.Settles n' ∧ n.Waits e := by
  unfold accept at h
  split at h
  · next first rest hwaiting =>
    cases h
    obtain ⟨listener, hl, hwaiting⟩ := Option.map_eq_some_iff.mp hwaiting
    refine ⟨?_, l, listener, hl, by simp [hwaiting]⟩
    refine settles_listeners fun l' listener' hl' e' he' => ?_
    rw [Array.getElem?_modify] at hl'
    split_ifs at hl' with he
    · subst he
      rw [hl, Option.map_some, Option.some.injEq] at hl'
      subst hl'
      exact ⟨l, listener, hl, hwaiting ▸ List.mem_cons_of_mem _ he'⟩
    · exact ⟨l', listener', hl', he'⟩
  · cases h

/-! ### Writing -/

/-- Bytes that are written at an end arrive at the other one, and nowhere else. -/
def Carries (n n' : Network) (e : Nat) (bytes : List UInt8) : Prop :=
  ∃ moved, n.Moves n' moved ∧ ∀ a b, n'.Connects a b → ∀ arrived,
    moved b arrived = if a = e then arrived ++ bytes else arrived

namespace Carries

variable {bytes bytes' : List UInt8}

/-- Where no byte is written at an end that is connected, all of them stay where they are. -/
lemma of_settles (h : n.Settles n') (he : ∀ b, n'.Connects e b → bytes = []) :
    n.Carries n' e bytes := by
  refine ⟨_, h, fun a b hab arrived => ?_⟩
  split_ifs with ha
  · rw [he b (ha ▸ hab), List.append_nil]
    rfl
  · rfl

lemma trans (h : n.Carries n' e bytes) (h' : n'.Carries n'' e bytes') :
    n.Carries n'' e (bytes ++ bytes') := by
  obtain ⟨moved, hmoves, hmoved⟩ := h
  obtain ⟨moved', hmoves', hmoved'⟩ := h'
  refine ⟨_, hmoves.trans hmoves', fun a b hab arrived => ?_⟩
  rw [hmoved' a b hab, hmoved a b (hmoves'.connects hab)]
  split_ifs
  · exact List.append_assoc _ _ _
  · rfl

end Carries

/-- Bytes are refused only at an end that is not connected. -/
lemma write_spec (hn : n.Sound) (e : Nat) (bytes : List UInt8) :
    n.Carries (n.write e bytes).2 e bytes ∧
      ((n.write e bytes).1 = false → (n.write e bytes).2 = n ∧ ∀ b, ¬ n.Connects e b) := by
  have hrefused : (∀ b, ¬ n.Connects e b) →
      n.Carries n e bytes ∧ (false = false → n = n ∧ ∀ b, ¬ n.Connects e b) :=
    fun h => ⟨.of_settles (.refl n) fun b hb => absurd hb (h b), fun _ => ⟨rfl, h⟩⟩
  unfold write
  split
  · next hnear =>
    refine hrefused fun b ⟨x, _, hx, _⟩ => ?_
    cases hnear.symm.trans hx
  · next near hnear =>
    split_ifs with hbytes hreset
    · exact ⟨.of_settles (.refl n) fun _ _ => hbytes, fun h => by cases h⟩
    · exact hrefused fun b hb => Bool.noConfusion (hreset.symm.trans (hb.isReset_eq_false hn hnear))
    · obtain ⟨far, hfar, hpeer⟩ := hn.peer e near hnear
      simp only [hfar]
      split_ifs with hclosed
      · have hsettles : n.Settles
            { n with endpoints := n.endpoints.modify e fun e => { e with isReset := true } } := by
          refine settles_modify fun y hy => ?_
          obtain rfl := Option.some.inj (hy.symm.trans hnear)
          exact ⟨rfl, rfl, id, fun _ => .inr ⟨far, hfar, hclosed⟩⟩
        refine ⟨.of_settles hsettles fun b hb => ?_, fun h => by cases h⟩
        obtain ⟨-, y, hy, hopen⟩ := (hsettles.connects hb).of_getElem? hnear
        obtain rfl := Option.some.inj (hfar.symm.trans hy)
        exact Bool.noConfusion (hclosed.symm.trans hopen)
      · have hmoves : n.Moves { n with endpoints := n.endpoints.modify near.peer fun e =>
            { e with arrived := e.arrived ++ bytes } } fun b =>
              if b = near.peer then (· ++ bytes) else id :=
          .modify fun y _ => ⟨rfl, rfl, id, .inl⟩
        refine ⟨⟨_, hmoves, fun a b hab arrived => ?_⟩, fun h => by cases h⟩
        have hab := hmoves.connects hab
        by_cases ha : a = e
        · subst ha
          rw [if_pos rfl, if_pos (hab.of_getElem? hnear).1.symm]
        · -- the other end of what is written to is the endpoint
          have hb : b ≠ near.peer := by
            rintro rfl
            exact ha ((hab.symm.of_getElem? hfar).1.symm.trans hpeer)
          rw [if_neg ha, if_neg hb]
          rfl

lemma writeAll_carries (hn : n.Sound) (e : Nat) (pieces : List (List UInt8)) :
    n.Carries (n.writeAll e pieces).2 e pieces.flatten := by
  induction pieces generalizing n with
  | nil => exact .of_settles (.refl n) fun _ _ => rfl
  | cons piece rest ih =>
    obtain ⟨hcarries, hrefused⟩ := write_spec hn e piece
    unfold writeAll
    split
    · next n' hwrite =>
      rw [hwrite] at hcarries
      obtain ⟨moved, hmoves, -⟩ := id hcarries
      exact hcarries.trans (ih (hmoves.sound hn))
    · next n' hwrite =>
      rw [hwrite] at hrefused
      obtain ⟨rfl, hnot⟩ := hrefused rfl
      exact .of_settles (.refl _) fun b hb => absurd hb (hnot b)

/-! ### Reading -/

/-- What is left when a line is read is what is behind the line. -/
lemma readLine_snd (input : List UInt8) : (Scripting.readLine input).2 = (splitLine input).2 := by
  cases input with
  | nil => rfl
  | cons b rest =>
    simp only [Scripting.readLine]
    split <;> rfl

/-- Reading takes a line off at one endpoint. -/
lemma readLine_spec (n : Network) (e : Nat) :
    (n.readLine e).1 = (Scripting.readLine (n.arrived e)).1 ∧
      n.Moves (n.readLine e).2 fun b =>
        if b = e then fun arrived => (Scripting.readLine arrived).2 else id := by
  unfold readLine
  split
  · next hnone =>
    refine ⟨by rw [arrived, hnone]; rfl, rfl, fun e' x hx => ?_, fun _ he => he⟩
    rw [if_neg fun he => by cases hnone.symm.trans (he ▸ hx)]
    exact (Moves.refl n).endpoint e' x hx
  · next near hnear =>
    refine ⟨by rw [arrived_of_getElem? hnear], .modify fun y hy => ?_⟩
    obtain rfl := Option.some.inj (hy.symm.trans hnear)
    exact ⟨rfl, (readLine_snd _).symm, id, .inl⟩

/-! ### New connections -/

/-- An end of a new connection. -/
def newEnd (peer : Nat) : Endpoint :=
  ⟨peer, [], 0, false, false⟩

/-- Two endpoints are added that are the ends of a new connection. -/
structure Pairs (n n' : Network) : Prop where
  size_eq : n'.endpoints.size = n.endpoints.size + 2
  old : ∀ (e : Nat) (x : Endpoint), n.endpoints[e]? = some x → n'.endpoints[e]? = some x
  near : n'.endpoints[n.endpoints.size]? = some (newEnd (n.endpoints.size + 1))
  far : n'.endpoints[n.endpoints.size + 1]? = some (newEnd n.endpoints.size)
  waits : ∀ e, n'.Waits e → n.Waits e ∨ e = n.endpoints.size + 1

lemma connect_pairs {address : String} {port : Nat} (h : n.connect address port = .ok (e, n')) :
    n.Pairs n' ∧ e = n.endpoints.size := by
  unfold connect at h
  split_ifs at h
  split at h
  · cases h
  · next l _ =>
    cases h
    refine ⟨⟨by simp, fun e x hx => ?_, ?_, ?_, ?_⟩, rfl⟩
    · have hlt := (Array.getElem?_eq_some_iff.mp hx).1
      dsimp only
      rw [Array.getElem?_push_lt (by simp; omega), Array.getElem_push_lt hlt,
        ← Array.getElem?_eq_getElem hlt, hx]
    · dsimp only
      rw [Array.getElem?_push_lt (by simp), Array.getElem_push_eq]
      rfl
    · dsimp only
      rw [Array.getElem?_push, if_pos (by simp)]
      rfl
    · rintro e ⟨l', listener, hl', he⟩
      rw [Array.getElem?_modify] at hl'
      split_ifs at hl'
      · obtain ⟨old, hold, rfl⟩ := Option.map_eq_some_iff.mp hl'
        rcases List.mem_append.mp he with he | he
        · exact .inl ⟨l', old, hold, he⟩
        · exact .inr (List.mem_singleton.mp he)
      · exact .inl ⟨l', listener, hl', he⟩

namespace Pairs

/-- Every endpoint was there before or is one of the new ends. -/
lemma cases (h : n.Pairs n') (hx : n'.endpoints[e]? = some x) :
    n.endpoints[e]? = some x ∨
      e = n.endpoints.size ∧ x = newEnd (n.endpoints.size + 1) ∨
      e = n.endpoints.size + 1 ∧ x = newEnd n.endpoints.size := by
  have hlt : e < n.endpoints.size + 2 := by
    rw [← h.size_eq]
    exact (Array.getElem?_eq_some_iff.mp hx).1
  rcases Nat.lt_trichotomy e n.endpoints.size with he | rfl | he
  · have hold := Array.getElem?_eq_getElem he
    rw [h.old e _ hold] at hx
    exact .inl (hold.trans hx)
  · exact .inr (.inl ⟨rfl, Option.some.inj (hx.symm.trans h.near)⟩)
  · obtain rfl : e = n.endpoints.size + 1 := by omega
    exact .inr (.inr ⟨rfl, Option.some.inj (hx.symm.trans h.far)⟩)

lemma sound (h : n.Pairs n') (hn : n.Sound) : n'.Sound where
  peer := by
    intro e x hx
    obtain hx | ⟨rfl, rfl⟩ | ⟨rfl, rfl⟩ := h.cases hx
    · obtain ⟨y, hy, he⟩ := hn.peer e x hx
      exact ⟨y, h.old _ _ hy, he⟩
    · exact ⟨_, h.far, rfl⟩
    · exact ⟨_, h.near, rfl⟩
  reset := by
    intro e x hx hreset
    obtain hx | ⟨rfl, rfl⟩ | ⟨rfl, rfl⟩ := h.cases hx
    · obtain ⟨y, hy, hclosed⟩ := hn.reset e x hx hreset
      exact ⟨y, h.old _ _ hy, hclosed⟩
    · cases hreset
    · cases hreset
  waits := by
    intro e he
    rw [h.size_eq]
    obtain he | rfl := h.waits e he
    · have := hn.waits e he
      omega
    · omega

/-- A connection was there before, or it is the new one, where nothing has arrived yet. -/
lemma connects (h : n.Pairs n') (hn : n.Sound) (hab : n'.Connects a b) :
    n.Connects a b ∧ n'.arrived b = n.arrived b ∨
      n.endpoints.size ≤ a ∧ n.endpoints.size ≤ b ∧ n'.arrived b = [] := by
  obtain ⟨x, y, ha, hb, hpeer, hpeer', hopen, hopen'⟩ := hab
  obtain hy | ⟨rfl, rfl⟩ | ⟨rfl, rfl⟩ := h.cases hb
  · obtain ⟨x', hx', -⟩ := hn.peer b y hy
    rw [hpeer'] at hx'
    obtain rfl := Option.some.inj (ha.symm.trans (h.old a x' hx'))
    refine .inl ⟨⟨x, y, hx', hy, hpeer, hpeer', hopen, hopen'⟩, ?_⟩
    rw [arrived_of_getElem? hb, arrived_of_getElem? hy]
  · refine .inr ⟨?_, Nat.le_refl _, by rw [arrived_of_getElem? hb]; rfl⟩
    rw [← hpeer']
    exact Nat.le_succ _
  · refine .inr ⟨?_, Nat.le_succ _, by rw [arrived_of_getElem? hb]; rfl⟩
    rw [← hpeer']
    exact Nat.le_refl _

end Pairs

end Network

end Scripting
