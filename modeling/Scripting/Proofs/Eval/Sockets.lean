import Scripting.Proofs.Eval.Exchanges
import Scripting.Proofs.Network.Connections
import Scripting.Proofs.Store.Abandonment
import Scripting.Proofs.Text.Lines

/-!
# Sockets

What an exchange does to the connections. Sending writes the displayed text of a value and a line
feed, receiving reads a line, and nothing else touches the bytes that have arrived at an end that
stays connected. What becomes abandoned is closed on the way, but an instance that something is
asked of is not abandoned. An instance that has lost its socket never gets one again.
-/

namespace Scripting

namespace Store

variable {s : Store}

lemma handle?_setHandle_none (s : Store) (i j : InstanceId) :
    (s.setHandle j none).handle? i = if j = i then none else s.handle? i := by
  simp only [handle?, setHandle, Array.getElem?_modify]
  split_ifs
  · cases s.instances[i]? <;> rfl
  · rfl

lemma handle?_addInstance (s : Store) (c : ClassId) (handle : Option Handle) (i : InstanceId) :
    (s.addInstance ⟨c, [], handle⟩).2.handle? i =
      if i = s.instances.size then handle else s.handle? i := by
  simp only [handle?, addInstance, Array.getElem?_push]
  split_ifs <;> rfl

lemma display_setHandle (s : Store) (i : InstanceId) (handle : Option Handle) (value : Value) :
    (s.setHandle i handle).display value = s.display value := by
  cases value with
  | instanceRef j =>
    simp only [display, setHandle, Array.getElem?_modify, className]
    split_ifs
    · cases s.instances[j]? <;> rfl
    · rfl
  | _ => rfl

/-- What can be reached is not among what is abandoned. -/
lemma notMem_abandonedHandles {roots : List Reference} {i : InstanceId} {handle : Handle}
    (h : s.Reached roots (.instanceRef i)) : (i, handle) ∉ s.abandonedHandles roots := by
  intro hmem
  obtain ⟨j, -, hj⟩ := List.mem_filterMap.mp hmem
  split_ifs at hj with hzero
  obtain ⟨handle', -, he⟩ := Option.map_eq_some_iff.mp hj
  obtain ⟨rfl, -⟩ := Prod.mk.inj he
  exact liveCounts_ne_zero h hzero

end Store

namespace Machine

/-- The network is sound, and sockets stand for endpoints that are there. -/
structure Wired (m : Machine) : Prop where
  sound : m.network.Sound
  lt_size : ∀ i e, m.store.handle? i = some (.socket e) → e < m.network.endpoints.size

/-- An instance stands for nothing outside of the program, or for nothing any more. -/
def Unplugged (m : Machine) (i : InstanceId) : Prop :=
  i < m.store.instances.size ∧ m.store.handle? i = none

variable {m m' m'' : Machine}

namespace Rests

lemma wired (h : m.Rests m') (hm : m.Wired) : m'.Wired where
  sound := h.network_eq ▸ hm.sound
  lt_size := fun i e he => by
    rw [h.network_eq]
    exact hm.lt_size i e ((h.store.handle?_eq i).symm.trans he)

lemma unplugged (h : m.Rests m') {i : InstanceId} (hi : m.Unplugged i) : m'.Unplugged i :=
  ⟨Nat.lt_of_lt_of_le hi.1 h.store.size_le, (h.store.handle?_eq i).trans hi.2⟩

end Rests

/-! ### What moves no bytes -/

/-- All bytes that arrived stay where they are, and instances at most lose what they stand for. -/
structure Settles (m m' : Machine) : Prop where
  network : m.network.Settles m'.network
  handle? : ∀ i, m'.store.handle? i = m.store.handle? i ∨ m'.store.handle? i = none
  size_eq : m'.store.instances.size = m.store.instances.size
  display_eq : ∀ value, m'.store.display value = m.store.display value

namespace Settles

lemma refl (m : Machine) : m.Settles m :=
  ⟨.refl _, fun _ => .inl rfl, rfl, fun _ => rfl⟩

lemma trans (h : m.Settles m') (h' : m'.Settles m'') : m.Settles m'' where
  network := h.network.trans h'.network
  handle? := fun i => (h'.handle? i).elim (fun he => he ▸ h.handle? i) .inr
  size_eq := h'.size_eq.trans h.size_eq
  display_eq := fun value => (h'.display_eq value).trans (h.display_eq value)

lemma wired (h : m.Settles m') (hm : m.Wired) : m'.Wired where
  sound := h.network.sound hm.sound
  lt_size := by
    intro i e he
    rw [h.network.size_eq]
    rcases h.handle? i with hi | hi
    · exact hm.lt_size i e (hi.symm.trans he)
    · cases hi.symm.trans he

lemma unplugged (h : m.Settles m') {i : InstanceId} (hi : m.Unplugged i) : m'.Unplugged i :=
  ⟨h.size_eq ▸ hi.1, (h.handle? i).elim (·.trans hi.2) id⟩

end Settles

lemma settles_setHandle (m : Machine) (i : InstanceId) :
    m.Settles { m with store := m.store.setHandle i none } where
  network := .refl _
  handle? := by
    intro j
    simp only [Store.handle?_setHandle_none]
    split_ifs
    · exact .inr rfl
    · exact .inl rfl
  size_eq := by simp [Store.setHandle]
  display_eq := m.store.display_setHandle i none

lemma settles_release (hm : m.Wired) (i : InstanceId) (handle : Handle) :
    m.Settles (m.release i handle) :=
  { m.settles_setHandle i with
    network := by
      cases handle with
      | socket e => exact Network.close_settles hm.sound e
      | server l => exact Network.closeListener_settles hm.sound l }

/-- What is abandoned is closed, but nothing that is in use. -/
lemma settles_releaseAbandoned (hm : m.Wired) (values : List Value) :
    m.Settles (m.releaseAbandoned values) ∧ ∀ i, .instanceRef i ∈ values →
      (m.releaseAbandoned values).store.handle? i = m.store.handle? i := by
  have hfold : ∀ (abandoned : List (InstanceId × Handle)) (m : Machine), m.Wired →
      m.Settles (abandoned.foldl (fun m owned => m.release owned.1 owned.2) m) ∧
        ∀ i, (∀ handle, (i, handle) ∉ abandoned) →
          (abandoned.foldl (fun m owned => m.release owned.1 owned.2) m).store.handle? i =
            m.store.handle? i := by
    intro abandoned
    induction abandoned with
    | nil => exact fun m _ => ⟨.refl m, fun _ _ => rfl⟩
    | cons first rest ih =>
      intro m hm
      have hfirst := settles_release hm first.1 first.2
      obtain ⟨hrest, hkept⟩ := ih _ (hfirst.wired hm)
      refine ⟨hfirst.trans hrest, fun i hi => ?_⟩
      have hne : first.1 ≠ i := fun he => hi first.2 (he ▸ List.mem_cons_self)
      rw [List.foldl_cons, hkept i fun handle hmem => hi handle (List.mem_cons_of_mem _ hmem)]
      simp only [release, Store.handle?_setHandle_none, if_neg hne]
  obtain ⟨hsettles, hkept⟩ := hfold (m.store.abandonedHandles
    (values.flatMap Value.references ++ m.roots)) m hm
  refine ⟨hsettles, fun i hi => hkept i fun handle => Store.notMem_abandonedHandles (.root ?_)⟩
  exact List.mem_append_left _ (List.mem_flatMap.mpr ⟨_, hi, List.mem_cons_self⟩)

/-! ### Trading -/

/-- The bytes that arrived at an end that is connected are changed as said. A connection may be
new; then nothing has arrived at its ends, which were not there before. -/
structure Trades (moved : Nat → Nat → List UInt8 → List UInt8) (m m' : Machine) : Prop where
  wired : m'.Wired
  size_le : m.network.endpoints.size ≤ m'.network.endpoints.size
  connects : ∀ a b, m'.network.Connects a b →
    m.network.Connects a b ∧ m'.network.arrived b = moved a b (m.network.arrived b) ∨
      m.network.endpoints.size ≤ a ∧ m.network.endpoints.size ≤ b ∧ m'.network.arrived b = []
  unplugged : ∀ i, m.Unplugged i → m'.Unplugged i

variable {moved : Nat → Nat → List UInt8 → List UInt8}

lemma Settles.trades (h : m.Settles m') (hm : m.Wired) : m.Trades (fun _ _ => id) m' where
  wired := h.wired hm
  size_le := Nat.le_of_eq h.network.size_eq.symm
  connects := fun _ b hab => .inl ⟨h.network.connects hab, Network.Settles.arrived h.network b⟩
  unplugged := fun _ => h.unplugged

namespace Trades

lemma of_settles (h : m.Settles m') (h' : m'.Trades moved m'') : m.Trades moved m'' where
  wired := h'.wired
  size_le := h.network.size_eq ▸ h'.size_le
  connects := by
    intro _ b hab
    have hb := Network.Settles.arrived h.network b
    rw [← h.network.size_eq, ← hb]
    exact (h'.connects _ b hab).imp_left fun hold => ⟨h.network.connects hold.1, hold.2⟩
  unplugged := fun i hi => h'.unplugged i (h.unplugged hi)

lemma rests (h : m.Trades moved m') (h' : m'.Rests m'') : m.Trades moved m'' where
  wired := h'.wired h.wired
  size_le := h'.network_eq ▸ h.size_le
  connects := h'.network_eq ▸ h.connects
  unplugged := fun i hi => h'.unplugged (h.unplugged i hi)

/-- A new instance stands for an endpoint that is there, or for a server. -/
lemma addInstance (h : m.Trades moved m') (c : ClassId) {handle : Handle}
    (hlt : ∀ e, handle = .socket e → e < m'.network.endpoints.size) :
    m.Trades moved { m' with store := (m'.store.addInstance ⟨c, [], some handle⟩).2 } where
  wired := by
    refine ⟨h.wired.sound, fun i e he => ?_⟩
    rw [Store.handle?_addInstance] at he
    split_ifs at he
    · exact hlt e (Option.some.inj he)
    · exact h.wired.lt_size i e he
  size_le := h.size_le
  connects := h.connects
  unplugged := by
    intro i hi
    obtain ⟨hlt, hnone⟩ := h.unplugged i hi
    refine ⟨?_, ?_⟩
    · simp only [Store.addInstance, Array.size_push]
      exact Nat.lt_succ_of_lt hlt
    · rwa [Store.handle?_addInstance, if_neg (Nat.ne_of_lt hlt)]

/-- Another network, in which a new instance stands for an endpoint or for a server. -/
lemma opens {network : Network} (h : m.Trades moved { m' with network }) (c : ClassId)
    {handle : Handle} (hlt : ∀ e, handle = .socket e → e < network.endpoints.size) :
    m.Trades moved
      { m' with network, store := (m'.store.addInstance ⟨c, [], some handle⟩).2 } :=
  h.addInstance c hlt

end Trades

/-- Another network in which bytes have moved. -/
lemma trades_of_moves (hm : m.Wired) {network : Network} {bytes : Nat → List UInt8 → List UInt8}
    (h : m.network.Moves network bytes)
    (hmoved : ∀ a b, network.Connects a b → ∀ arrived, bytes b arrived = moved a b arrived) :
    m.Trades moved { m with network } where
  wired := ⟨h.sound hm.sound, fun i e he => h.size_eq ▸ hm.lt_size i e he⟩
  size_le := Nat.le_of_eq h.size_eq.symm
  connects := by
    intro a b hab
    have hold := h.connects hab
    exact .inl ⟨hold, (h.arrived hold.lt_size.2).trans (hmoved a b hab _)⟩
  unplugged := fun _ => id

/-- Another network in which all bytes have stayed where they are. -/
lemma trades_of_settles (hm : m.Wired) {network : Network} (h : m.network.Settles network) :
    m.Trades (fun _ _ => id) { m with network } :=
  trades_of_moves hm h fun _ _ _ _ => rfl

/-- Another network with a new connection. -/
lemma trades_of_pairs (hm : m.Wired) {network : Network} (h : m.network.Pairs network) :
    m.Trades (fun _ _ => id) { m with network } where
  wired := by
    refine ⟨h.sound hm.sound, fun i e he => ?_⟩
    have hlt := hm.lt_size i e he
    rw [h.size_eq]
    omega
  size_le := by
    rw [h.size_eq]
    omega
  connects := fun a b hab => h.connects hm.sound hab
  unplugged := fun _ => id

end Machine

/-! ### Actions -/

/-- An action gives a value and leads to a machine, up to what rests. -/
def Exec.LeadsTo {α : Type} (x : Exec α) (m : Machine) (a : α) (m' : Machine) : Prop :=
  ∃ after, x m = .ok a after ∧ m'.Rests after

namespace Exec.LeadsTo

variable {α β : Type} {x : Exec α} {next : α → Exec β} {m m' m'' : Machine} {a : α} {b : β}

lemma refuse (message : String) (m : Machine) : (Builtin.refuse message).LeadsTo m .nil m :=
  ⟨_, rfl, rfl, .refl _⟩

/-- Bytes are taken or refused; neither gives a value. -/
lemma ite_refuse (taken : Bool) (message : String) (m : Machine) :
    (if taken then pure .nil else Builtin.refuse message : Exec Value).LeadsTo m .nil m := by
  split
  · exact ⟨_, rfl, .refl m⟩
  · exact refuse message m

lemma of_ok (hx : x m = .ok a m') (h : (next a).LeadsTo m' b m'') :
    (x >>= next).LeadsTo m b m'' := by
  obtain ⟨after, ho, hrests⟩ := h
  exact ⟨after, (bind_of_ok hx).trans ho, hrests⟩

end Exec.LeadsTo

open Exec.LeadsTo

/-- What a script gets of a line that is read. -/
def LineRead.value : LineRead → Value
  | .text line => .text line
  | .ended => .nil
  | .undecodable => .nil

namespace HostMethod

variable {m : Machine} {i : InstanceId} {e : Nat} {handle : Option Handle}

lemma handle?_apply (h : m.store.handle? i = handle) : handle? i m = .ok handle m :=
  h ▸ rfl

/-! What the methods do with a socket. -/

lemma sendLine_leadsTo {value : Value}
    (h : (m.releaseAbandoned [.instanceRef i, value]).store.handle? i = some (.socket e)) :
    let released := m.releaseAbandoned [.instanceRef i, value]
    (sendLine i value).LeadsTo m .nil { released with
      network := (released.network.writeAll e
        [(released.store.display value).toUTF8.toList, [lineFeed]]).2 } :=
  of_ok rfl (of_ok rfl (of_ok (handle?_apply h) (of_ok rfl (ite_refuse _ _ _))))

lemma receiveLine_leadsTo (h : m.store.handle? i = some (.socket e)) :
    (receiveLine i).LeadsTo m (m.network.readLine e).1.value
      { m with network := (m.network.readLine e).2 } := by
  refine of_ok (handle?_apply h) (of_ok (a := (m.network.readLine e).1) rfl ?_)
  generalize (m.network.readLine e).1 = read
  cases read with
  | text line => exact ⟨_, rfl, .refl _⟩
  | _ => exact refuse _ _

lemma closeSocket_leadsTo (h : m.store.handle? i = some (.socket e)) :
    (closeSocket i).LeadsTo m .nil (m.release i (.socket e)) :=
  of_ok (handle?_apply h) (of_ok rfl (of_ok rfl (ite_refuse _ _ _)))

lemma acceptConnection_leadsTo {l : Nat} {network : Network}
    (h : m.store.handle? i = some (.server l)) (ha : m.network.accept l = some (e, network)) :
    (acceptConnection i).LeadsTo m (.instanceRef m.store.instances.size)
      { m with
        network
        store := (m.store.addInstance ⟨Machine.socketClass, [], some (.socket e)⟩).2 } := by
  refine of_ok (handle?_apply h) (of_ok (Exec.get_apply m) ?_)
  simp only [ha]
  exact of_ok rfl ⟨_, rfl, .refl _⟩

/-! What they do without one. -/

lemma sendLine_leadsTo_nil {value : Value} (h : ∀ e,
      (m.releaseAbandoned [.instanceRef i, value]).store.handle? i ≠ some (.socket e)) :
    (sendLine i value).LeadsTo m .nil (m.releaseAbandoned [.instanceRef i, value]) := by
  refine of_ok rfl (of_ok rfl (of_ok (handle?_apply rfl) ?_))
  split
  · next he => exact absurd he (h _)
  · exact refuse _ _

lemma receiveLine_leadsTo_nil (h : ∀ e, m.store.handle? i ≠ some (.socket e)) :
    (receiveLine i).LeadsTo m .nil m := by
  refine of_ok (handle?_apply rfl) ?_
  split
  · next he => exact absurd he (h _)
  · exact refuse _ _

lemma closeSocket_leadsTo_nil (h : ∀ e, m.store.handle? i ≠ some (.socket e)) :
    (closeSocket i).LeadsTo m .nil { m with store := m.store.setHandle i none } := by
  refine of_ok (handle?_apply rfl) (of_ok rfl ?_)
  split
  · next he => exact absurd he (h _)
  · exact ⟨_, rfl, .refl _⟩

lemma acceptConnection_leadsTo_nil (h : ∀ l e network,
      m.store.handle? i = some (.server l) → m.network.accept l ≠ some (e, network)) :
    (acceptConnection i).LeadsTo m .nil m := by
  refine of_ok (handle?_apply rfl) ?_
  split
  · next l hl =>
    refine of_ok (Exec.get_apply m) ?_
    split
    · next e network ha => exact absurd ha (h l e network hl)
    · exact refuse _ _
  · exact refuse _ _

end HostMethod

/-! ### What an exchange trades -/

/-- An action gives a value, and changes bytes that arrived as said. -/
def Exec.Trades (moved : Nat → Nat → List UInt8 → List UInt8) (x : Exec Value) (m : Machine) :
    Prop :=
  ∃ value after, x m = .ok value after ∧ m.Trades moved after

lemma Exec.LeadsTo.trades {moved : Nat → Nat → List UInt8 → List UInt8} {x : Exec Value}
    {m m' : Machine} {value : Value} (h : x.LeadsTo m value m') (ht : m.Trades moved m') :
    x.Trades moved m := by
  obtain ⟨after, ho, hrests⟩ := h
  exact ⟨value, after, ho, ht.rests hrests⟩

/-- Behind something that moves no bytes. -/
lemma Exec.Trades.of_ok {moved : Nat → Nat → List UInt8 → List UInt8} {α : Type} {x : Exec α}
    {next : α → Exec Value} {m m' : Machine} {a : α} (hx : x m = .ok a m') (hs : m.Settles m')
    (h : (next a).Trades moved m') : (x >>= next).Trades moved m := by
  obtain ⟨value, after, ho, ht⟩ := h
  exact ⟨value, after, (bind_of_ok hx).trans ho, ht.of_settles hs⟩

section

variable {m : Machine} (hm : m.Wired)

include hm

lemma Builtin.refuse_trades (message : String) :
    (Builtin.refuse message).Trades (fun _ _ => id) m :=
  (Exec.LeadsTo.refuse message m).trades ((Machine.Settles.refl m).trades hm)

namespace HostClass

omit hm in
lemma opened_leadsTo (c : ClassId) (handle : Handle) (network : Network) (message : String)
    (m : Machine) : (do
      modify ({ · with network })
      Exec.log .debug .native message
      instantiate c handle : Exec Value).LeadsTo m (.instanceRef m.store.instances.size)
        { m with network, store := (m.store.addInstance ⟨c, [], some handle⟩).2 } :=
  of_ok rfl (of_ok rfl ⟨_, rfl, rfl, .refl _⟩)

lemma connect_trades (c : ClassId) (address : String) (port : Nat) :
    (connect c address port).Trades (fun _ _ => id) m := by
  obtain ⟨hreleased, -⟩ := Machine.settles_releaseAbandoned hm []
  refine .of_ok rfl hreleased (.of_ok (Exec.get_apply _) (.refl _) ?_)
  have hwired := hreleased.wired hm
  dsimp only
  generalize m.releaseAbandoned [] = released at hwired
  cases hc : released.network.connect address port with
  | error failure => exact Builtin.refuse_trades hwired _
  | ok connected =>
    obtain ⟨e, network⟩ := connected
    obtain ⟨hpairs, rfl⟩ := Network.connect_pairs hc
    refine (opened_leadsTo c _ network _ released).trades
      ((Machine.trades_of_pairs hwired hpairs).opens c fun e he => ?_)
    cases he
    rw [hpairs.size_eq]
    omega

/-- Listening on a port, once nothing that was abandoned is in the way. -/
def listenNow (c : ClassId) (port : Nat) : Exec Value := do
  let m ← get
  (m.network.listen port).elim
    (Builtin.refuse ("ServerSocket: cannot listen on port " ++ toString port))
    fun listening => do
      modify ({ · with network := listening.2 })
      Exec.log .debug .native ("ServerSocket: listening on port " ++ toString port)
      instantiate c (.server listening.1)

lemma listenNow_trades (c : ClassId) (port : Nat) :
    (listenNow c port).Trades (fun _ _ => id) m := by
  refine .of_ok (Exec.get_apply _) (.refl _) ?_
  cases hl : m.network.listen port with
  | none => exact Builtin.refuse_trades hm _
  | some listening =>
    have hsettles := Machine.trades_of_settles hm (Network.listen_settles hl)
    exact (opened_leadsTo c _ listening.2 _ m).trades (hsettles.opens c fun e he => by cases he)

omit hm in
/-- What is abandoned is released only if the port is taken. -/
lemma listen_apply (c : ClassId) (port : Nat) (m : Machine) : listen c port m =
    listenNow c port (if m.network.isTaken port then m.releaseAbandoned [] else m) := by
  have hnow {next : Machine → Exec Value} (m : Machine) : (get >>= next) m = next m m :=
    Exec.bind_of_ok (Exec.get_apply m)
  rw [listen, listenNow, hnow, hnow]
  split
  · refine (Exec.bind_of_ok rfl).trans ((hnow (m.releaseAbandoned [])).trans ?_)
    cases (m.releaseAbandoned []).network.listen port with
    | none => rfl
    | some listening => rfl
  · refine (hnow m).trans ?_
    cases m.network.listen port with
    | none => rfl
    | some listening => rfl

lemma listen_trades (c : ClassId) (port : Nat) : (listen c port).Trades (fun _ _ => id) m := by
  rw [Exec.Trades, listen_apply]
  split
  · have hreleased := (Machine.settles_releaseAbandoned hm []).1
    obtain ⟨value, after, ho, htrades⟩ := listenNow_trades (hreleased.wired hm) c port
    exact ⟨value, after, ho, htrades.of_settles hreleased⟩
  · exact listenNow_trades hm c port

lemma construct_trades (host : HostClass) (c : ClassId) (arguments : List Value) :
    (host.construct c arguments).Trades (fun _ _ => id) m := by
  have refused : ∀ message : String, (do
      let shown := (← Exec.store).inspectList arguments
      Builtin.refuse (message ++ shown) : Exec Value).Trades (fun _ _ => id) m := by
    intro message
    have hleads := Exec.LeadsTo.refuse (message ++ m.store.inspectList arguments) m
    exact (of_ok (x := Exec.store) rfl hleads).trades ((Machine.Settles.refl m).trades hm)
  cases host with
  | socket =>
    unfold construct
    dsimp only
    split
    · split
      · exact connect_trades hm _ _ _
      · exact refused _
    · exact refused _
  | serverSocket =>
    unfold construct
    dsimp only
    split
    · exact listen_trades hm _ _
    · exact refused _

end HostClass

namespace HostMethod

/-- Sending moves the text of the value and a line feed to the other end. -/
lemma sendLine_trades (i : InstanceId) (value : Value) :
    (sendLine i value).Trades
      (fun a _ arrived => if m.store.handle? i = some (.socket a) then
        arrived ++ (bytesOf (m.store.display value).toList ++ [lineFeed]) else arrived) m := by
  obtain ⟨hreleased, hkept⟩ := Machine.settles_releaseAbandoned hm [.instanceRef i, value]
  have hhandle := hkept i List.mem_cons_self
  have hwired := hreleased.wired hm
  by_cases h : ∃ e, m.store.handle? i = some (.socket e)
  · obtain ⟨e, he⟩ := h
    refine (sendLine_leadsTo (hhandle.trans he)).trades (.of_settles hreleased ?_)
    obtain ⟨bytes, hmoves, hmoved⟩ := Network.writeAll_carries hwired.sound e
      [((m.releaseAbandoned [.instanceRef i, value]).store.display value).toUTF8.toList, [lineFeed]]
    refine Machine.trades_of_moves hwired hmoves fun a b hab arrived => ?_
    rw [hmoved a b hab, he, hreleased.display_eq, toUTF8_toList]
    simp [eq_comm]
  · have hnone : ∀ e, m.store.handle? i ≠ some (.socket e) := fun e he => h ⟨e, he⟩
    simp only [hnone, if_false]
    exact (sendLine_leadsTo_nil (hhandle ▸ hnone)).trades (hreleased.trades hm)

/-- Receiving takes a line off. -/
lemma receiveLine_trades (i : InstanceId) :
    (receiveLine i).Trades
      (fun _ b arrived => if m.store.handle? i = some (.socket b) then (readLine arrived).2
        else arrived) m := by
  by_cases h : ∃ e, m.store.handle? i = some (.socket e)
  · obtain ⟨e, he⟩ := h
    refine (receiveLine_leadsTo he).trades
      (Machine.trades_of_moves hm (m.network.readLine_spec e).2 fun a b hab arrived => ?_)
    by_cases hb : b = e
    · simp [he, hb]
    · simp [he, hb, Ne.symm hb]
  · have hnone : ∀ e, m.store.handle? i ≠ some (.socket e) := fun e he => h ⟨e, he⟩
    simp only [hnone, if_false]
    exact (receiveLine_leadsTo_nil hnone).trades ((Machine.Settles.refl m).trades hm)

lemma closeSocket_trades (i : InstanceId) : (closeSocket i).Trades (fun _ _ => id) m := by
  by_cases h : ∃ e, m.store.handle? i = some (.socket e)
  · obtain ⟨e, he⟩ := h
    exact (closeSocket_leadsTo he).trades ((Machine.settles_release hm i _).trades hm)
  · have hnone : ∀ e, m.store.handle? i ≠ some (.socket e) := fun e he => h ⟨e, he⟩
    exact (closeSocket_leadsTo_nil hnone).trades ((Machine.settles_setHandle m i).trades hm)

lemma acceptConnection_trades (i : InstanceId) :
    (acceptConnection i).Trades (fun _ _ => id) m := by
  by_cases h : ∃ l e network, m.store.handle? i = some (.server l) ∧
      m.network.accept l = some (e, network)
  · obtain ⟨l, e, network, hl, ha⟩ := h
    obtain ⟨hsettles, hwaits⟩ := Network.accept_settles ha
    refine (acceptConnection_leadsTo hl ha).trades
      ((Machine.trades_of_settles hm hsettles).opens _ fun e' he' => ?_)
    cases he'
    rw [hsettles.size_eq]
    exact hm.sound.waits e hwaits
  · refine (acceptConnection_leadsTo_nil fun l e network hl ha => ?_).trades
      ((Machine.Settles.refl m).trades hm)
    exact h ⟨l, e, network, hl, ha⟩

end HostMethod

end

end Scripting
