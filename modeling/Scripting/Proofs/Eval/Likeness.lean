import Scripting.Proofs.Eval.Advance
import Scripting.Proofs.Store.Likeness

/-!
# Machines that look alike

Built-in functions and host classes do not look at code. On machines with stores that look alike,
and with the same input, network and time, they give the same. So they keep every relation between
such machines that is kept when both machines log the same, get the same instance and so on.
-/

namespace Scripting

/-- A relation between machines that look alike. It is kept by everything that built-in functions
and host classes do. -/
structure Machine.Likeness (M : Machine → Machine → Prop) : Prop where
  looksLike : ∀ {m m' : Machine}, M m m' → m.store.LooksLike m'.store
  /-- The same is abandoned, whatever is in use besides. -/
  abandoned_eq : ∀ {m m' : Machine}, M m m' → ∀ references : List Reference,
    m.store.abandonedHandles (references ++ m'.roots) =
      m.store.abandonedHandles (references ++ m.roots)
  input_eq : ∀ {m m' : Machine}, M m m' → m'.input = m.input
  network_eq : ∀ {m m' : Machine}, M m m' → m'.network = m.network
  time_eq : ∀ {m m' : Machine}, M m m' → m'.time = m.time
  withInput : ∀ {m m' : Machine}, M m m' → ∀ input : List UInt8,
    M { m with input } { m' with input }
  withNetwork : ∀ {m m' : Machine}, M m m' → ∀ network : Network,
    M { m with network } { m' with network }
  withTime : ∀ {m m' : Machine}, M m m' → ∀ time : Nat, M { m with time } { m' with time }
  log : ∀ {m m' : Machine}, M m m' → ∀ (level : LogLevel) (target : LogTarget) (message : String),
    M (m.log level target message) (m'.log level target message)
  addInstance : ∀ {m m' : Machine}, M m m' → ∀ i : Instance,
    M { m with store := (m.store.addInstance i).2 } { m' with store := (m'.store.addInstance i).2 }
  setHandle : ∀ {m m' : Machine}, M m m' → ∀ (i : InstanceId) (handle : Option Handle),
    M { m with store := m.store.setHandle i handle }
      { m' with store := m'.store.setHandle i handle }

namespace Machine.Likeness

variable {M : Machine → Machine → Prop} (hM : Likeness M) {m m' : Machine}

include hM

lemma release (h : M m m') (i : InstanceId) (handle : Handle) :
    M (m.release i handle) (m'.release i handle) := by
  unfold Machine.release
  rw [hM.network_eq h]
  exact hM.withNetwork (hM.setHandle h i none) _

lemma releaseAbandoned (h : M m m') (values : List Value) :
    M (m.releaseAbandoned values) (m'.releaseAbandoned values) := by
  simp only [Machine.releaseAbandoned, (hM.looksLike h).abandonedHandles_eq, hM.abandoned_eq h]
  generalize m.store.abandonedHandles (values.flatMap Value.references ++ m.roots) = abandoned
  -- one release after the other, from machines that the earlier ones left alike
  induction abandoned generalizing m m' with
  | nil => exact h
  | cons head rest ih => exact ih (hM.release h head.1 head.2)

end Machine.Likeness

namespace Exec

variable {α β γ δ : Type} {M : Machine → Machine → Prop} {R : α → β → Prop} {S : γ → δ → Prop}

/-- Two actions that always give related results, on machines that they leave alike. -/
def Agree (M : Machine → Machine → Prop) (R : α → β → Prop) (x : Exec α) (x' : Exec β) : Prop :=
  ∀ m m' : Machine, M m m' → ∃ a b after after', x m = .ok a after ∧ x' m' = .ok b after' ∧
    R a b ∧ M after after'

namespace Agree

lemma pure {a : α} {b : β} (h : R a b) : Agree M R (pure a) (pure b) :=
  fun m m' hm => ⟨a, b, m, m', rfl, rfl, h, hm⟩

lemma bind {x : Exec α} {x' : Exec β} {next : α → Exec γ} {next' : β → Exec δ}
    (hx : Agree M R x x') (hn : ∀ a b, R a b → Agree M S (next a) (next' b)) :
    Agree M S (x >>= next) (x' >>= next') := by
  intro m m' hm
  obtain ⟨a, b, between, between', hx, hx', hab, hbetween⟩ := hx m m' hm
  obtain ⟨c, d, after, after', hn, hn', hcd, hafter⟩ := hn a b hab _ _ hbetween
  exact ⟨c, d, after, after', (bind_of_ok hx).trans hn, (bind_of_ok hx').trans hn', hcd, hafter⟩

/-- After an action with the same result. -/
lemma bind_eq {x x' : Exec α} {next : α → Exec γ} {next' : α → Exec δ} (hx : Agree M Eq x x')
    (hn : ∀ a, Agree M S (next a) (next' a)) : Agree M S (x >>= next) (x' >>= next') :=
  bind hx fun a _ h => h ▸ hn a

/-- Something that is only done under a condition. -/
lemma when {condition : Prop} [Decidable condition] {x x' : Exec α} {rest : Exec γ}
    {rest' : Exec δ} (hx : Agree M Eq x x') (hr : Agree M S rest rest') :
    Agree M S (if condition then x >>= fun _ => rest else rest)
      (if condition then x' >>= fun _ => rest' else rest') := by
  split
  · exact bind_eq hx fun _ => hr
  · exact hr

lemma get : Agree M M get get :=
  fun m m' hm => ⟨m, m', m, m', rfl, rfl, hm, hm⟩

lemma modify {change change' : Machine → Machine} (h : ∀ m m', M m m' → M (change m) (change' m')) :
    Agree M Eq (modify change : Exec Unit) (modify change') :=
  fun m m' hm => ⟨(), (), change m, change' m', rfl, rfl, rfl, h m m' hm⟩

lemma modifyGet {change change' : Machine → α × Machine}
    (h : ∀ m m', M m m' → (change' m').1 = (change m).1 ∧ M (change m).2 (change' m').2) :
    Agree M Eq (MonadState.modifyGet change : Exec α) (MonadState.modifyGet change') := by
  intro m m' hm
  obtain ⟨he, hM⟩ := h m m' hm
  exact ⟨_, _, _, _, rfl, rfl, he.symm, hM⟩

section

variable (hM : Machine.Likeness M)

include hM

lemma store : Agree M Store.LooksLike Exec.store Exec.store :=
  fun m m' hm => ⟨m.store, m'.store, m, m', rfl, rfl, hM.looksLike hm, hm⟩

lemma log (level : LogLevel) (target : LogTarget) (message : String) :
    Agree M Eq (Exec.log level target message) (Exec.log level target message) :=
  modify fun _ _ hm => hM.log hm level target message

/-- An operation on the network. -/
lemma network (operation : Network → α × Network) :
    Agree M Eq (MonadState.modifyGet fun m : Machine =>
        ((operation m.network).1, { m with network := (operation m.network).2 }))
      (MonadState.modifyGet fun m : Machine =>
        ((operation m.network).1, { m with network := (operation m.network).2 })) := by
  refine modifyGet fun m m' hm => ?_
  rw [hM.network_eq hm]
  exact ⟨rfl, hM.withNetwork hm _⟩

end

end Agree

end Exec

/-! ### Built-in functions and host classes -/

section

open Exec

variable {M : Machine → Machine → Prop} (hM : Machine.Likeness M)

include hM

namespace Builtin

lemma refuse_agree (message : String) : Agree M Eq (refuse message) (refuse message) :=
  .bind_eq (.log hM _ _ _) fun _ => .pure rfl

/-- A built-in function gives the same on machines that look alike. -/
theorem run_agree (b : Builtin) (arguments : List Value) :
    Agree M Eq (b.run arguments) (b.run arguments) := by
  cases b with
  | clock =>
    refine .bind_eq (.modifyGet fun m m' hm => ?_) fun now => .pure rfl
    rw [hM.time_eq hm]
    exact ⟨rfl, hM.withTime hm _⟩
  | input =>
    refine .bind_eq (.modifyGet fun m m' hm => ?_) fun read => ?_
    · rw [hM.input_eq hm]
      exact ⟨rfl, hM.withInput hm _⟩
    · cases read with
      | text line => exact .pure rfl
      | ended => exact .bind_eq (.log hM _ _ _) fun _ => .pure rfl
      | undecodable => exact refuse_agree hM _
  | reverse =>
    refine .bind (.store hM) fun s s' hs => ?_
    rw [hs.display_eq]
    exact .pure rfl

end Builtin

namespace HostClass

lemma instantiate_agree (classId : ClassId) (handle : Handle) :
    Agree M Eq (instantiate classId handle) (instantiate classId handle) := by
  refine .bind_eq (.modifyGet fun m m' hm => ⟨?_, hM.addInstance hm _⟩) fun _ => .pure rfl
  exact congrArg Array.size (hM.looksLike hm).instances_eq

lemma connect_agree (classId : ClassId) (address : String) (port : Nat) :
    Agree M Eq (connect classId address port) (connect classId address port) := by
  refine .bind_eq (.modify fun m m' hm => hM.releaseAbandoned hm []) fun _ => ?_
  refine .bind .get fun m m' hm => ?_
  rw [hM.network_eq hm]
  cases m.network.connect address port with
  | error failure => exact Builtin.refuse_agree hM _
  | ok connected =>
    obtain ⟨endpoint, network⟩ := connected
    exact .bind_eq (.modify fun _ _ hm => hM.withNetwork hm network) fun _ =>
      .bind_eq (.log hM _ _ _) fun _ => instantiate_agree hM _ _

lemma listen_agree (classId : ClassId) (port : Nat) :
    Agree M Eq (listen classId port) (listen classId port) := by
  refine .bind .get fun m m' hm => ?_
  rw [hM.network_eq hm]
  refine .when (.modify fun _ _ hm => hM.releaseAbandoned hm []) ?_
  refine .bind .get fun m m' hm => ?_
  rw [hM.network_eq hm]
  cases m.network.listen port with
  | none => exact Builtin.refuse_agree hM _
  | some listening =>
    exact .bind_eq (.modify fun _ _ hm => hM.withNetwork hm _) fun _ =>
      .bind_eq (.log hM _ _ _) fun _ => instantiate_agree hM _ _

/-- A host class constructs the same on machines that look alike. -/
theorem construct_agree (host : HostClass) (classId : ClassId) (arguments : List Value) :
    Agree M Eq (host.construct classId arguments) (host.construct classId arguments) := by
  have refused : ∀ message : String, Agree M Eq
      (do
        let shown := (← Exec.store).inspectList arguments
        Builtin.refuse (message ++ shown) : Exec Value)
      (do
        let shown := (← Exec.store).inspectList arguments
        Builtin.refuse (message ++ shown)) := by
    intro message
    refine .bind (.store hM) fun s s' hs => ?_
    rw [hs.inspectList_eq]
    exact Builtin.refuse_agree hM _
  cases host with
  | socket =>
    unfold construct
    dsimp only
    split
    · split
      · exact connect_agree hM _ _ _
      · exact refused _
    · exact refused _
  | serverSocket =>
    unfold construct
    dsimp only
    split
    · exact listen_agree hM _ _
    · exact refused _

end HostClass

namespace HostMethod

lemma handle?_agree (receiver : InstanceId) :
    Agree M Eq (handle? receiver) (handle? receiver) := by
  refine .bind (.store hM) fun s s' hs => ?_
  rw [hs.instances_eq]
  exact .pure rfl

/-- A host method does the same on machines that look alike. -/
theorem run_agree (method : HostMethod) (receiver : InstanceId) (arguments : List Value) :
    Agree M Eq (method.run receiver arguments) (method.run receiver arguments) := by
  cases method with
  | send =>
    refine .bind_eq (.modify fun _ _ hm => hM.releaseAbandoned hm _) fun _ => ?_
    refine .bind (.store hM) fun s s' hs => ?_
    rw [hs.display_eq]
    refine .bind_eq (handle?_agree hM receiver) fun handle => ?_
    rcases handle with _ | (endpoint | listener)
    · exact Builtin.refuse_agree hM _
    · refine .bind_eq (.network hM fun network => network.writeAll endpoint
        [(s.display (arguments.headD (.text ""))).toUTF8.toList, [lineFeed]]) fun taken => ?_
      cases taken with
      | true => exact .pure rfl
      | false => exact Builtin.refuse_agree hM _
    · exact Builtin.refuse_agree hM _
  | receive =>
    refine .bind_eq (handle?_agree hM receiver) fun handle => ?_
    rcases handle with _ | (endpoint | listener)
    · exact Builtin.refuse_agree hM _
    · refine .bind_eq (.network hM fun network => network.readLine endpoint) fun read => ?_
      cases read with
      | text line => exact .pure rfl
      | ended => exact Builtin.refuse_agree hM _
      | undecodable => exact Builtin.refuse_agree hM _
    · exact Builtin.refuse_agree hM _
  | close =>
    refine .bind_eq (handle?_agree hM receiver) fun handle => ?_
    refine .bind_eq (.modify fun _ _ hm => hM.setHandle hm receiver none) fun _ => ?_
    rcases handle with _ | (endpoint | listener)
    · exact .pure rfl
    · refine .bind_eq (.network hM fun network => network.close endpoint) fun connected => ?_
      cases connected with
      | true => exact .pure rfl
      | false => exact Builtin.refuse_agree hM _
    · exact .pure rfl
  | accept =>
    refine .bind_eq (handle?_agree hM receiver) fun handle => ?_
    rcases handle with _ | (endpoint | listener)
    · exact Builtin.refuse_agree hM _
    · exact Builtin.refuse_agree hM _
    · refine .bind .get fun m m' hm => ?_
      rw [hM.network_eq hm]
      cases m.network.accept listener with
      | none => exact Builtin.refuse_agree hM _
      | some accepted =>
        exact .bind_eq (.modify fun _ _ hm => hM.withNetwork hm _) fun _ =>
          HostClass.instantiate_agree hM _ _

end HostMethod

end

end Scripting
