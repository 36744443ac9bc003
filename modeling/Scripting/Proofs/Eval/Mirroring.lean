import Scripting.Proofs.Eval.Likeness
import Scripting.Proofs.Store.Renaming

/-!
# Machines that mirror one another

A machine mirrors another one if it has the same code renamed, the same distances for the renamed
nodes, and otherwise the same of everything that a program can notice. Their journals have the same
reports from some place on. An action mirrors another one if it gives the same on machines that
mirror one another and leaves machines that do so again. Built-in functions and host classes mirror
themselves, since they do not look at code.
-/

namespace Scripting

/-! ### Journals -/

namespace Journal

/-- Two journals have the same reports, each from a place of its own on. -/
structure SameReports (told told' : Nat) (j j' : Journal) : Prop where
  told_le : told ≤ j.size
  told_le' : told' ≤ j'.size
  reports_eq : j'.reportsSince told' = j.reportsSince told

lemma reportsSince_push {told : Nat} {j : Journal} (h : told ≤ j.size) (e : Entry) :
    reportsSince (j.push e) told = j.reportsSince told ++ reportsSince #[e] 0 := by
  simp only [reportsSince, Array.toList_push]
  rw [List.drop_append_of_le_length (by simpa using h), List.filterMap_append]
  rfl

lemma reportsSince_push_log {told : Nat} {j : Journal} (h : told ≤ j.size) (level : LogLevel)
    (target : LogTarget) (message : String) :
    reportsSince (j.push (.log level target message)) told = j.reportsSince told := by
  rw [reportsSince_push h]
  exact List.append_nil _

namespace SameReports

variable {told told' : Nat} {j j' : Journal}

lemma push (h : SameReports told told' j j') (e : Entry) :
    SameReports told told' (j.push e) (j'.push e) := by
  refine ⟨?_, ?_, ?_⟩
  · rw [Array.size_push]
    exact Nat.le_succ_of_le h.told_le
  · rw [Array.size_push]
    exact Nat.le_succ_of_le h.told_le'
  · rw [reportsSince_push h.told_le, reportsSince_push h.told_le', h.reports_eq]

/-- From their ends on, two journals have no reports yet. -/
lemma ofEnds (j j' : Journal) : SameReports j.size j'.size j j' := by
  have none : ∀ j : Journal, j.reportsSince j.size = [] := by
    intro j
    rw [reportsSince, ← Array.length_toList, List.drop_length]
    rfl
  exact ⟨Nat.le_refl _, Nat.le_refl _, (none j').trans (none j).symm⟩

end SameReports

end Journal

/-! ### Machines -/

/-- A reason to stop, with the renamed line. -/
def Stop.rename (ρ : Renaming) : Stop → Stop
  | .fault f => .fault ⟨f.cause, ρ.line f.line⟩
  | .exhausted => .exhausted

/-- A machine with renamed code on which everything else is the same. -/
structure Machine.Mirrors (ρ : Renaming) (told told' : Nat) (m m' : Machine) : Prop where
  store_eq : m'.store = m.store.rename ρ
  scope_eq : m'.scope = m.scope
  held_eq : m'.held = m.held
  get?_eq : ∀ id, m'.distances.get? (ρ.node id) = m.distances.get? id
  sink_eq : m'.sink = m.sink
  input_eq : m'.input = m.input
  network_eq : m'.network = m.network
  time_eq : m'.time = m.time
  reports : Journal.SameReports told told' m.journal m'.journal

namespace Machine.Mirrors

variable {ρ : Renaming} {told told' : Nat} {m m' : Machine}

lemma withStore (h : m.Mirrors ρ told told' m') {s s' : Store} (hs : s' = s.rename ρ) :
    Machine.Mirrors ρ told told' { m with store := s } { m' with store := s' } :=
  ⟨hs, h.scope_eq, h.held_eq, h.get?_eq, h.sink_eq, h.input_eq, h.network_eq, h.time_eq,
    h.reports⟩

lemma withScope (h : m.Mirrors ρ told told' m') (scope : FrameId) (held : List Reference) :
    Machine.Mirrors ρ told told' { m with scope, held } { m' with scope, held } :=
  ⟨h.store_eq, rfl, rfl, h.get?_eq, h.sink_eq, h.input_eq, h.network_eq, h.time_eq, h.reports⟩

lemma withNetwork (h : m.Mirrors ρ told told' m') (network : Network) :
    Machine.Mirrors ρ told told' { m with network } { m' with network } :=
  ⟨h.store_eq, h.scope_eq, h.held_eq, h.get?_eq, h.sink_eq, h.input_eq, rfl, h.time_eq,
    h.reports⟩

lemma log (h : m.Mirrors ρ told told' m') (level : LogLevel) (target : LogTarget)
    (message : String) :
    (m.log level target message).Mirrors ρ told told' (m'.log level target message) :=
  ⟨h.store_eq, h.scope_eq, h.held_eq, h.get?_eq, h.sink_eq, h.input_eq, h.network_eq, h.time_eq,
    h.reports.push _⟩

/-- Machines that mirror one another look alike. -/
lemma likeness (ρ : Renaming) (told told' : Nat) :
    Machine.Likeness (Machine.Mirrors ρ told told') where
  looksLike h := by
    rw [h.store_eq]
    exact Store.looksLike_rename ρ _
  abandoned_eq h _ := by rw [Machine.roots, Machine.roots, h.scope_eq, h.held_eq]
  input_eq h := h.input_eq
  network_eq h := h.network_eq
  time_eq h := h.time_eq
  withInput h _ := ⟨h.store_eq, h.scope_eq, h.held_eq, h.get?_eq, h.sink_eq, rfl, h.network_eq,
    h.time_eq, h.reports⟩
  withNetwork h network := h.withNetwork network
  withTime h _ := ⟨h.store_eq, h.scope_eq, h.held_eq, h.get?_eq, h.sink_eq, h.input_eq,
    h.network_eq, rfl, h.reports⟩
  log h level target message := h.log level target message
  addInstance h i := h.withStore (by rw [h.store_eq]; rfl)
  setHandle h i handle := h.withStore (by rw [h.store_eq]; rfl)

end Machine.Mirrors

/-! ### Actions -/

namespace Exec

variable {ρ : Renaming} {told told' : Nat} {α β γ δ : Type} {R : α → β → Prop}
  {S : γ → δ → Prop}

/-- Two ends of actions: related results, or the same stop; on machines that mirror one another. -/
def EndsMirrored (ρ : Renaming) (told told' : Nat) (R : α → β → Prop) :
    EStateM.Result Stop Machine α → EStateM.Result Stop Machine β → Prop
  | .ok a m, .ok b m' => R a b ∧ m.Mirrors ρ told told' m'
  | .error stop m, .error stop' m' => stop' = stop.rename ρ ∧ m.Mirrors ρ told told' m'
  | _, _ => False

/-- An action that mirrors another one. -/
def Mirrors (ρ : Renaming) (told told' : Nat) (R : α → β → Prop) (x : Exec α) (x' : Exec β) :
    Prop :=
  ∀ m m' : Machine, m.Mirrors ρ told told' m' → EndsMirrored ρ told told' R (x m) (x' m')

namespace Mirrors

lemma pure {a : α} {b : β} (h : R a b) :
    Mirrors ρ told told' R (Pure.pure a) (Pure.pure b) :=
  fun _ _ hm => ⟨h, hm⟩

lemma throw (stop : Stop) :
    Mirrors ρ told told' R (MonadExcept.throw stop) (MonadExcept.throw (stop.rename ρ)) :=
  fun _ _ hm => ⟨rfl, hm⟩

lemma fail (cause : Cause) (line : Nat) :
    Mirrors ρ told told' R (Exec.fail cause line) (Exec.fail cause (ρ.line line)) :=
  throw (.fault ⟨cause, line⟩)

lemma ofExcept (line : Nat) (e : Except Cause α) :
    Mirrors ρ told told' Eq (Exec.ofExcept line e) (Exec.ofExcept (ρ.line line) e) := by
  cases e with
  | ok a => exact pure rfl
  | error cause => exact fail cause line

lemma bind {x : Exec α} {x' : Exec β} {next : α → Exec γ} {next' : β → Exec δ}
    (hx : Mirrors ρ told told' R x x')
    (hn : ∀ a b, R a b → Mirrors ρ told told' S (next a) (next' b)) :
    Mirrors ρ told told' S (x >>= next) (x' >>= next') := by
  intro m m' hm
  have hx := hx m m' hm
  cases h : x m with
  | ok a after =>
    cases h' : x' m' with
    | ok b after' =>
      rw [h, h'] at hx
      rw [bind_of_ok h, bind_of_ok h']
      exact hn a b hx.1 after after' hx.2
    | error stop after' =>
      rw [h, h'] at hx
      exact hx.elim
  | error stop after =>
    cases h' : x' m' with
    | ok b after' =>
      rw [h, h'] at hx
      exact hx.elim
    | error stop' after' =>
      rw [h, h'] at hx
      rw [bind_of_error h, bind_of_error h']
      exact hx

/-- After an action with the same result. -/
lemma bind_eq {x x' : Exec α} {next : α → Exec γ} {next' : α → Exec δ}
    (hx : Mirrors ρ told told' Eq x x')
    (hn : ∀ a, Mirrors ρ told told' S (next a) (next' a)) :
    Mirrors ρ told told' S (x >>= next) (x' >>= next') :=
  bind hx fun a _ h => h ▸ hn a

lemma get : Mirrors ρ told told' (Machine.Mirrors ρ told told') get get :=
  fun _ _ hm => ⟨hm, hm⟩

lemma store : Mirrors ρ told told' (fun s s' => s' = s.rename ρ) Exec.store Exec.store :=
  fun _ _ hm => ⟨hm.store_eq, hm⟩

lemma modifyGet {change : Machine → α × Machine} {change' : Machine → β × Machine}
    (h : ∀ m m' : Machine, m.Mirrors ρ told told' m' →
      R (change m).1 (change' m').1 ∧ (change m).2.Mirrors ρ told told' (change' m').2) :
    Mirrors ρ told told' R (MonadState.modifyGet change) (MonadState.modifyGet change') :=
  h

lemma changeStore {change change' : Store → Store}
    (h : ∀ s : Store, change' (s.rename ρ) = (change s).rename ρ) :
    Mirrors ρ told told' Eq (Exec.changeStore change) (Exec.changeStore change') := by
  intro m m' hm
  refine ⟨rfl, hm.withStore ?_⟩
  rw [hm.store_eq]
  exact h m.store

lemma updateStore {update : Store → α × Store} {update' : Store → β × Store}
    (h : ∀ s : Store, R (update s).1 (update' (s.rename ρ)).1 ∧
      (update' (s.rename ρ)).2 = (update s).2.rename ρ) :
    Mirrors ρ told told' R (Exec.updateStore update) (Exec.updateStore update') := by
  intro m m' hm
  have hs := h m.store
  rw [← hm.store_eq] at hs
  exact ⟨hs.1, hm.withStore hs.2⟩

/-- An update of the store that gives the same. -/
lemma updateStore_eq {update update' : Store → α × Store}
    (h : ∀ s : Store, update' (s.rename ρ) = ((update s).1, (update s).2.rename ρ)) :
    Mirrors ρ told told' Eq (Exec.updateStore update) (Exec.updateStore update') := by
  refine updateStore fun s => ?_
  rw [h s]
  exact ⟨rfl, rfl⟩

lemma bracket {prepare prepare' : Machine → Machine} {x : Exec α} {x' : Exec β}
    (hp : ∀ m m' : Machine, m.Mirrors ρ told told' m' →
      (prepare m).Mirrors ρ told told' (prepare' m'))
    (hx : Mirrors ρ told told' R x x') :
    Mirrors ρ told told' R (Exec.bracket prepare x) (Exec.bracket prepare' x') := by
  intro m m' hm
  have hx := hx _ _ (hp m m' hm)
  have back {a b : Machine} (hab : a.Mirrors ρ told told' b) : Machine.Mirrors ρ told told'
      { a with scope := m.scope, held := m.held }
      { b with scope := m'.scope, held := m'.held } := by
    rw [hm.scope_eq, hm.held_eq]
    exact hab.withScope _ _
  unfold Exec.bracket
  cases h : x (prepare m) with
  | ok a after =>
    cases h' : x' (prepare' m') with
    | ok b after' =>
      rw [h, h'] at hx
      exact ⟨hx.1, back hx.2⟩
    | error stop after' =>
      rw [h, h'] at hx
      exact hx.elim
  | error stop after =>
    cases h' : x' (prepare' m') with
    | ok b after' =>
      rw [h, h'] at hx
      exact hx.elim
    | error stop' after' =>
      rw [h, h'] at hx
      exact ⟨hx.1, back hx.2⟩

lemma within (frame : FrameId) {x : Exec α} {x' : Exec β} (hx : Mirrors ρ told told' R x x') :
    Mirrors ρ told told' R (Exec.within frame x) (Exec.within frame x') := by
  refine bracket (fun m m' hm => ?_) hx
  rw [hm.scope_eq, hm.held_eq]
  exact hm.withScope _ _

lemma holding (value : Value) {x : Exec α} {x' : Exec β} (hx : Mirrors ρ told told' R x x') :
    Mirrors ρ told told' R (Exec.holding value x) (Exec.holding value x') := by
  refine bracket (fun m m' hm => ?_) hx
  exact ⟨hm.store_eq, hm.scope_eq, congrArg (value.references ++ ·) hm.held_eq, hm.get?_eq,
    hm.sink_eq, hm.input_eq, hm.network_eq, hm.time_eq, hm.reports⟩

lemma print (text : String) (line : Nat) :
    Mirrors ρ told told' Eq (Exec.print text line) (Exec.print text (ρ.line line)) := by
  refine bind_eq (modifyGet fun m m' hm => ?_) fun taken => ?_
  · rw [hm.sink_eq]
    exact ⟨rfl, hm.store_eq, hm.scope_eq, hm.held_eq, hm.get?_eq, rfl, hm.input_eq,
      hm.network_eq, hm.time_eq, hm.reports⟩
  · cases taken with
    | true => exact pure rfl
    | false => exact fail _ _

end Mirrors

/-- Machines that mirror one another do so after an action that does the same on both. -/
lemma Agree.mirrors {x : Exec α} {x' : Exec β}
    (h : Agree (Machine.Mirrors ρ told told') R x x') : Mirrors ρ told told' R x x' := by
  intro m m' hm
  obtain ⟨a, b, after, after', hx, hx', hab, hafter⟩ := h m m' hm
  rw [hx, hx']
  exact ⟨hab, hafter⟩

end Exec

/-! ### Built-in functions and host classes -/

section

variable {ρ : Renaming} {told told' : Nat}

/-- An action whose result has nothing to do with code, and that does the same on machines that
mirror one another. -/
def Exec.Neutral {α : Type} (ρ : Renaming) (told told' : Nat) (x : Exec α) : Prop :=
  Exec.Mirrors ρ told told' Eq x x

open Machine.Mirrors

lemma Builtin.run_neutral (b : Builtin) (arguments : List Value) :
    (b.run arguments).Neutral ρ told told' :=
  (b.run_agree (likeness ρ told told') arguments).mirrors

lemma HostClass.construct_neutral (host : HostClass) (classId : ClassId)
    (arguments : List Value) : (host.construct classId arguments).Neutral ρ told told' :=
  (host.construct_agree (likeness ρ told told') classId arguments).mirrors

lemma HostMethod.run_neutral (method : HostMethod) (receiver : InstanceId)
    (arguments : List Value) : (method.run receiver arguments).Neutral ρ told told' :=
  (method.run_agree (likeness ρ told told') receiver arguments).mirrors

end

end Scripting
