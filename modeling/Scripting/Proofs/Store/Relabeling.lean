import Scripting.Proofs.Resolution.Relabeling
import Scripting.Proofs.Store.Growth
import Scripting.Proofs.Store.Likeness
import Scripting.Store.Members

/-!
# Stores with relabelled code

A store goes along with another one if it has the same in it, up to the spelling of names in the
frames that were opened for the relabelled scope, and up to code that differs by the relabelling.
Which frames these are cannot be seen in the frames. It is kept in a list of spots, one for each
frame, which grows when a frame is opened. Code may differ within a frame as the marks of that frame
and of those around it say.
-/

namespace Scripting

/-! ### Spots -/

/-- Where a frame stands: the frames around it, and the mark of the scope that it was opened for. -/
structure Spot where
  outer : List FrameId
  mark : Bool

/-- Where the frames of a store stand, in the order in which they were opened. -/
abbrev Spots := List Spot

namespace Spots

/-- A frame was opened for a scope with a mark. -/
def HasMark (w : Spots) (f : FrameId) (mark : Bool) : Prop :=
  ∃ spot, w[f]? = some spot ∧ spot.mark = mark

/-- A frame and the frames around it were opened for scopes with marks. -/
def HasMarks (w : Spots) (f : FrameId) (marks : List Bool) : Prop :=
  ∃ spot, w[f]? = some spot ∧ List.Forall₂ w.HasMark (f :: spot.outer) marks

variable {w w' : Spots} {f : FrameId} {mark : Bool} {marks : List Bool} {spot : Spot}

/-- Spots stay when there are more. -/
lemma getElem?_mono (h : w <+: w') (hf : w[f]? = some spot) : w'[f]? = some spot := by
  obtain ⟨more, rfl⟩ := h
  obtain ⟨hlt, -⟩ := List.getElem?_eq_some_iff.mp hf
  rwa [List.getElem?_append_left hlt]

lemma HasMark.mono (hm : w.HasMark f mark) (h : w <+: w') : w'.HasMark f mark := by
  obtain ⟨spot, hf, he⟩ := hm
  exact ⟨spot, getElem?_mono h hf, he⟩

lemma HasMarks.mono (hm : w.HasMarks f marks) (h : w <+: w') : w'.HasMarks f marks := by
  obtain ⟨spot, hf, hms⟩ := hm
  exact ⟨spot, getElem?_mono h hf, hms.imp fun _ _ hg => hg.mono h⟩

/-- The mark of the frame itself. -/
lemma HasMarks.head (hm : w.HasMarks f marks) : w.HasMark f (marks.headD false) := by
  obtain ⟨spot, -, hms⟩ := hm
  cases hms with
  | cons hmark _ => exact hmark

/-- A frame is opened inside of another one. -/
lemma HasMarks.opened (hm : w.HasMarks f marks) (hf : w[f]? = some spot) (mark : Bool) :
    HasMarks (w ++ [Spot.mk (f :: spot.outer) mark]) w.length (mark :: marks) := by
  obtain ⟨spot', hf', hms⟩ := hm
  obtain rfl : spot = spot' := Option.some.inj (hf.symm.trans hf')
  have hlast : (w ++ [Spot.mk (f :: spot.outer) mark])[w.length]? =
      some ⟨f :: spot.outer, mark⟩ :=
    List.getElem?_concat_length
  refine ⟨_, hlast, .cons ?_ (hms.imp fun _ _ hg => hg.mono (List.prefix_append _ _))⟩
  exact ⟨_, hlast, rfl⟩

end Spots

/-- Related lists have related entries in the same places. -/
lemma forall₂_getElem? {α β : Type} {R : α → β → Prop} {as : List α} {bs : List β}
    (h : List.Forall₂ R as bs) (i : Nat) : Option.Rel R as[i]? bs[i]? := by
  induction h generalizing i with
  | nil => exact .none
  | cons hr _ ih =>
    cases i with
    | zero => exact .some hr
    | succ i => exact ih i

/-! ### Records -/

/-- Two records have related entries under the same names. -/
def Record.Related {α β : Type} (R : α → β → Prop) (r : Record α) (r' : Record β) : Prop :=
  List.Forall₂ (fun e e' => e'.1 = e.1 ∧ R e.2 e'.2) r r'

namespace Record.Related

variable {α β : Type} {R : α → β → Prop} {r : Record α} {r' : Record β}

lemma get? (h : Related R r r') (name : String) : Option.Rel R (r.get? name) (r'.get? name) := by
  induction h with
  | nil => exact .none
  | @cons e e' _ _ he _ ih =>
    obtain ⟨key, a⟩ := e
    obtain ⟨_, b⟩ := e'
    obtain ⟨rfl, hab⟩ := he
    simp only [Record.get?, List.lookup_cons] at ih ⊢
    split
    · exact .some hab
    · exact ih

lemma insert (h : Related R r r') (name : String) {a : α} {b : β} (hab : R a b) :
    Related R (r.insert name a) (r'.insert name b) := by
  induction h with
  | nil => exact .cons ⟨rfl, hab⟩ .nil
  | @cons e e' _ _ he hrest ih =>
    obtain ⟨key, a⟩ := e
    obtain ⟨_, b⟩ := e'
    obtain ⟨rfl, he⟩ := he
    simp only [Record.insert]
    split
    · exact .cons ⟨rfl, hab⟩ hrest
    · exact .cons ⟨rfl, he⟩ ih

lemma inspectRecord_eq (h : Related R r r') {inspect : α → String} {inspect' : β → String}
    (hR : ∀ a b, R a b → inspect' b = inspect a) :
    inspectRecord inspect' r' = inspectRecord inspect r := by
  have hentries : (r'.map fun e => Text.quoted e.1 ++ ": " ++ inspect' e.2) =
      r.map fun e => Text.quoted e.1 ++ ": " ++ inspect e.2 := by
    induction h with
    | nil => rfl
    | cons he _ ih =>
      simp only [List.map_cons, ih, he.1, hR _ _ he.2]
  exact congrArg (fun entries => "\x7b" ++ ", ".intercalate entries ++ "\x7d") hentries

lemma map_eq (h : Related R r r') {γ : Type} {f : α → γ} {g : β → γ}
    (hR : ∀ a b, R a b → g b = f a) :
    (r'.map fun (_, entry) => g entry) = r.map fun (_, entry) => f entry := by
  induction h with
  | nil => rfl
  | cons he _ ih => simp only [List.map_cons, ih, hR _ _ he.2]

end Record.Related

/-! ### Code in a store -/

/-- Two functions are the same but for relabelled code. Inside of the frame that they are closed
over are further scopes with marks, for which there is no frame yet. -/
structure Function.Relabeled (ρ : Relabeling) (w : Spots) (inner : List Bool) (f f' : Function) :
    Prop where
  closure_eq : f'.closure = f.closure
  isInitializer_eq : f'.isInitializer = f.isInitializer
  code : ∃ marks, w.HasMarks f.closure marks ∧
    Scripting.Relabeled ρ (inner ++ marks) (.function f.declaration) (.function f'.declaration)

/-- Two getters are the same but for relabelled code. -/
structure Getter.Relabeled (ρ : Relabeling) (w : Spots) (inner : List Bool) (g g' : Getter) :
    Prop where
  closure_eq : g'.closure = g.closure
  code : ∃ marks, w.HasMarks g.closure marks ∧
    Scripting.Relabeled ρ (inner ++ marks) (.getter g.declaration) (.getter g'.declaration)

/-- Two callables are the same but for relabelled code. -/
inductive Callable.Relabeled (ρ : Relabeling) (w : Spots) : Callable → Callable → Prop
  | function {f f' : Function} :
    f.Relabeled ρ w [] f' → Callable.Relabeled ρ w (.function f) (.function f')
  | getter {g g' : Getter} :
    g.Relabeled ρ w [] g' → Callable.Relabeled ρ w (.getter g) (.getter g')
  | builtin (b : Builtin) : Callable.Relabeled ρ w (.builtin b) (.builtin b)
  | hostMethod (method : HostMethod) (receiver : InstanceId) :
    Callable.Relabeled ρ w (.hostMethod method receiver) (.hostMethod method receiver)

/-- Two classes look alike and are the same but for relabelled code. A member runs in a frame with
its receiver, which has no mark. -/
structure Class.Relabeled (ρ : Relabeling) (w : Spots) (c c' : Class) : Prop where
  looksLike : c.LooksLike c'
  host_eq : c'.host = c.host
  method : ∀ name : String,
    Option.Rel (Function.Relabeled ρ w [false]) (c.methods.get? name) (c'.methods.get? name)
  getter : ∀ name : String,
    Option.Rel (Getter.Relabeled ρ w [false]) (c.getters.get? name) (c'.getters.get? name)

section

variable {ρ : Relabeling} {w w' : Spots} {inner : List Bool} {f f' : Function} {g g' : Getter}
  {k k' : Callable} {c c' : Class}

lemma Function.Relabeled.mono (h : f.Relabeled ρ w inner f') (hw : w <+: w') :
    f.Relabeled ρ w' inner f' := by
  obtain ⟨marks, hm, hd⟩ := h.code
  exact ⟨h.closure_eq, h.isInitializer_eq, marks, hm.mono hw, hd⟩

lemma Getter.Relabeled.mono (h : g.Relabeled ρ w inner g') (hw : w <+: w') :
    g.Relabeled ρ w' inner g' := by
  obtain ⟨marks, hm, hd⟩ := h.code
  exact ⟨h.closure_eq, marks, hm.mono hw, hd⟩

lemma Callable.Relabeled.mono (h : k.Relabeled ρ w k') (hw : w <+: w') : k.Relabeled ρ w' k' := by
  cases h with
  | function hf => exact .function (hf.mono hw)
  | getter hg => exact .getter (hg.mono hw)
  | builtin b => exact .builtin b
  | hostMethod method receiver => exact .hostMethod method receiver

lemma Class.Relabeled.mono (h : c.Relabeled ρ w c') (hw : w <+: w') : c.Relabeled ρ w' c' :=
  ⟨h.looksLike, h.host_eq, fun name => rel_mono (h.method name) fun _ _ hf => hf.mono hw,
    fun name => rel_mono (h.getter name) fun _ _ hg => hg.mono hw⟩

/-- Functions keep their name and the number of their parameters. -/
lemma Function.Relabeled.declaration_eq (h : f.Relabeled ρ w inner f') :
    f'.declaration.name = f.declaration.name ∧
      f'.declaration.params.length = f.declaration.params.length := by
  obtain ⟨marks, -, hd⟩ := h.code
  refine ⟨hd.function_name, ?_⟩
  obtain ⟨declaration, closure, isInitializer⟩ := f
  obtain ⟨declaration', closure', isInitializer'⟩ := f'
  cases hd with
  | function hparams _ => exact hparams.length_eq.symm

lemma Function.Relabeled.inspect_eq (h : f.Relabeled ρ w inner f') : f'.inspect = f.inspect := by
  obtain ⟨hname, hlength⟩ := h.declaration_eq
  simp only [inspect, hname, hlength, h.isInitializer_eq]

lemma Getter.Relabeled.name_eq (h : g.Relabeled ρ w inner g') :
    g'.declaration.name = g.declaration.name := by
  obtain ⟨marks, -, hd⟩ := h.code
  exact hd.getter_name

lemma Getter.Relabeled.inspect_eq (h : g.Relabeled ρ w inner g') : g'.inspect = g.inspect := by
  simp only [inspect, h.name_eq]

lemma Callable.Relabeled.arity_eq (h : k.Relabeled ρ w k') : k'.arity = k.arity := by
  cases h with
  | function hf => exact hf.declaration_eq.2
  | _ => rfl

lemma Callable.Relabeled.looksLike (h : k.Relabeled ρ w k') : k.LooksLike k' := by
  cases h with
  | function hf =>
    refine ⟨?_, hf.inspect_eq, congrArg (fun f => [Reference.frame f]) hf.closure_eq⟩
    simp only [Callable.display, hf.declaration_eq.1]
  | getter hg =>
    refine ⟨?_, hg.inspect_eq, congrArg (fun f => [Reference.frame f]) hg.closure_eq⟩
    simp only [Callable.display, hg.name_eq]
  | builtin b => exact ⟨rfl, rfl, rfl⟩
  | hostMethod method receiver => exact ⟨rfl, rfl, rfl⟩

/-- Two classes with related members are the same but for relabelled code. -/
lemma Class.relabeled_of_related {name : String} {ancestors : List ClassId}
    {methods methods' : Record Function} {getters getters' : Record Getter}
    {host : Option HostClass}
    (hm : Record.Related (Function.Relabeled ρ w [false]) methods methods')
    (hg : Record.Related (Getter.Relabeled ρ w [false]) getters getters') :
    Class.Relabeled ρ w ⟨name, ancestors, methods, getters, host⟩
      ⟨name, ancestors, methods', getters', host⟩ where
  looksLike := by
    have hmethods := hm.map_eq fun _ _ hf => congrArg Reference.frame hf.closure_eq
    have hgetters := hg.map_eq fun _ _ hg => congrArg Reference.frame hg.closure_eq
    refine ⟨rfl, rfl, ?_, ?_⟩
    · funext superclass
      simp only [inspect, hm.inspectRecord_eq fun _ _ hf => hf.inspect_eq,
        hg.inspectRecord_eq fun _ _ hg => hg.inspect_eq]
    · simp only [references, hmethods, hgetters]
  host_eq := rfl
  method := hm.get?
  getter := hg.get?

end

/-! ### Stores -/

/-- Two frames are the same but for the spelling of names, if their scope has the mark. -/
structure Frame.Relabeled (ρ : Relabeling) (spot : Spot) (frame frame' : Frame) : Prop where
  outer_eq : frame.outer = spot.outer
  fresh : spot.mark = true → frame.vars.has ρ.new = false
  eq : frame' = { frame with vars := ρ.record spot.mark frame.vars }

/-- Two stores are the same but for relabelled code and the spelling of names in marked frames. -/
structure Store.Relabeled (ρ : Relabeling) (w : Spots) (s s' : Store) : Prop where
  size_eq : s.frames.size = w.length
  size_eq' : s'.frames.size = w.length
  globals : w[Machine.globals]? = some ⟨[], false⟩
  frame : ∀ (f : FrameId) (spot : Spot), w[f]? = some spot → ∃ frame frame',
    s.frames[f]? = some frame ∧ s'.frames[f]? = some frame' ∧ frame.Relabeled ρ spot frame'
  callables : Entrywise (Callable.Relabeled ρ w) s.callables s'.callables
  classes : Entrywise (Class.Relabeled ρ w) s.classes s'.classes
  instances_eq : s'.instances = s.instances

/-- Two outcomes are the same, except that a name that is not where its distance says may have its
other spelling. -/
inductive OutcomeRelabeled {α : Type} (ρ : Relabeling) : Except Cause α → Except Cause α → Prop
  | same (outcome : Except Cause α) : OutcomeRelabeled ρ outcome outcome
  | missing (distance : Nat) : OutcomeRelabeled ρ (.error (.noBinding ρ.old distance))
      (.error (.noBinding ρ.new distance))

lemma outcomeRelabeled_noBinding {α : Type} (ρ : Relabeling) (mark : Bool) (name : String)
    (distance : Nat) : OutcomeRelabeled (α := α) ρ (.error (.noBinding name distance))
      (.error (.noBinding (ρ.word mark name) distance)) := by
  unfold Relabeling.word
  split
  · next hold =>
    obtain ⟨-, rfl⟩ := hold
    exact .missing distance
  · exact .same _

namespace Store

/-- What comes out of two stores is related, and the stores go along with one another, with more
spots perhaps. -/
def GoAlong {α β : Type} (ρ : Relabeling) (w : Spots) (R : Spots → α → β → Prop)
    (x : α × Store) (x' : β × Store) : Prop :=
  ∃ w', w <+: w' ∧ R w' x.1 x'.1 ∧ x.2.Relabeled ρ w' x'.2

namespace Relabeled

variable {ρ : Relabeling} {w : Spots} {s s' : Store} (h : s.Relabeled ρ w s') {f : FrameId}
  {marks : List Bool} {name : String}

include h

lemma chain_eq {spot : Spot} (hf : w[f]? = some spot) :
    s.chain f = f :: spot.outer ∧ s'.chain f = f :: spot.outer := by
  obtain ⟨frame, frame', hs, hs', ho, -, rfl⟩ := h.frame f spot hf
  simp [chain, hs, hs', ho]

/-- What a frame holds under a name, it holds under the spelling that its scope has. -/
lemma slot?_eq {mark : Bool} (hf : w.HasMark f mark) (hn : mark = true → name ≠ ρ.new) :
    s'.slot? f (ρ.word mark name) = s.slot? f name := by
  obtain ⟨spot, hf, rfl⟩ := hf
  obtain ⟨frame, frame', hs, hs', -, hfresh, rfl⟩ := h.frame f spot hf
  simp only [slot?, hs, hs', Option.bind_some]
  exact Relabeling.get?_record hfresh hn

/-- Frames that refer to the same, callables and classes that look alike. -/
lemma looksLike : s.LooksLike s' where
  frames f := by
    by_cases hf : f < w.length
    · obtain ⟨frame, frame', hs, hs', -, -, rfl⟩ :=
        h.frame f _ (List.getElem?_eq_getElem hf)
      rw [hs, hs']
      refine .some ?_
      simp only [Frame.references, Relabeling.record, List.flatMap_map]
    · have hf := Nat.le_of_not_lt hf
      rw [Array.getElem?_eq_none (h.size_eq ▸ hf), Array.getElem?_eq_none (h.size_eq' ▸ hf)]
      exact .none
  callables := h.callables.mono fun _ _ hk => hk.looksLike
  classes := h.classes.mono fun _ _ hc => hc.looksLike
  instances_eq := h.instances_eq

/-! ### Variables -/

/-- At a distance is no frame, or else one with the mark that is there. -/
lemma at_distance (hf : w.HasMarks f marks) (distance : Nat) :
    s'.chain f = s.chain f ∧
      (((s.chain f)[distance]? = none ∧ Relabeling.markAt marks (some distance) = false) ∨
        ∃ g, (s.chain f)[distance]? = some g ∧
          w.HasMark g (Relabeling.markAt marks (some distance))) := by
  obtain ⟨spot, hspot, hms⟩ := hf
  obtain ⟨hc, hc'⟩ := h.chain_eq hspot
  rw [hc, hc']
  refine ⟨rfl, ?_⟩
  have hd := forall₂_getElem? hms distance
  simp only [Relabeling.markAt, Option.bind_some]
  revert hd
  generalize (f :: spot.outer)[distance]? = g?
  generalize marks[distance]? = mark?
  rintro (hg | _)
  · exact .inr ⟨_, rfl, hg⟩
  · exact .inl ⟨rfl, rfl⟩

/-- The variable at a distance has the same value. -/
lemma getAt (hf : w.HasMarks f marks) (hn : true ∈ marks → name ≠ ρ.new) (distance : Nat) :
    OutcomeRelabeled ρ (s.getAt f distance name)
      (s'.getAt f distance (ρ.word (Relabeling.markAt marks (some distance)) name)) := by
  obtain ⟨hc, hd⟩ := h.at_distance hf distance
  unfold Store.getAt
  rw [hc]
  rcases hd with ⟨hd, hmark⟩ | ⟨g, hd, hg⟩
  · rw [hd, hmark, ρ.word_false]
    exact .same _
  · rw [hd]
    dsimp only
    rw [h.slot?_eq hg fun hmark => hn (Relabeling.mem_of_markAt hmark)]
    cases s.slot? g name with
    | some slot => exact .same _
    | none => exact outcomeRelabeled_noBinding ρ _ name 0

/-- The variable at a distance is in the same frame, which has the mark that is there. -/
lemma locateAt (hf : w.HasMarks f marks) (hn : true ∈ marks → name ≠ ρ.new) (distance : Nat) :
    OutcomeRelabeled ρ (s.locateAt f distance name)
        (s'.locateAt f distance (ρ.word (Relabeling.markAt marks (some distance)) name)) ∧
      ∀ g, s.locateAt f distance name = .ok g →
        w.HasMark g (Relabeling.markAt marks (some distance)) := by
  obtain ⟨hc, hd⟩ := h.at_distance hf distance
  unfold Store.locateAt
  rw [hc]
  rcases hd with ⟨hd, hmark⟩ | ⟨g, hd, hg⟩
  · rw [hd, hmark, ρ.word_false]
    exact ⟨.same _, nofun⟩
  · rw [hd]
    dsimp only
    rw [h.slot?_eq hg fun hmark => hn (Relabeling.mem_of_markAt hmark)]
    split
    · exact ⟨.same _, fun _ he => Except.ok.inj he ▸ hg⟩
    · exact ⟨outcomeRelabeled_noBinding ρ _ name 0, nofun⟩

lemma hasMark_globals : w.HasMark Machine.globals false :=
  ⟨_, h.globals, rfl⟩

/-- Global variables keep their spelling. -/
lemma slot?_globals (name : String) :
    s'.slot? Machine.globals name = s.slot? Machine.globals name := by
  have hs : s'.slot? Machine.globals (ρ.word false name) = s.slot? Machine.globals name :=
    h.slot?_eq h.hasMark_globals nofun
  rwa [ρ.word_false] at hs

lemma get_globals (name : String) :
    s'.get Machine.globals name = s.get Machine.globals name := by
  obtain ⟨hc, hc'⟩ := h.chain_eq h.globals
  simp only [Store.get, hc, hc', List.findSome?_cons, List.findSome?_nil, h.slot?_globals]

lemma locate_globals (name : String) :
    s'.locate Machine.globals name = s.locate Machine.globals name ∧
      ∀ g, s.locate Machine.globals name = .ok g → w.HasMark g false := by
  obtain ⟨hc, hc'⟩ := h.chain_eq h.globals
  unfold Store.locate
  simp only [hc, hc', List.find?_cons, List.find?_nil, h.slot?_globals, true_and]
  intro g hg
  split at hg
  · next hfind =>
    split at hfind
    · obtain rfl := Option.some.inj hfind
      obtain rfl := Except.ok.inj hg
      exact h.hasMark_globals
    · cases hfind
  · cases hg

/-- A variable is written under the spelling that its scope has. -/
lemma setSlot {mark : Bool} (hf : w.HasMark f mark) (hn : mark = true → name ≠ ρ.new)
    (slot : Option Value) :
    (s.setSlot f name slot).Relabeled ρ w (s'.setSlot f (ρ.word mark name) slot) where
  size_eq := by simp [Store.setSlot, h.size_eq]
  size_eq' := by simp [Store.setSlot, h.size_eq']
  globals := h.globals
  frame g spot hg := by
    obtain ⟨frame, frame', hs, hs', ho, hfresh, rfl⟩ := h.frame g spot hg
    simp only [Store.setSlot, Array.getElem?_modify, hs, hs']
    split
    · next he =>
      subst he
      obtain ⟨spot', hspot, rfl⟩ := hf
      obtain rfl : spot = spot' := Option.some.inj (hg.symm.trans hspot)
      refine ⟨_, _, rfl, rfl, ho, fun hm => ?_, ?_⟩
      · exact Relabeling.has_insert_new (hfresh hm) (hn hm)
      · rw [Relabeling.record_insert hfresh hn]
    · exact ⟨frame, _, rfl, rfl, ho, hfresh, rfl⟩
  callables := h.callables
  classes := h.classes
  instances_eq := h.instances_eq

/-! ### What is added -/

/-- A frame is opened with the same variables, spelled as the scope that it is for has them. -/
lemma openFrame (hf : w.HasMarks f marks) (kind : FrameKind) (mark : Bool)
    (vars : Record (Option Value)) (hv : mark = true → vars.has ρ.new = false) :
    GoAlong ρ w (fun w' g g' => g' = g ∧ w'.HasMarks g (mark :: marks))
      (s.openFrame kind f vars) (s'.openFrame kind f (ρ.record mark vars)) := by
  obtain ⟨spot, hspot, -⟩ := id hf
  obtain ⟨hc, hc'⟩ := h.chain_eq hspot
  have hgrown : w <+: w ++ [⟨f :: spot.outer, mark⟩] := List.prefix_append _ _
  have hnew : (s.openFrame kind f vars).1 = w.length := h.size_eq
  refine ⟨_, hgrown, ⟨h.size_eq'.trans h.size_eq.symm, ?_⟩, ?_⟩
  · rw [hnew]
    exact hf.opened hspot mark
  refine ⟨?_, ?_, Spots.getElem?_mono hgrown h.globals, fun g spot' hg => ?_, ?_, ?_,
    h.instances_eq⟩
  · simp [Store.openFrame, addFrame, h.size_eq]
  · simp [Store.openFrame, addFrame, h.size_eq']
  · by_cases hlt : g < w.length
    · rw [List.getElem?_append_left hlt] at hg
      obtain ⟨frame, frame', hs, hs', hr⟩ := h.frame g spot' hg
      exact ⟨frame, frame', getElem?_push_of_some _ hs, getElem?_push_of_some _ hs', hr⟩
    · have hle := Nat.le_of_not_lt hlt
      rw [List.getElem?_append_right hle, List.getElem?_singleton] at hg
      split at hg
      · next hz =>
        obtain rfl : g = w.length := Nat.le_antisymm (Nat.le_of_sub_eq_zero hz) hle
        obtain rfl := Option.some.inj hg
        refine ⟨⟨kind, s.chain f, vars⟩, ⟨kind, s'.chain f, ρ.record mark vars⟩, ?_, ?_, ?_⟩
        · rw [← h.size_eq]
          exact Array.getElem?_push_size
        · rw [← h.size_eq']
          exact Array.getElem?_push_size
        · exact ⟨hc, hv, by rw [hc, hc']⟩
      · cases hg
  · exact h.callables.mono fun _ _ hk => hk.mono hgrown
  · exact h.classes.mono fun _ _ hk => hk.mono hgrown

/-- A receiver is put into a frame of its own, which has no mark. -/
lemma openReceiver (hf : w.HasMarks f marks) (receiver : Value) :
    GoAlong ρ w (fun w' g g' => g' = g ∧ w'.HasMarks g (false :: marks))
      (s.openReceiver f receiver) (s'.openReceiver f receiver) := by
  have hopened := h.openFrame hf .receiver false [("this", some receiver)] nofun
  rwa [ρ.record_false] at hopened

lemma addCallable {k k' : Callable} (hk : k.Relabeled ρ w k') :
    GoAlong ρ w (fun _ => Eq) (s.addCallable k) (s'.addCallable k') := by
  refine ⟨w, List.prefix_rfl, h.callables.size_eq.symm, ?_⟩
  exact ⟨h.size_eq, h.size_eq', h.globals, h.frame, h.callables.push hk, h.classes, h.instances_eq⟩

lemma addFunction {f f' : Function} (hf : f.Relabeled ρ w [] f') :
    GoAlong ρ w (fun _ => Eq) (s.addFunction f) (s'.addFunction f') := by
  obtain ⟨w', hw, hid, hs⟩ := h.addCallable (.function hf)
  exact ⟨w', hw, congrArg Value.callable hid, hs⟩

lemma addGetter {g g' : Getter} (hg : g.Relabeled ρ w [] g') :
    GoAlong ρ w (fun _ => Eq) (s.addGetter g) (s'.addGetter g') := by
  obtain ⟨w', hw, hid, hs⟩ := h.addCallable (.getter hg)
  exact ⟨w', hw, congrArg Value.callable hid, hs⟩

lemma addClass {c c' : Class} (hc : c.Relabeled ρ w c') :
    (s'.addClass c').1 = (s.addClass c).1 ∧
      (s.addClass c).2.Relabeled ρ w (s'.addClass c').2 :=
  ⟨h.classes.size_eq, h.size_eq, h.size_eq', h.globals, h.frame, h.callables, h.classes.push hc,
    h.instances_eq⟩

/-- Instances are the same in both stores, whatever becomes of them. -/
lemma withInstances (change : Array Instance → Array Instance) :
    Relabeled ρ w { s with instances := change s.instances }
      { s' with instances := change s'.instances } :=
  ⟨h.size_eq, h.size_eq', h.globals, h.frame, h.callables, h.classes,
    congrArg change h.instances_eq⟩

/-- A method is bound to a receiver. -/
lemma bindFunction {f f' : Function} (hf : f.Relabeled ρ w [false] f')
    (receiver : Value) :
    GoAlong ρ w (fun w' b b' => b.Relabeled ρ w' [] b') (s.bindFunction f receiver)
      (s'.bindFunction f' receiver) := by
  obtain ⟨marks, hm, hd⟩ := hf.code
  obtain ⟨w', hw, ⟨hframe, hm'⟩, hs⟩ := h.openReceiver hm receiver
  rw [Store.bindFunction, Store.bindFunction, hf.closure_eq]
  exact ⟨w', hw, ⟨hframe, hf.isInitializer_eq, _, hm', hd⟩, hs⟩

/-- A getter is bound to a receiver. -/
lemma bindGetter {g g' : Getter} (hg : g.Relabeled ρ w [false] g')
    (receiver : Value) :
    GoAlong ρ w (fun w' b b' => b.Relabeled ρ w' [] b') (s.bindGetter g receiver)
      (s'.bindGetter g' receiver) := by
  obtain ⟨marks, hm, hd⟩ := hg.code
  obtain ⟨w', hw, ⟨hframe, hm'⟩, hs⟩ := h.openReceiver hm receiver
  rw [Store.bindGetter, Store.bindGetter, hg.closure_eq]
  exact ⟨w', hw, ⟨hframe, _, hm', hd⟩, hs⟩

/-! ### What is found -/

lemma lineage_eq (c : ClassId) : s'.lineage c = s.lineage c := by
  rw [lineage, lineage, h.classes.map_getElem? fun _ _ hc => hc.looksLike.ancestors_eq]

/-- Members are found in the same class of a lineage. -/
lemma findSome? {α β : Type} {R : α → β → Prop} {find : Class → Option α}
    {find' : Class → Option β}
    (hR : ∀ c c' : Class, c.Relabeled ρ w c' → Option.Rel R (find c) (find' c'))
    (cs : List ClassId) :
    Option.Rel R (cs.findSome? fun k => (s.classes[k]?).bind find)
      (cs.findSome? fun k => (s'.classes[k]?).bind find') := by
  induction cs with
  | nil => exact .none
  | cons k rest ih =>
    have hk := rel_bind (h.classes k) hR
    rw [List.findSome?_cons, List.findSome?_cons]
    revert hk
    generalize (s.classes[k]?).bind find = a?
    generalize (s'.classes[k]?).bind find' = b?
    rintro (hab | _)
    · exact .some hab
    · exact ih

lemma findMethod? (c : ClassId) (name : String) :
    Option.Rel (Function.Relabeled ρ w [false]) (s.findMethod? c name)
      (s'.findMethod? c name) := by
  rw [Store.findMethod?, Store.findMethod?, h.lineage_eq]
  exact h.findSome? (fun _ _ hc => hc.method name) _

lemma findGetter? (c : ClassId) (name : String) :
    Option.Rel (Getter.Relabeled ρ w [false]) (s.findGetter? c name) (s'.findGetter? c name) := by
  rw [Store.findGetter?, Store.findGetter?, h.lineage_eq]
  exact h.findSome? (fun _ _ hc => hc.getter name) _

lemma host_eq (c : ClassId) :
    (s'.classes[c]?).bind Class.host = (s.classes[c]?).bind Class.host := by
  have hhost := congrArg (·.bind id) (h.classes.map_getElem? (fun _ _ hc => hc.host_eq) c)
  simpa only [Option.bind_map, Function.id_comp] using hhost

lemma findHostMethod?_eq (c : ClassId) (name : String) :
    s'.findHostMethod? c name = s.findHostMethod? c name := by
  have hhost := congrArg (Option.bind · (HostClass.method? · name)) (h.host_eq c)
  simpa only [Store.findHostMethod?, Option.bind_assoc] using hhost

lemma classArity_eq (c : ClassId) : s'.classArity c = s.classArity c := by
  have hinit := h.findMethod? c initializerName
  rw [classArity, classArity, h.host_eq]
  revert hinit
  generalize s.findMethod? c initializerName = f?
  generalize s'.findMethod? c initializerName = f'?
  rintro (hf | _)
  · simp only [Option.map_some, hf.declaration_eq.2]
  · rfl

lemma getter? (value : Value) :
    Option.Rel (Getter.Relabeled ρ w []) (s.getter? value) (s'.getter? value) := by
  cases value with
  | callable id =>
    have hk := h.callables id
    simp only [Store.getter?]
    revert hk
    generalize s.callables[id]? = k?
    generalize s'.callables[id]? = k'?
    rintro (hk | _)
    · cases hk with
      | getter hg => exact .some hg
      | _ => exact .none
    · exact .none
  | _ => exact .none

/-- A property is the same, and the stores go along with what it adds. -/
theorem property (i : InstanceId) (name : String) :
    GoAlong ρ w (fun _ => Eq) (s.property i name) (s'.property i name) := by
  have hgetter := fun c => h.findGetter? c name
  have hmethod := fun c => h.findMethod? c name
  have same {outcome : Except Cause Value} :
      GoAlong ρ w (fun _ => Eq) (outcome, s) (outcome, s') :=
    ⟨w, List.prefix_rfl, rfl, h⟩
  unfold Store.property
  rw [h.instances_eq]
  cases s.instances[i]? with
  | none => exact same
  | some inst =>
    dsimp only
    cases inst.fields.get? name with
    | some value => exact same
    | none =>
      dsimp only
      have hgetter := hgetter inst.classId
      have hmethod := hmethod inst.classId
      rw [h.findHostMethod?_eq]
      revert hgetter hmethod
      generalize s.findGetter? inst.classId name = g?
      generalize s'.findGetter? inst.classId name = g'?
      generalize s.findMethod? inst.classId name = f?
      generalize s'.findMethod? inst.classId name = f'?
      rintro (hg | _) hmethod
      · obtain ⟨w', hw, hbound, hs⟩ := h.bindGetter hg (.instanceRef i)
        obtain ⟨w'', hw', hvalue, hs'⟩ := hs.addGetter hbound
        exact ⟨w'', hw.trans hw', congrArg Except.ok hvalue, hs'⟩
      · rcases hmethod with (hf | _)
        · obtain ⟨w', hw, hbound, hs⟩ := h.bindFunction hf (.instanceRef i)
          obtain ⟨w'', hw', hvalue, hs'⟩ := hs.addFunction hbound
          exact ⟨w'', hw.trans hw', congrArg Except.ok hvalue, hs'⟩
        · dsimp only
          cases s.findHostMethod? inst.classId name with
          | none => exact same
          | some method =>
            obtain ⟨w', hw, hid, hs⟩ := h.addCallable (.hostMethod method i)
            exact ⟨w', hw, congrArg (fun id => Except.ok (Value.callable id)) hid, hs⟩

end Relabeled

end Store

end Scripting
