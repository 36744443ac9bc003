import Scripting.Proofs.Eval.Alignment
import Scripting.Proofs.Store.History

/-!
# Variables that are missing at their distance

An access at a distance is about one frame, the one that so many links lead to. It misses if there
is no such frame or if the frame does not have the variable. The fault tells a distance: the
requested one if there is no frame, but zero if there is one, for that frame is asked on its own. So
what is told is what was requested only where the chain is too short or no link had to be followed.
An access that misses changes nothing.
-/

namespace Scripting

namespace Cause

/-- The wording of a fault about a binding tells the distance. -/
lemma text_noBinding_inj {name : String} {distance other : Nat} :
    (noBinding name distance).text = (noBinding name other).text ↔ distance = other := by
  constructor
  · intro h
    have hrepr : distance.repr = other.repr := (String.append_right_inj _).mp h
    have hdigits : Nat.toDigits 10 distance = Nat.toDigits 10 other := by
      rw [← Nat.toList_repr, hrepr, Nat.toList_repr]
    calc distance
      _ = Nat.ofDigitChars 10 (Nat.toDigits 10 distance) 0 := Nat.ofDigitChars_ten_toDigits.symm
      _ = Nat.ofDigitChars 10 (Nat.toDigits 10 other) 0 := by rw [hdigits]
      _ = other := Nat.ofDigitChars_ten_toDigits
  · rintro rfl
    rfl

end Cause

namespace Store

variable {s : Store} {f : FrameId} {distance : Nat} {name : String}

/-- The frame at a distance does not have a variable, or there is no such frame. -/
def Misses (s : Store) (f : FrameId) (distance : Nat) (name : String) : Prop :=
  ∀ g, climb s.enclosing? distance f = some g → s.slot? g name = none

/-- The distance that is told when an access misses. -/
def toldDistance (s : Store) (f : FrameId) (distance : Nat) : Nat :=
  if climb s.enclosing? distance f = none then distance else 0

lemma toldDistance_eq_iff : s.toldDistance f distance = distance ↔
    distance = 0 ∨ climb s.enclosing? distance f = none := by
  unfold toldDistance
  split
  · next hc => exact ⟨fun _ => .inr hc, fun _ => rfl⟩
  · next hc => exact ⟨fun h => .inl h.symm, fun h => (h.resolve_right hc).symm⟩

/-- The frames of a chain are those that links lead to. -/
lemma enclosing?_eq_of_descends {next? : FrameId → Option FrameId} (h : Descends next? s.chain) :
    s.enclosing? = next? := by
  funext f
  rw [enclosing?, h.path_eq f, List.tail_cons]
  cases next? f with
  | none => rfl
  | some g => rw [Option.map_some, Option.getD_some, h.path_eq g, List.head?_cons]

section

variable (hs : Descends s.enclosing? s.chain)

include hs

/-- A search at a distance fails exactly if it misses. -/
lemma locateAt_eq_error_iff {cause : Cause} : s.locateAt f distance name = .error cause ↔
    s.Misses f distance name ∧ cause = .noBinding name (s.toldDistance f distance) := by
  unfold locateAt Misses toldDistance
  rw [← hs.climb_eq]
  cases climb s.enclosing? distance f with
  | none => simp [eq_comm]
  | some g =>
    cases hg : s.slot? g name with
    | none => simp [hg, eq_comm]
    | some slot => simp [hg]

lemma getAt_eq_noBinding_iff {other : String} {d : Nat} :
    s.getAt f distance name = .error (.noBinding other d) ↔
      s.Misses f distance name ∧ other = name ∧ d = s.toldDistance f distance := by
  rw [getAt_eq, ← Cause.noBinding.injEq, ← locateAt_eq_error_iff hs]
  cases s.locateAt f distance name with
  | error cause => simp [Except.bind]
  | ok g =>
    -- a frame that was found is read, which is no fault about a binding
    have hread : ((s.slot? g name).map readSlot).getD (.error (.undefinedVariable name)) ≠
        .error (.noBinding other d) := by
      cases s.slot? g name with
      | none => simp
      | some slot => cases slot <;> simp [readSlot]
    simpa [Except.bind] using hread

lemma assignAt_eq_error_iff {value : Value} {cause : Cause} :
    s.assignAt f distance name value = .error cause ↔
      s.Misses f distance name ∧ cause = .noBinding name (s.toldDistance f distance) := by
  rw [assignAt, ← locateAt_eq_error_iff hs]
  cases s.locateAt f distance name with
  | error cause => simp [Except.map]
  | ok g => simp [Except.map]

end

end Store

namespace FrameHistory

/-- The chains of frames that a history has opened follow the links between them. -/
lemma descends_chain {h : FrameHistory} (hv : h.Valid) :
    Descends h.store.enclosing? h.store.chain := by
  have hd := (reflects hv).descends
  rwa [Store.enclosing?_eq_of_descends hd]

/-- An assignment that fails leaves all frames as they are. -/
lemma step_of_assignAt_error {s : Store} {f : FrameId} {distance : Nat} {name : String}
    {value : Value} {cause : Cause} (h : s.assignAt f distance name value = .error cause) :
    step s (.assignAt f distance name value) = s := by
  rw [step, FrameOp.perform, h]
  rfl

end FrameHistory

namespace Eval

variable {m : Machine} {id : NodeId} {token : Token} {distance : Nat}

/-- A variable that is missing at the distance of its node is neither read nor written: both end in
the fault of the search, on the line of the name, and nothing has changed. -/
lemma access_of_misses (hs : Descends m.store.enclosing? m.store.chain)
    (hd : m.distances.get? id = some distance) (hm : m.store.Misses m.scope distance token.lexeme)
    (value : Value) :
    let told := m.store.toldDistance m.scope distance
    readVariable id token m = .error (.fault ⟨.noBinding token.lexeme told, token.line⟩) m ∧
      writeVariable id token value m =
        .error (.fault ⟨.noBinding token.lexeme told, token.line⟩) m := by
  intro told
  constructor
  · have hread : variableValue m id token.lexeme = .error (.noBinding token.lexeme told) := by
      simp only [variableValue, hd]
      exact (Store.getAt_eq_noBinding_iff hs).mpr ⟨hm, rfl, rfl⟩
    rw [readVariable_apply, hread]
    rfl
  · have hwrite : variableFrame m id token.lexeme = .error (.noBinding token.lexeme told) := by
      simp only [variableFrame, hd]
      exact (Store.locateAt_eq_error_iff hs).mpr ⟨hm, rfl⟩
    exact writeVariable_of_error hwrite value

end Eval

namespace Store

/-- **What is told of a variable that is missing at its distance.** Let chains follow the links
between frames, as they do after any history of operations on frames and at any moment of a session.
Whatever their lengths and whatever the frames hold, reading and assigning at a distance end in a
fault about a binding exactly if there is no frame at the distance or it does not have the variable.
The fault is about that variable, and its distance is the requested one if there is no frame, and
zero if there is one. So its wording is that of the requested distance only where this is zero or
the chain is too short. No frame is changed, and an expression that reads or assigns the variable
ends in this very fault on the machine as it was. -/
theorem missing_variable_told {s : Store} (hs : Descends s.enclosing? s.chain) (f : FrameId)
    (distance : Nat) (name : String) (value : Value) :
    let told := s.toldDistance f distance
    (∀ other d, s.getAt f distance name = .error (.noBinding other d) ↔
      s.Misses f distance name ∧ other = name ∧ d = told) ∧
    (∀ cause, s.assignAt f distance name value = .error cause ↔
      s.Misses f distance name ∧ cause = .noBinding name told) ∧
    ((Cause.noBinding name told).text = (Cause.noBinding name distance).text ↔
      distance = 0 ∨ climb s.enclosing? distance f = none) ∧
    (s.Misses f distance name →
      FrameHistory.step s (.assignAt f distance name value) = s ∧
      ∀ (m : Machine) (id : NodeId) (token : Token), m.store = s → m.scope = f →
        m.distances.get? id = some distance → token.lexeme = name →
          Eval.readVariable id token m =
            .error (.fault ⟨.noBinding name told, token.line⟩) m ∧
          Eval.writeVariable id token value m =
            .error (.fault ⟨.noBinding name told, token.line⟩) m) := by
  intro told
  refine ⟨fun other d => getAt_eq_noBinding_iff hs, fun cause => assignAt_eq_error_iff hs,
    Cause.text_noBinding_inj.trans toldDistance_eq_iff, fun hm => ⟨?_, ?_⟩⟩
  · have hfails : s.assignAt f distance name value = .error (.noBinding name told) :=
      (assignAt_eq_error_iff hs).mpr ⟨hm, rfl⟩
    exact FrameHistory.step_of_assignAt_error hfails
  · rintro m id token rfl rfl hd rfl
    exact Eval.access_of_misses hs hd hm value

/-- A variable is in a frame and not in the one around it. Asked for one link away, it is said to be
missing at distance zero, where it is; asked for two links away, at distance two. -/
theorem missing_variable_told_one_link_away :
    let h : FrameHistory := [.new none, .new (some 0), .define 1 "a" (.bool true)]
    let s := h.store
    let m : Machine :=
      { Machine.start (.ofLimit none) [] .isolated 0 with
        store := s, scope := 1, distances := Distances.empty.record 7 1 }
    let token : Token := ⟨.identifier, "a", none, 3⟩
    (h.Valid ∧ Descends s.enclosing? s.chain ∧ s.getAt 1 0 "a" = .ok (.bool true)) ∧
    (s.Misses 1 1 "a" ∧ climb s.enclosing? 1 1 = some 0 ∧
      s.getAt 1 1 "a" = .error (.noBinding "a" 0) ∧
      s.assignAt 1 1 "a" .nil = .error (.noBinding "a" 0) ∧
      (Cause.noBinding "a" 0).text ≠ (Cause.noBinding "a" 1).text ∧
      FrameHistory.step s (.assignAt 1 1 "a" .nil) = s) ∧
    (s.Misses 1 2 "a" ∧ climb s.enclosing? 2 1 = none ∧
      s.getAt 1 2 "a" = .error (.noBinding "a" 2) ∧
      s.assignAt 1 2 "a" .nil = .error (.noBinding "a" 2)) ∧
    m.distances.get? 7 = some 1 ∧
      Eval.readVariable 7 token m = .error (.fault ⟨.noBinding "a" 0, 3⟩) m ∧
      Eval.writeVariable 7 token .nil m = .error (.fault ⟨.noBinding "a" 0, 3⟩) m := by
  intro h s m token
  have hv : h.Valid := by decide
  have hs : Descends s.enclosing? s.chain := FrameHistory.descends_chain hv
  have hone : climb s.enclosing? 1 1 = some 0 := rfl
  have htwo : climb s.enclosing? 2 1 = none := rfl
  have houter : s.Misses 1 1 "a" := by
    intro g hg
    obtain rfl : 0 = g := Option.some.inj (hone.symm.trans hg)
    rfl
  have hoff : s.Misses 1 2 "a" := by
    intro g hg
    exact absurd (htwo.symm.trans hg) (by simp)
  have hd : m.distances.get? 7 = some 1 := by decide
  obtain ⟨hget, hassign, htext, hkept⟩ := missing_variable_told hs 1 1 "a" .nil
  obtain ⟨hgetOff, hassignOff, -, -⟩ := missing_variable_told hs 1 2 "a" .nil
  obtain ⟨hstep, haccess⟩ := hkept houter
  obtain ⟨hread, hwrite⟩ := haccess m 7 token rfl rfl hd rfl
  refine ⟨⟨hv, hs, rfl⟩, ⟨houter, hone, (hget "a" 0).mpr ⟨houter, rfl, rfl⟩,
    (hassign _).mpr ⟨houter, rfl⟩, fun h => ?_, hstep⟩, ⟨hoff, htwo,
    (hgetOff "a" 2).mpr ⟨hoff, rfl, rfl⟩, (hassignOff _).mpr ⟨hoff, rfl⟩⟩, hd, hread, hwrite⟩
  rcases htext.mp h with hzero | hnone
  · exact absurd hzero (by decide)
  · exact absurd (hone.symm.trans hnone) (by simp)

end Store

end Scripting
