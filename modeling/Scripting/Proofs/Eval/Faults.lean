import Mathlib.Tactic.Common
import Scripting.Eval
import Scripting.Proofs.Store.Frames

/-!
# Ordinary faults

Most faults blame the program. The others say that the evaluator has lost its way: a local name is
not where its distance says, or a `super` is not bound to a class; or that a `break` came where no
loop is. Operators, global names and properties have ordinary faults only.
-/

namespace Scripting

/-- Faults that blame the evaluator or the table of distances, not the program. -/
def Cause.isInternal : Cause → Bool
  | .noBinding _ _ => true
  | .superUnresolved => true
  | .superNotClass _ => true
  | _ => false

/-- Causes that blame the program, and not for a `break`. -/
def Cause.Ordinary (cause : Cause) : Prop :=
  cause.isInternal = false ∧ cause ≠ .strayBreak

instance (cause : Cause) : Decidable cause.Ordinary :=
  inferInstanceAs (Decidable (_ ∧ _))

/-- The operators that have a meaning before an operand. -/
def unaryOperators : List TokenKind :=
  [.bang, .minus]

/-- The operators that have a meaning between the values of two operands. -/
def binaryOperators : List TokenKind :=
  [.elvis, .bangEqual, .equalEqual, .greater, .greaterEqual, .less, .lessEqual, .minus, .plus,
    .slash, .star]

namespace Cause

lemma ordinary_undefinedVariable (name : String) : (undefinedVariable name).Ordinary :=
  ⟨rfl, nofun⟩

lemma ordinary_undefinedProperty (name : String) : (undefinedProperty name).Ordinary :=
  ⟨rfl, nofun⟩

lemma ordinary_arityMismatch (expected got : Nat) : (arityMismatch expected got).Ordinary :=
  ⟨rfl, nofun⟩

end Cause

namespace Eval

lemma cause_of_applyUnary {operator : TokenKind} {operand : Value} {cause : Cause}
    (h : Value.applyUnary operator operand = .error cause) :
    cause = .operandNotNumber ∨ cause = .unknownUnary ∧ operator ∉ unaryOperators := by
  unfold Value.applyUnary at h
  split at h
  · split at h
    · cases h
    · cases h
      exact .inl rfl
  · cases h
  · next hminus hbang =>
    cases h
    exact .inr ⟨rfl, by simpa [unaryOperators] using ⟨hbang, hminus⟩⟩

lemma ordinary_of_applyUnary {operator : TokenKind} {operand : Value} {cause : Cause}
    (h : Value.applyUnary operator operand = .error cause) : cause.Ordinary := by
  rcases cause_of_applyUnary h with rfl | ⟨rfl, -⟩
  · decide
  · decide

lemma cause_of_compareBy {test : Ordering → Bool} {a b : Value} {cause : Cause}
    (h : Value.compareBy test a b = .error cause) : cause = .operandsNotOrdered := by
  unfold Value.compareBy Value.ordering? at h
  split at h
  · split_ifs at h <;> cases h
  · cases h
  · cases h
  · cases h
    rfl

lemma cause_of_onNumbers {operation : Float → Float → Float} {a b : Value} {cause : Cause}
    (h : Value.onNumbers operation a b = .error cause) : cause = .operandsNotNumbers := by
  unfold Value.onNumbers at h
  split at h
  · cases h
  · cases h
    rfl

lemma cause_of_divide {a b : Value} {cause : Cause} (h : Value.divide a b = .error cause) :
    cause = .zeroDivision ∨ cause = .operandsNotNumbers := by
  unfold Value.divide at h
  split at h
  · split_ifs at h
    cases h
    exact .inl rfl
  · cases h
    exact .inr rfl

lemma cause_of_add {store : Store} {a b : Value} {cause : Cause}
    (h : Value.add store a b = .error cause) : cause = .operandsNotAddable := by
  unfold Value.add at h
  split at h
  · cases h
  · cases h
  · cases h
  · cases h
    rfl

lemma cause_of_applyBinary {store : Store} {operator : TokenKind} {a b : Value} {cause : Cause}
    (h : Value.applyBinary store operator a b = .error cause) :
    cause ∈ [.operandsNotOrdered, .operandsNotNumbers, .zeroDivision, .operandsNotAddable] ∨
      cause = .unknownBinary ∧ operator ∉ binaryOperators := by
  unfold Value.applyBinary at h
  split at h
  case h_1 | h_2 => cases h
  case h_3 | h_4 | h_5 | h_6 =>
    obtain rfl := cause_of_compareBy h
    exact .inl (by decide)
  case h_7 | h_8 =>
    obtain rfl := cause_of_onNumbers h
    exact .inl (by decide)
  case h_9 =>
    rcases cause_of_divide h with rfl | rfl
    · exact .inl (by decide)
    · exact .inl (by decide)
  case h_10 =>
    obtain rfl := cause_of_add h
    exact .inl (by decide)
  case h_11 => split at h <;> cases h
  case h_12 =>
    cases h
    exact .inr ⟨rfl, by simp_all [binaryOperators]⟩

lemma ordinary_of_applyBinary {store : Store} {operator : TokenKind} {a b : Value}
    {cause : Cause} (h : Value.applyBinary store operator a b = .error cause) :
    cause.Ordinary := by
  have table : ∀ cause ∈ [Cause.operandsNotOrdered, .operandsNotNumbers, .zeroDivision,
      .operandsNotAddable], cause.Ordinary := by
    decide
  rcases cause_of_applyBinary h with hc | ⟨rfl, -⟩
  · exact table cause hc
  · decide

lemma ordinary_of_readSlot {slot : Option Value} {cause : Cause}
    (h : Store.readSlot slot = .error cause) : cause.Ordinary := by
  obtain rfl := Store.readSlot_error h
  decide

lemma ordinary_of_get {s : Store} {f : FrameId} {name : String} {cause : Cause}
    (h : s.get f name = .error cause) : cause.Ordinary := by
  rcases Store.get_error h with rfl | rfl
  · decide
  · exact Cause.ordinary_undefinedVariable name

lemma ordinary_of_locate {s : Store} {f : FrameId} {name : String} {cause : Cause}
    (h : s.locate f name = .error cause) : cause.Ordinary := by
  obtain rfl := Store.locate_error h
  exact Cause.ordinary_undefinedVariable name

lemma cause_of_property {s : Store} {i : InstanceId} {name : String} {cause : Cause}
    (h : (s.property i name).1 = .error cause) : cause = .undefinedProperty name := by
  unfold Store.property at h
  split at h
  · cases h
    rfl
  · split at h
    · cases h
    · split at h
      · cases h
      · split at h
        · cases h
        · split at h
          · cases h
          · cases h
            rfl

lemma ordinary_of_property {s : Store} {i : InstanceId} {name : String} {cause : Cause}
    (h : (s.property i name).1 = .error cause) : cause.Ordinary := by
  obtain rfl := cause_of_property h
  exact Cause.ordinary_undefinedProperty name

end Eval

end Scripting
