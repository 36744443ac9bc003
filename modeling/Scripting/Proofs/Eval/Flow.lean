import Scripting.Proofs.Eval.Calls
import Scripting.Proofs.Program.Shape

/-!
# Where `break` and `return` lead

A statement asks the loop around it to end only if it contains a `break` for that loop, and the
function around it only if it contains a `return` of that function. This holds of every statement
on every machine.
-/

namespace Scripting

/-- A statement may end so, if it is known what it contains. -/
def Completion.Allowed (breaks returns : Prop) : Completion → Prop
  | .normal => True
  | .broke => breaks
  | .returned _ => returns

lemma Completion.Allowed.mono {breaks returns breaks' returns' : Prop} {completion : Completion}
    (h : completion.Allowed breaks returns) (hb : breaks → breaks') (hr : returns → returns') :
    completion.Allowed breaks' returns' := by
  cases completion with
  | normal => exact trivial
  | broke => exact hb h
  | returned value => exact hr h

namespace Eval

/-- How a task may end, going by what it contains. -/
def Task.Flows : (t : Task) → t.Result → Prop
  | .stmt s, completion => completion.Allowed s.Breaks s.Returns
  | .loop _ body, completion => completion.Allowed False body.Returns
  | .stmts ss, completion => completion.Allowed (∃ s ∈ ss, s.Breaks) (∃ s ∈ ss, s.Returns)
  | _, _ => True

/-- Nothing is asked for, and statements end as they may. -/
def flowLaw : Law where
  ready := fun _ _ => True
  done := fun _ c r _ => c.task.Flows r
  stopped := fun _ _ _ _ => True

/-- Plans of which nothing is asked keep the law. -/
lemma Plan.keeps_flowLaw {α : Type} {steps : Nat} {trail : List Call}
    {result : α → Machine → Prop} (p : Plan α) (m : Machine) (h : ∀ a after, result a after) :
    p.Keeps flowLaw steps trail result (fun _ _ => True) m := by
  induction p generalizing m with
  | done a => exact h a m
  | act x next ih => exact ⟨fun g after _ => ih g after, fun _ _ _ => trivial⟩
  | call mode t next ih => exact ⟨trivial, fun r after _ _ => ih r _⟩

variable {steps : Nat} {trail : List Call}

lemma stmtPlan_keeps_flowLaw (s : Stmt) (m : Machine) :
    (Task.stmtPlan s).Keeps flowLaw steps trail
      (fun completion _ => completion.Allowed s.Breaks s.Returns) (fun _ _ => True) m := by
  cases s with
  | expression value => exact ⟨trivial, fun _ _ _ _ => trivial⟩
  | print keyword value =>
    refine ⟨trivial, fun _ _ _ _ => ⟨fun _ _ _ => ⟨fun _ _ _ => trivial, ?_⟩, ?_⟩⟩
    · exact fun _ _ _ => trivial
    · exact fun _ _ _ => trivial
  | var name initializer =>
    cases initializer with
    | none =>
      refine ⟨fun _ _ _ => ⟨fun _ _ _ => trivial, ?_⟩, ?_⟩
      · exact fun _ _ _ => trivial
      · exact fun _ _ _ => trivial
    | some value => exact ⟨trivial, fun _ _ _ _ => ⟨fun _ _ _ => trivial, fun _ _ _ => trivial⟩⟩
  | block body =>
    refine ⟨fun _ _ _ => ⟨fun _ _ _ => ⟨trivial, fun completion _ _ hd => ?_⟩, ?_⟩, ?_⟩
    · refine Completion.Allowed.mono hd ?_ ?_
      · rintro ⟨s, hs, hb⟩
        exact .block hs hb
      · rintro ⟨s, hs, hr⟩
        exact .block hs hr
    · exact fun _ _ _ => trivial
    · exact fun _ _ _ => trivial
  | function declaration =>
    refine ⟨fun _ _ _ => ⟨fun _ _ _ => trivial, ?_⟩, ?_⟩
    · exact fun _ _ _ => trivial
    · exact fun _ _ _ => trivial
  | getter declaration =>
    refine ⟨fun _ _ _ => ⟨fun _ _ _ => trivial, ?_⟩, ?_⟩
    · exact fun _ _ _ => trivial
    · exact fun _ _ _ => trivial
  | classDecl name superclass methods getters =>
    cases superclass with
    | none => exact ⟨fun _ _ _ => trivial, fun _ _ _ => trivial⟩
    | some superclass =>
      refine ⟨trivial, fun value _ _ _ => ?_⟩
      cases value with
      | classRef c => exact ⟨fun _ _ _ => trivial, fun _ _ _ => trivial⟩
      | _ => exact Plan.keeps_fail trivial
  | ifStmt condition consequent alternative =>
    refine ⟨trivial, fun value _ _ _ => ?_⟩
    dsimp only
    split
    · exact ⟨trivial, fun completion _ _ hd =>
        Completion.Allowed.mono hd .consequent .consequent⟩
    · cases alternative with
      | none => exact trivial
      | some other =>
        exact ⟨trivial, fun completion _ _ hd =>
          Completion.Allowed.mono hd .alternative .alternative⟩
  | whileStmt condition body =>
    exact ⟨trivial, fun completion _ _ hd => Completion.Allowed.mono hd False.elim .loop⟩
  | breakStmt keyword => exact Stmt.Breaks.here keyword
  | returnStmt keyword value =>
    cases value with
    | none => exact Stmt.Returns.here keyword none
    | some value => exact ⟨trivial, fun _ _ _ _ => Stmt.Returns.here keyword (some value)⟩

lemma loopPlan_keeps_flowLaw (condition : Expr) (body : Stmt) (m : Machine) :
    (Task.loopPlan condition body).Keeps flowLaw steps trail
      (fun completion _ => completion.Allowed False body.Returns) (fun _ _ => True) m := by
  refine ⟨trivial, fun value _ _ _ => ?_⟩
  dsimp only
  split
  · refine ⟨trivial, fun completion _ _ hd => ?_⟩
    cases completion with
    | normal => exact ⟨trivial, fun _ _ _ hd => hd⟩
    | broke => exact trivial
    | returned value => exact hd
  · exact trivial

lemma stmtsPlan_keeps_flowLaw (ss : List Stmt) (m : Machine) :
    (Task.stmtsPlan ss).Keeps flowLaw steps trail
      (fun completion _ => completion.Allowed (∃ s ∈ ss, s.Breaks) (∃ s ∈ ss, s.Returns))
      (fun _ _ => True) m := by
  cases ss with
  | nil => exact trivial
  | cons s rest =>
    refine ⟨trivial, fun completion _ _ hd => ?_⟩
    cases completion with
    | normal =>
      refine ⟨trivial, fun completion _ _ hd => Completion.Allowed.mono hd ?_ ?_⟩
      · rintro ⟨s', hs, hb⟩
        exact ⟨s', List.mem_cons_of_mem _ hs, hb⟩
      · rintro ⟨s', hs, hr⟩
        exact ⟨s', List.mem_cons_of_mem _ hs, hr⟩
    | broke => exact ⟨s, List.mem_cons_self, hd⟩
    | returned value => exact ⟨s, List.mem_cons_self, hd⟩

lemma flowLaw_sound : flowLaw.Sound where
  exhausted := fun _ _ _ _ => trivial
  keeps := by
    intro trail steps t m _
    cases t with
    | stmt s => exact stmtPlan_keeps_flowLaw s m
    | loop condition body => exact loopPlan_keeps_flowLaw condition body m
    | stmts ss => exact stmtsPlan_keeps_flowLaw ss m
    | _ => exact Plan.keeps_flowLaw _ m fun _ _ => trivial

/-- Every task ends as it may. -/
lemma Task.flows {steps : Nat} {t : Task} {m after : Machine} {r : t.Result}
    (h : t.perform steps m = .ok r after) : t.Flows r :=
  flowLaw_sound.settles steps [] t m r after trivial h

end Eval

end Scripting
