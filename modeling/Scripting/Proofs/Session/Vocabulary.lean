import Scripting.Proofs.Eval.Operators
import Scripting.Proofs.Program.Constants
import Scripting.Proofs.Session.Chains

/-!
# Programs that scripts can say

A program that was read has only operators, names, literals and superclasses as a script can say
them. So nothing that the evaluator provides for other trees ever happens: no run of it, with any
distances and after any other runs of programs that were read, ends with an operator unknown.
-/

namespace Scripting

open Resolution Eval

namespace Eval

variable {run : Run}

/-- In a program that was read, each unary, binary and logical operator is a known one. -/
lemma everywhere_built_of_fromScript {p : Program} (h : p.FromScript) :
    (Place.stmts p).Everywhere (Place.Built fun _ => True) := by
  obtain ⟨_, _, _, _, -, h⟩ := h
  obtain ⟨front, back, -, -, -, hp⟩ := Program.derives_of_parse h
  exact hp.built fun _ _ _ => trivial

/-- The built-in functions and classes have no code. -/
lemma storeHas_builtins (q : Place → Prop) : StoreHas q Machine.builtins where
  callable := by
    intro id k hk d f hd
    obtain ⟨b, rfl⟩ := Session.exists_builtin_of_getElem? hk
    cases hd
  class_ := by
    intro id cls hc d f hd
    obtain ⟨host, rfl⟩ := Session.exists_host_of_getElem? hc
    cases hd with
    | method hf => cases hf
    | getter hg => cases hg

/-- Runs of programs that were read blame no operator for being unknown. -/
theorem Chained.known {runs : List Run} (h : Chained Machine.builtins runs)
    (hread : ∀ run ∈ runs, run.program.FromScript) (hrun : run ∈ runs) {fault : Fault}
    (hf : run.fault? = some fault) : fault.cause.Known := by
  have hbuilt (run : Run) (hr : run ∈ runs) := everywhere_built_of_fromScript (hread run hr)
  obtain ⟨hstore, -⟩ := h.keeps (fun run hr hs => (Run.has (hbuilt run hr) hs).2)
    (storeHas_builtins _) (fun _ hr => hr) run hrun
  obtain ⟨hcalls, -⟩ := Run.has (hbuilt run hrun) hstore
  refine Run.blames (fun trail c hc => ?_) (by decide) hf
  exact plan_blames fun x hx => ((hcalls trail c hc).place x hx).self

end Eval

/-- **Scripts say only what has a meaning.** Let a program be read from a script. Its operators are
known ones wherever they stand, its names are identifiers of the script and no reserved words, apart
from the names of lambdas, and its superclasses are given by names. Every number and every text of
the script has its value, and it is spelled as a literal with this value; so there are as many
literals of each value as there are tokens for it, besides the conditions that loops leave out. No
run of the program, with whatever distances and after whatever other programs that were read, ends
in a fault that blames an unknown operator. -/
theorem Program.parse_meaningful (source : String) (tokens : List Token) (nextId next : NodeId)
    (p : Program) (hscan : scan source = .ok tokens)
    (h : Program.parse nextId tokens = (.ok p, next)) :
    (∀ ks x, (Place.stmts p).Holds ks x → x.Built (Token.IsNameIn tokens)) ∧
    (∃ front back, tokens = front ++ back ∧ Grammar.Derives .declarations front p) ∧
    (∀ t ∈ tokens, t.kind ∈ [.number, .textLiteral] → ∃ value, t.literal = some value ∧
      Scan.Lexeme t.kind t.lexeme.toList (some value)) ∧
    (∃ added, p.literals.Perm
      (tokens.filterMap Token.constant? ++ List.replicate added (.bool true))) ∧
    ∀ earlier run, Chained Machine.builtins (earlier ++ [run]) →
      (∀ r ∈ earlier, r.program.FromScript) → run.program = p →
        ∀ fault, run.fault? = some fault →
          fault.cause ≠ .unknownUnary ∧ fault.cause ≠ .unknownBinary := by
  refine ⟨Program.built_of_parse hscan h, ?_, fun t ht hk => exists_lexeme_of_scan hscan ht hk,
    Program.literals_of_parse hscan h, ?_⟩
  · obtain ⟨front, back, he, -, -, hp⟩ := Program.derives_of_parse h
    exact ⟨front, back, he, hp⟩
  · rintro earlier run hchain hread rfl fault hf
    refine hchain.known ?_ (List.mem_append_right _ List.mem_cons_self) hf
    rw [List.forall_mem_append, List.forall_mem_singleton]
    exact ⟨hread, source, tokens, nextId, next, hscan, h⟩

/-- A class with a superclass, a loop without a condition, and an operator that has no value for its
operand, run without any distances. -/
theorem Program.parse_meaningful_unresolved :
    let source := "class A \x7b\x7d class B < A \x7b m() \x7b
      for (;;) return nil == \"a\" or -true; \x7d \x7d B().m();"
    ∃ tokens p next, scan source = .ok tokens ∧ Program.parse 0 tokens = (.ok p, next) ∧
      (∃ added, p.literals.Perm
        (tokens.filterMap Token.constant? ++ List.replicate added (.bool true))) ∧
      ∃ fault, Run.fault? ⟨30, p, .start (.ofLimit none) [] .isolated 0⟩ = some fault ∧
        fault.cause = .operandNotNumber ∧
        fault.cause ≠ .unknownUnary ∧ fault.cause ≠ .unknownBinary := by
  intro source
  obtain ⟨tokens, p, next, hscan, h, htest⟩ := exists_parse_of_any source
    (fun p => (Run.fault? ⟨30, p, .start (.ofLimit none) [] .isolated 0⟩).map Fault.cause =
      some .operandNotNumber) (by decide +kernel)
  obtain ⟨fault, hfault, hcause⟩ := Option.map_eq_some_iff.mp (of_decide_eq_true htest)
  obtain ⟨-, -, -, hliterals, hknown⟩ := Program.parse_meaningful source tokens 0 next p hscan h
  exact ⟨tokens, p, next, hscan, h, hliterals, fault, hfault, hcause,
    hknown [] _ ⟨rfl, trivial⟩ (by simp) rfl fault hfault⟩

end Scripting
