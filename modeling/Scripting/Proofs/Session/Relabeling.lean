import Scripting.Proofs.Eval.Relabeling
import Scripting.Proofs.Session.WellFormed

/-!
# Other names for local variables

A program runs like the one with another name for a local variable. Both begin with the same
machine, in which nothing is relabelled: the frames that it has were opened without a mark.
-/

namespace Scripting

open Eval Exec

/-! ### Beginning alike -/

namespace Store

/-- Where the frames of a store stand as long as none was opened for a relabelled scope. -/
def spots (s : Store) : Spots :=
  s.frames.toList.map fun frame => ⟨frame.outer, false⟩

lemma getElem?_spots (s : Store) (f : FrameId) :
    s.spots[f]? = (s.frames[f]?).map fun frame => ⟨frame.outer, false⟩ := by
  simp [spots]

namespace WellFormed

variable {s : Store} (h : s.WellFormed) (ρ : Relabeling)

include h

/-- No frame has a mark. -/
lemma exists_marks {f : FrameId} (hf : s.Has (.frame f)) :
    ∃ marks, s.spots.HasMarks f marks ∧ true ∉ marks := by
  obtain ⟨frame, hframe⟩ := exists_frame_of_has hf
  have hmark : ∀ g ∈ s.chain f, s.spots.HasMark g false := by
    intro g hg
    obtain ⟨frame', hg⟩ := exists_frame_of_has (h.has_of_mem_chain hf g hg)
    exact ⟨_, by rw [getElem?_spots, hg]; rfl, rfl⟩
  have hchain : s.chain f = f :: frame.outer := by simp [chain, hframe]
  rw [hchain] at hmark
  refine ⟨(f :: frame.outer).map fun _ => false, ⟨⟨frame.outer, false⟩, ?_, ?_⟩, by simp⟩
  · rw [getElem?_spots, hframe]
    rfl
  · rw [List.forall₂_map_right_iff]
    exact List.forall₂_same.mpr hmark

/-- Code that is closed over a frame goes along with itself. -/
lemma function_relabeled_self {f : Function} (hf : s.Has (.frame f.closure)) {inner : List Bool}
    (hi : true ∉ inner) : f.Relabeled ρ s.spots inner f := by
  obtain ⟨marks, hm, hn⟩ := h.exists_marks hf
  exact ⟨rfl, rfl, marks, hm, f.declaration.relabeled_self (by simp [hi, hn])⟩

lemma getter_relabeled_self {g : Getter} (hg : s.Has (.frame g.closure)) {inner : List Bool}
    (hi : true ∉ inner) : g.Relabeled ρ s.spots inner g := by
  obtain ⟨marks, hm, hn⟩ := h.exists_marks hg
  exact ⟨rfl, marks, hm, g.declaration.relabeled_self (by simp [hi, hn])⟩

lemma callable_relabeled_self {i : CallableId} {k : Callable} (hk : s.callables[i]? = some k) :
    k.Relabeled ρ s.spots k := by
  have hrefs := h.callable i k hk
  cases k with
  | function f =>
    have hf : s.Has (.frame f.closure) := hrefs _ List.mem_cons_self
    exact .function (h.function_relabeled_self ρ hf (by simp))
  | getter g =>
    have hg : s.Has (.frame g.closure) := hrefs _ List.mem_cons_self
    exact .getter (h.getter_relabeled_self ρ hg (by simp))
  | builtin b => exact .builtin b
  | hostMethod method receiver => exact .hostMethod method receiver

lemma class_relabeled_self {c : ClassId} {cls : Class} (hc : s.classes[c]? = some cls) :
    cls.Relabeled ρ s.spots cls := by
  obtain ⟨-, hmethods, hgetters⟩ := hasAll_class.mp (h.class_ c cls hc)
  apply Class.relabeled_of_related
  · refine List.forall₂_same.mpr fun e he => ⟨rfl, ?_⟩
    exact h.function_relabeled_self ρ (hmethods e.1 e.2 he) (by simp)
  · refine List.forall₂_same.mpr fun e he => ⟨rfl, ?_⟩
    exact h.getter_relabeled_self ρ (hgetters e.1 e.2 he) (by simp)

/-- A store goes along with itself. -/
theorem relabeled_self : s.Relabeled ρ s.spots s where
  size_eq := by simp [spots]
  size_eq' := by simp [spots]
  globals := by
    obtain ⟨frame, hg, ho⟩ := h.globals
    rw [getElem?_spots, hg, ← ho]
    rfl
  frame := by
    intro f spot hf
    rw [getElem?_spots] at hf
    obtain ⟨frame, hframe, rfl⟩ := Option.map_eq_some_iff.mp hf
    exact ⟨frame, frame, hframe, hframe, rfl, by simp, by simp⟩
  callables := .of_self fun _ _ hk => h.callable_relabeled_self ρ hk
  classes := .of_self fun _ _ hc => h.class_relabeled_self ρ hc
  instances_eq := rfl

end WellFormed

end Store

/-- The nodes of a program have the distances that were found for them. -/
lemma Program.get?_recordAll {p : Program} {table : Distances} (hn : (stmtsIds p).Nodup)
    {id : NodeId} (ht : table.get? id = none) :
    (table.recordAll p.resolve.found.toList).get? id = p.distance? id := by
  obtain ⟨links, hl, hs⟩ := (stmts_walked p .start).found
  obtain rfl : p.resolve.found.toList = links := hl
  rw [Distances.get?_recordAll_eq (hs.nodup hn), ht, Option.or_none]
  rfl

/-- A machine in the scope of the globals goes along with itself. -/
lemma Machine.WellFormed.relabeled_self {m : Machine} (h : m.WellFormed)
    (hscope : m.scope = Machine.globals) {ρ : Relabeling} (hd : m.distances.get? = ρ.distance?) :
    m.Relabeled ρ m.store.spots Machine.globals m :=
  ⟨h.store.relabeled_self ρ, hd, hscope, rfl⟩

/-! ### Ending alike -/

/-- Two journals are the same, except that the last report may name what is not where its distance
says in two ways. -/
inductive Journal.Respells (old new : String) : Journal → Journal → Prop
  | same (j : Journal) : Journal.Respells old new j j
  | missing (j : Journal) (distance line : Nat) :
    Journal.Respells old new (j.push (.report (Fault.report ⟨.noBinding old distance, line⟩)))
      (j.push (.report (Fault.report ⟨.noBinding new distance, line⟩)))

namespace Session

/-- Two steps end alike: with the same result, the same output and the same of everything else but
what is in the store, where the global variables and all fields hold the same. Only what is reported
of a name that is not where its distance says may be spelled in two ways. -/
structure EndsAlike (old new : String) (x x' : StepResult × Session) : Prop where
  result_eq : x'.1 = x.1
  session_eq : x'.2 = { x.2 with
    machine := { x.2.machine with
      store := x'.2.machine.store
      journal := x'.2.machine.journal } }
  journal : Journal.Respells old new x.2.machine.journal x'.2.machine.journal
  globals_eq : ∀ name, x'.2.machine.store.slot? Machine.globals name =
    x.2.machine.store.slot? Machine.globals name
  instances_eq : x'.2.machine.store.instances = x.2.machine.store.instances

variable {ρ : Relabeling} {w : Spots} {f : FrameId}

/-- Sessions with machines that go along with one another, apart from their journals. -/
lemma endsAlike_of_relabeled (s : Session) (result : StepResult) {m m' : Machine}
    (hm : m.Relabeled ρ w f m') {j j' : Journal} (hj : Journal.Respells ρ.old ρ.new j j') :
    EndsAlike ρ.old ρ.new (result, { s with machine := { m with journal := j } })
      (result, { s with machine := { m' with journal := j' } }) where
  result_eq := rfl
  session_eq := by rw [hm.eq]
  journal := hj
  globals_eq := hm.store.slot?_globals
  instances_eq := hm.store.instances_eq

/-- Runs that go along with one another end alike. -/
lemma conclude_along (s : Session) {r r' : EStateM.Result Stop Machine Unit}
    (h : EndAlong ρ w f (fun _ => Eq) r r') :
    EndsAlike ρ.old ρ.new (s.conclude r) (s.conclude r') := by
  have journal_eq {w' : Spots} {m m' : Machine} (hm : m.Relabeled ρ w' f m') :
      m'.journal = m.journal := by
    rw [hm.eq]
  cases h with
  | ok _ _ hm =>
    refine s.endsAlike_of_relabeled .ok hm ?_
    rw [journal_eq hm]
    exact .same _
  | @error _ stop _ _ _ _ hstop hm =>
    cases hstop with
    | same =>
      cases stop with
      | fault fault =>
        refine endsAlike_of_relabeled { s with hadRuntimeError := true } .ok hm ?_
        rw [journal_eq hm]
        exact .same _
      | exhausted =>
        refine s.endsAlike_of_relabeled .exhausted hm ?_
        rw [journal_eq hm]
        exact .same _
    | missing distance line =>
      refine endsAlike_of_relabeled { s with hadRuntimeError := true } .ok hm ?_
      rw [journal_eq hm]
      exact .missing _ distance line

/-! ### Relabelled programs -/

/-- A program whose nodes have no distances yet, and a relabelled one. Resolving finds the same in
both, and running them in the same session ends alike. -/
theorem runProgram_relabel {s : Session} (hm : s.machine.WellFormed)
    (hscope : s.machine.scope = Machine.globals) {p : Program} (hw : StmtsWellFormed p)
    (hn : (stmtsIds p).Nodup) (hids : ∀ id ∈ stmtsIds p, s.machine.distances.get? id = none)
    (he : p.resolve.errors = #[]) {target : Nat} {old new : String}
    (hold : TokenKind.ofWord old = .identifier) (hnew : TokenKind.ofWord new = .identifier)
    (hfresh : ∀ t ∈ p.tokens, t.kind = .identifier → t.lexeme ≠ new)
    (hvar : ∀ scope, p.scopes[target]? = some scope → scope.DeclaresByVar old) (steps : Nat) :
    let p' := p.relabel target old new
    (p'.resolve.found = p.resolve.found ∧ p'.resolve.errors = #[]) ∧
      EndsAlike old new (s.runProgram steps p) (s.runProgram steps p') := by
  intro p'
  let m := s.machine.recordResolution p.resolve
  let ρ : Relabeling := ⟨old, new, m.distances.get?, target⟩
  obtain ⟨hstore, hscope', hheld, hdistances⟩ := s.machine.recordResolution_spec p.resolve
  have ha : p.Accepted m.distances := by
    rw [hdistances]
    exact Program.accepted_recordAll hw hn he hids
  have hd : ∀ id ∈ stmtsIds p, m.distances.get? id = p.distance? id := by
    intro id hid
    rw [hdistances]
    exact Program.get?_recordAll hn (hids id hid)
  have hp : Relabeled ρ [false] (.stmts p) (.stmts p') :=
    Program.relabeled_relabel hold hnew hfresh hw hd hvar
  have hnames : ρ.OfNames := ⟨hold, hnew⟩
  have htable : ρ.distance? = m.distances.get? := rfl
  obtain ⟨hfound, herrors⟩ := hp.resolve_program htable hnames ha.agrees
  refine ⟨⟨hfound, herrors⟩, ?_⟩
  -- the distances that are kept are the same, so both runs begin with the same machine
  have hrecord : s.machine.recordResolution p'.resolve = m := by
    simp only [m, Machine.recordResolution, hfound, herrors, he]
  have hsame : m.Relabeled ρ m.store.spots Machine.globals m :=
    (hm.congr hstore hscope' hheld).relabeled_self (hscope'.trans hscope) rfl
  have hmarks : m.store.spots.HasMarks Machine.globals [false] :=
    ⟨_, hsame.store.globals, .cons hsame.store.hasMark_globals .nil⟩
  rw [s.runProgram_of_accepted steps (Array.isEmpty_iff.mpr he),
    s.runProgram_of_accepted steps (Array.isEmpty_iff.mpr herrors), hrecord]
  exact conclude_along _ (runProgram_along hnames steps hmarks hp m m hsame)

/-- **Local names do not matter.** Take a program that a session has read and in which nothing is
wrong, one of its local scopes, and a name that this scope declares, as a parameter or by `var` and
not otherwise. Give the name another spelling, which no identifier in the program has, wherever the
scope declares it and in all references that mean it. Nothing is wrong with that program either, its
references have the same distances, and when it is run instead, that ends alike. -/
theorem local_names_exchangeable (sink : Sink) (input : List UInt8) (network : Network)
    (time : Nat) (requests : List Request) {source : String} {p : Program} {s : Session}
    (hread : ((start (.start sink input network time)).after requests).read? source = some (p, s))
    (he : p.resolve.errors = #[]) {target : Nat} {scope : LocalScope}
    (hscope : p.scopes[target]? = some scope) {old new : String}
    (hold : ∃ t ∈ scope.declared, t.lexeme = old) (hvar : scope.DeclaresByVar old)
    (hnew : TokenKind.ofWord new = .identifier)
    (hfresh : ∀ t ∈ p.tokens, t.kind = .identifier → t.lexeme ≠ new) (steps : Nat) :
    let p' := p.relabel target old new
    (p'.resolve.found = p.resolve.found ∧ p'.resolve.errors = #[]) ∧
      EndsAlike old new (s.runProgram steps p) (s.runProgram steps p') := by
  have hbefore := (settled_start sink input network time).after requests
  obtain ⟨hpass, hd, hw, hids⟩ := passes_read? hread
  have hm : s.machine.WellFormed :=
    hpass.heap (wellFormed_after requests (wellFormed_start sink input network time)).1
  obtain ⟨t, ht, rfl⟩ := hold
  have hname : t.IsName :=
    (stmtsScopes_wellFormed p hw scope (List.mem_of_getElem? hscope)).declared t ht
  refine runProgram_relabel hm (hpass.scope_eq.trans hbefore.scope_eq) hw hids.nodup ?_ he
    hname.ofWord_eq hnew hfresh ?_ steps
  · intro id hid
    rw [hd]
    exact hbefore.new id (hids.within id hid).1
  · intro scope' hscope'
    rw [hscope] at hscope'
    exact Option.some.inj hscope' ▸ hvar

/-- The name is that of a global variable, too, which is meant by a function that was made before
the local variable was. The local variable is declared twice, is assigned to by a function that is
closed over it, and is hidden by another one in there. -/
theorem local_names_exchangeable_hidden :
    let s₀ := start (.start (.ofLimit none) [] .isolated 0)
    let source := "var a = 1; \x7b fun f() \x7b print a; \x7d var a = 2; " ++
      "fun g() \x7b a = a + 3; \x7b var a = 7; print a; \x7d print a; \x7d " ++
      "var a = 4; f(); g(); \x7d"
    ∃ p s scope, (s₀.after []).read? source = some (p, s) ∧ p.resolve.errors = #[] ∧
      p.scopes[0]? = some scope ∧ (∃ t ∈ scope.declared, t.lexeme = "a") ∧
      scope.DeclaresByVar "a" ∧ TokenKind.ofWord "z" = .identifier ∧
      (∀ t ∈ p.tokens, t.kind = .identifier → t.lexeme ≠ "z") ∧
      renderStmts (p.relabel 0 "a" "z") = ["(var a 1)",
        "\x7b(fun f () \x7b(print a)\x7d) (var z 2) (fun g () \x7b(; (= z (+ z 3))) " ++
          "\x7b(var a 7) (print a)\x7d (print z)\x7d) (var z 4) (; (call f)) (; (call g))\x7d"] ∧
      (s.runProgram 100 p).2.machine.sink.textSince 0 = "1\n7\n7\n" ∧
      let p' := p.relabel 0 "a" "z"
      (p'.resolve.found = p.resolve.found ∧ p'.resolve.errors = #[]) ∧
        EndsAlike "a" "z" (s.runProgram 100 p) (s.runProgram 100 p') := by
  intro s₀ source
  have hread : ((s₀.after []).read? source).any fun (p, s) => (p.scopes[0]?).any fun scope =>
      p.resolve.errors = #[] ∧ (∃ t ∈ scope.declared, t.lexeme = "a") ∧
        scope.DeclaresByVar "a" ∧ TokenKind.ofWord "z" = .identifier ∧
        (∀ t ∈ p.tokens, t.kind = .identifier → t.lexeme ≠ "z") ∧
        renderStmts (p.relabel 0 "a" "z") = ["(var a 1)",
          "\x7b(fun f () \x7b(print a)\x7d) (var z 2) (fun g () \x7b(; (= z (+ z 3))) " ++
            "\x7b(var a 7) (print a)\x7d (print z)\x7d) (var z 4) (; (call f)) (; (call g))\x7d"] ∧
        (s.runProgram 100 p).2.machine.sink.textSince 0 = "1\n7\n7\n" := by
    decide +kernel
  obtain ⟨⟨p, s⟩, hread, htest⟩ := (Option.any_eq_true _ _).mp hread
  obtain ⟨scope, hscope, htest⟩ := (Option.any_eq_true _ _).mp htest
  obtain ⟨he, hold, hvar, hnew, hfresh, hrendered, hprinted⟩ := of_decide_eq_true htest
  exact ⟨p, s, scope, hread, he, hscope, hold, hvar, hnew, hfresh, hrendered, hprinted,
    local_names_exchangeable (.ofLimit none) [] .isolated 0 [] hread he hscope hold hvar hnew hfresh
      100⟩

end Session

end Scripting
