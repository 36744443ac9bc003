import Scripting.Proofs.Eval.Footprint
import Scripting.Proofs.Eval.Likeness
import Scripting.Proofs.Eval.Outcomes
import Scripting.Proofs.Eval.Trace

/-!
# Output with a limit

A sink with a limit takes what fits and refuses the rest. Nothing that a program does depends on
this until a line is refused: up to then, it does the same with a limit as without one, and the line
that is refused ends it. So what is taken with a limit is what is taken without one, cut there.
-/

namespace Scripting

/-! ### Sinks -/

lemma extract_zero_append {a : ByteArray} {n : Nat} (h : a.size ≤ n) (b : ByteArray) :
    (a ++ b).extract 0 n = a ++ b.extract 0 (n - a.size) := by
  have ha : a.extract 0 n = a := by
    rw [← Nat.max_eq_left h, ByteArray.extract_zero_max_size]
  rw [ByteArray.extract_append, ha, Nat.zero_sub]

namespace Sink

/-- The sink with a limit to what it takes in all. -/
def withLimit (sink : Sink) (limit : Nat) : Sink :=
  { sink with limit := some limit }

/-- A sink has taken more since. -/
def Grows (sink sink' : Sink) : Prop :=
  sink'.limit = sink.limit ∧ ∃ bytes, sink'.taken = sink.taken ++ bytes

variable {sink sink' : Sink} {limit : Nat}

lemma Grows.refl (sink : Sink) : sink.Grows sink :=
  ⟨rfl, .empty, ByteArray.append_empty.symm⟩

lemma Grows.trans {a b c : Sink} (h : a.Grows b) (h' : b.Grows c) : a.Grows c := by
  obtain ⟨hlimit, bytes, hbytes⟩ := h
  obtain ⟨hlimit', bytes', hbytes'⟩ := h'
  exact ⟨hlimit'.trans hlimit, bytes ++ bytes', by rw [hbytes', hbytes, ByteArray.append_assoc]⟩

lemma Grows.of_eq (h : sink' = sink) : sink.Grows sink' :=
  h ▸ .refl sink

/-- What was taken beyond the limit stays so. -/
lemma Grows.lt_size (h : sink.Grows sink') (hlimit : limit < sink.taken.size) :
    limit < sink'.taken.size := by
  obtain ⟨-, bytes, hbytes⟩ := h
  rw [hbytes, ByteArray.size_append]
  omega

/-- Up to the limit, nothing is added any more. -/
lemma Grows.extract_eq (h : sink.Grows sink') (hlimit : limit ≤ sink.taken.size) :
    sink'.taken.extract 0 limit = sink.taken.extract 0 limit := by
  obtain ⟨-, bytes, hbytes⟩ := h
  rw [hbytes, ByteArray.extract_append, Nat.zero_sub, Nat.sub_eq_zero_of_le hlimit,
    ByteArray.extract_same, ByteArray.append_empty]

lemma grows_writeLine (sink : Sink) (text : String) : sink.Grows (sink.writeLine text).2 := by
  unfold writeLine write
  split
  · exact ⟨rfl, _, rfl⟩
  · exact ⟨rfl, _, rfl⟩

/-- A sink without a limit takes a whole line. With a limit, it does so if the line fits, and else
takes what fits. -/
lemma writeLine_withLimit (hsink : sink.limit = none) (hsize : sink.taken.size ≤ limit)
    (text : String) :
    (sink.writeLine text).1 = true ∧
      (sink.withLimit limit).writeLine text =
        if (sink.writeLine text).2.taken.size ≤ limit then
          (true, (sink.writeLine text).2.withLimit limit)
        else (false, ⟨(sink.writeLine text).2.taken.extract 0 limit, some limit⟩) := by
  unfold writeLine
  generalize (text.push '\n').toUTF8 = bytes
  have hfull : sink.write bytes = (true, { sink with taken := sink.taken ++ bytes }) := by
    simp [write, hasRoom, hsink]
  rw [hfull]
  refine ⟨rfl, ?_⟩
  dsimp only [write, hasRoom, withLimit, Option.getD_some]
  rw [extract_zero_append hsize, ByteArray.size_append]
  simp only [decide_eq_true_eq]

end Sink

namespace Machine

/-- The machine with a limit to what is printed in all. -/
def withLimit (m : Machine) (limit : Nat) : Machine :=
  { m with sink := m.sink.withLimit limit }

/-- The sink has no limit, and what it has taken stays within one. -/
structure Fits (m : Machine) (limit : Nat) : Prop where
  limit_eq : m.sink.limit = none
  size_le : m.sink.taken.size ≤ limit

lemma alike_withLimit (m : Machine) (limit : Nat) : m.Alike (m.withLimit limit) :=
  ⟨rfl, rfl, rfl⟩

/-- Host classes see nothing of a limit. -/
lemma likeness_withLimit (limit : Nat) :
    Likeness fun m m' => m' = m.withLimit limit ∧ m.Fits limit where
  looksLike := by
    rintro m _ ⟨rfl, -⟩
    exact .refl _
  abandoned_eq := by
    rintro m _ ⟨rfl, -⟩ _
    rfl
  input_eq := by
    rintro m _ ⟨rfl, -⟩
    rfl
  network_eq := by
    rintro m _ ⟨rfl, -⟩
    rfl
  time_eq := by
    rintro m _ ⟨rfl, -⟩
    rfl
  withInput := by
    rintro m _ ⟨rfl, hm⟩ input
    exact ⟨rfl, hm.limit_eq, hm.size_le⟩
  withNetwork := by
    rintro m _ ⟨rfl, hm⟩ network
    exact ⟨rfl, hm.limit_eq, hm.size_le⟩
  withTime := by
    rintro m _ ⟨rfl, hm⟩ time
    exact ⟨rfl, hm.limit_eq, hm.size_le⟩
  log := by
    rintro m _ ⟨rfl, hm⟩ level target message
    exact ⟨rfl, hm.limit_eq, hm.size_le⟩
  addInstance := by
    rintro m _ ⟨rfl, hm⟩ i
    exact ⟨rfl, hm.limit_eq, hm.size_le⟩
  setHandle := by
    rintro m _ ⟨rfl, hm⟩ i handle
    exact ⟨rfl, hm.limit_eq, hm.size_le⟩

/-- Host classes print nothing. -/
lemma spans_sink : Spans fun m m' => m'.sink = m.sink where
  refl := fun _ => rfl
  trans := fun h h' => h'.trans h
  log := fun _ _ _ _ => rfl
  withNetwork := fun _ _ => rfl
  withTime := fun _ _ => rfl
  addInstance := fun _ _ _ => rfl
  setHandle := fun _ _ _ => rfl

end Machine

namespace Exec

variable {α β : Type}

/-- An action that prints at most more than was printed before. -/
def Prints (x : Exec α) : Prop :=
  ∀ m : Machine, m.sink.Grows (x.after m).sink

namespace Prints

lemma of_local {x : Exec α} (hx : x.Local) : x.Prints :=
  fun m => .of_eq (congrArg Machine.sink (hx.after_eq m) :)

lemma of_yields {x : Exec α} (hx : x.Yields fun m m' => m'.sink = m.sink) : x.Prints := by
  intro m
  obtain ⟨a, after, ho, h⟩ := hx m
  rw [Exec.after, ho]
  exact .of_eq h

lemma print (text : String) (line : Nat) : (Exec.print text line).Prints := by
  intro m
  rw [Exec.after, print_apply]
  split_ifs
  · exact m.sink.grows_writeLine text
  · exact m.sink.grows_writeLine text

lemma bind {x : Exec α} {next : α → Exec β} (hx : x.Prints) (hn : ∀ a, (next a).Prints) :
    (x >>= next).Prints := by
  intro m
  have hm := hx m
  unfold Exec.after at hm
  cases ho : x m with
  | ok a after =>
    rw [ho] at hm
    rw [Exec.after, bind_of_ok ho]
    exact hm.trans (hn a after)
  | error stop after =>
    rw [ho] at hm
    rwa [Exec.after, bind_of_error ho]

lemma wrap {x : Exec α} (hx : x.Prints) (mode : Eval.Mode) : (mode.wrap x).Prints := by
  intro m
  have hm := hx (mode.enter m)
  have henter : (mode.enter m).sink = m.sink := by cases mode <;> rfl
  have hleave : ((mode.wrap x).after m).sink = (x.after (mode.enter m)).sink := by
    unfold Exec.after
    rw [mode.wrap_apply]
    cases x (mode.enter m) <;> cases mode <;> rfl
  rwa [hleave, ← henter]

/-- What was printed without a limit still fits when it does. -/
lemma fits {x : Exec α} (hx : x.Prints) {limit : Nat} {m after : Machine} {a : α}
    (hm : m.Fits limit) (ho : x m = .ok a after) (hsize : after.sink.taken.size ≤ limit) :
    after.Fits limit := by
  have hgrows := hx m
  rw [Exec.after, ho] at hgrows
  exact ⟨hgrows.1.trans hm.limit_eq, hsize⟩

end Prints

/-- A result on a machine with a limit. -/
def limited (limit : Nat) : EStateM.Result Stop Machine α → EStateM.Result Stop Machine α
  | .ok a after => .ok a (after.withLimit limit)
  | .error stop after => .error stop (after.withLimit limit)

/-- How an action ends on a machine with a limit to what is printed in all, when it is known how it
ends without one: in the same way, if it stays within the limit; else it ends in a fault on a line
that is to be blamed, when exactly what is within the limit was printed. -/
structure Truncates (limit : Nat) (blamed : Nat → Prop) (x : Exec α) (m : Machine) : Prop where
  fits : (x.after m).sink.taken.size ≤ limit → x (m.withLimit limit) = limited limit (x m)
  cut : limit < (x.after m).sink.taken.size → ∃ line after,
    x (m.withLimit limit) = .error (.fault ⟨.outputFull, line⟩) after ∧
      after.sink = ⟨(x.after m).sink.taken.extract 0 limit, some limit⟩ ∧ blamed line

namespace Truncates

variable {limit : Nat} {blamed blamed' : Nat → Prop} {x : Exec α} {m : Machine}

lemma mono (h : x.Truncates limit blamed m) (hb : ∀ line, blamed line → blamed' line) :
    x.Truncates limit blamed' m := by
  refine ⟨h.fits, fun hsize => ?_⟩
  obtain ⟨line, after, ho, hsink, hline⟩ := h.cut hsize
  exact ⟨line, after, ho, hsink, hb line hline⟩

/-- What prints nothing does the same with a limit. -/
lemma of_eq (hm : m.Fits limit) (hsink : (x.after m).sink = m.sink)
    (h : x (m.withLimit limit) = limited limit (x m)) : x.Truncates limit blamed m := by
  refine ⟨fun _ => h, fun hsize => ?_⟩
  rw [hsink] at hsize
  exact absurd hm.size_le (Nat.not_le.mpr hsize)

lemma of_local (hx : x.Local) (hm : m.Fits limit) : x.Truncates limit blamed m := by
  refine of_eq hm (congrArg Machine.sink (hx.after_eq m) :) ?_
  obtain ⟨a, store, ho⟩ | ⟨stop, store, ho⟩ := hx.exists_store m
  · rw [hx.ok (m.alike_withLimit limit) ho, ho]
    rfl
  · rw [hx.error (m.alike_withLimit limit) ho, ho]
    rfl

lemma of_agree (hx : Agree (fun m m' => m' = m.withLimit limit ∧ m.Fits limit) Eq x x)
    (hm : m.Fits limit) : x.Truncates limit blamed m := by
  obtain ⟨a, b, after, after', ho, ho', rfl, rfl, hafter⟩ := hx m _ ⟨rfl, hm⟩
  refine ⟨fun _ => by rw [ho, ho', limited], fun hsize => ?_⟩
  rw [Exec.after, ho] at hsize
  exact absurd hafter.size_le (Nat.not_le.mpr hsize)

lemma print {text : String} {line : Nat} (hm : m.Fits limit)
    (hline : limit < (m.sink.writeLine text).2.taken.size → blamed line) :
    (Exec.print text line).Truncates limit blamed m := by
  obtain ⟨hfull, hlimited⟩ := Sink.writeLine_withLimit hm.limit_eq hm.size_le text
  have ho := print_apply text line m
  have ho' := print_apply text line (m.withLimit limit)
  rw [hfull, if_pos rfl] at ho
  have hsink : (m.withLimit limit).sink = m.sink.withLimit limit := rfl
  rw [hsink, hlimited] at ho'
  constructor
  · intro hsize
    rw [Exec.after, ho] at hsize
    rw [if_pos hsize, if_pos rfl] at ho'
    rw [ho]
    exact ho'
  · intro hsize
    rw [Exec.after, ho] at hsize ⊢
    rw [if_neg (Nat.not_le.mpr hsize)] at ho'
    exact ⟨line, _, ho', rfl, hline hsize⟩

/-- One action after another: what the first one prints beyond the limit, the second one does not
make up for. -/
lemma bind {next : α → Exec β} (hx : x.Truncates limit blamed m) (hprints : ∀ a, (next a).Prints)
    (hnext : ∀ a after, x m = .ok a after → after.sink.taken.size ≤ limit →
      (next a).Truncates limit blamed after) : (x >>= next).Truncates limit blamed m := by
  cases ho : x m with
  | ok a after =>
    have hafter : x.after m = after := by rw [Exec.after, ho]
    have hend : (x >>= next).after m = (next a).after after := by
      rw [Exec.after, bind_of_ok ho]
      rfl
    rcases Nat.lt_or_ge limit after.sink.taken.size with hlt | hle
    · have hgrows := hprints a after
      obtain ⟨line, after', ho', hsink, hline⟩ := hx.cut (hafter.symm ▸ hlt)
      rw [hafter] at hsink
      refine ⟨fun hsize => ?_, fun _ => ⟨line, after', bind_of_error ho', ?_, hline⟩⟩
      · rw [hend] at hsize
        exact absurd hsize (Nat.not_le.mpr (hgrows.lt_size hlt))
      · rw [hsink, hend, hgrows.extract_eq (Nat.le_of_lt hlt)]
    · have hfits := hx.fits (hafter.symm ▸ hle)
      rw [ho, limited] at hfits
      obtain ⟨hsame, hcut⟩ := hnext a after ho hle
      refine ⟨fun hsize => ?_, fun hsize => ?_⟩
      · rw [bind_of_ok ho, bind_of_ok hfits]
        exact hsame (hend ▸ hsize)
      · rw [bind_of_ok hfits, hend]
        exact hcut (hend ▸ hsize)
  | error stop after =>
    have hend : (x >>= next).after m = x.after m := by
      rw [Exec.after, bind_of_error ho, Exec.after, ho]
    refine ⟨fun hsize => ?_, fun hsize => ?_⟩
    · have hfits := hx.fits (hend ▸ hsize)
      rw [ho, limited] at hfits
      rw [bind_of_error ho, bind_of_error hfits, limited]
    · obtain ⟨line, after', ho', hsink, hline⟩ := hx.cut (hend ▸ hsize)
      exact ⟨line, after', bind_of_error ho', hsink.trans (by rw [hend]), hline⟩

lemma wrap {mode : Eval.Mode} (h : x.Truncates limit blamed (mode.enter m)) :
    (mode.wrap x).Truncates limit blamed m := by
  have henter : mode.enter (m.withLimit limit) = (mode.enter m).withLimit limit := by
    cases mode <;> rfl
  have hsink : ∀ m after : Machine, (mode.leave m after).sink = after.sink := by
    intro m after
    cases mode <;> rfl
  have hleave : ∀ after : Machine, mode.leave (m.withLimit limit) (after.withLimit limit) =
      (mode.leave m after).withLimit limit := by
    intro after
    cases mode <;> rfl
  have hend : ((mode.wrap x).after m).sink = (x.after (mode.enter m)).sink := by
    unfold Exec.after
    rw [mode.wrap_apply]
    cases x (mode.enter m) <;> exact hsink _ _
  refine ⟨fun hsize => ?_, fun hsize => ?_⟩
  · have hfits := h.fits (hend ▸ hsize)
    rw [mode.wrap_apply, mode.wrap_apply, henter, hfits]
    cases x (mode.enter m) with
    | ok a after => simp only [limited, hleave]
    | error stop after => simp only [limited, hleave]
  · obtain ⟨line, after, ho, hcut, hline⟩ := h.cut (hend ▸ hsize)
    refine ⟨line, mode.leave (m.withLimit limit) after, ?_, ?_, hline⟩
    · rw [mode.wrap_apply, henter, ho]
    · rw [hsink, hcut, hend]

end Truncates

end Exec

namespace Eval

open Exec

/-- A task is to print. -/
def Task.isPrint : Task → Bool
  | .stmt (.print _ _) => true
  | _ => false

lemma Task.exists_of_isPrint {t : Task} (h : t.isPrint) :
    ∃ keyword value, t = .stmt (.print keyword value) := by
  unfold Task.isPrint at h
  split at h
  · next keyword value => exact ⟨keyword, value, rfl⟩
  · cases h

namespace Task.Outward

variable {t : Task} {γ : Type} {x : Exec γ}

lemma prints (h : t.Outward x) : x.Prints := by
  cases h with
  | print keyword value text => exact .print _ _
  | builtin b arguments =>
    exact .of_yields (b.run_yields Machine.spans_sink arguments fun _ _ _ => rfl)
  | hostMethod method receiver arguments =>
    exact .of_yields (method.run_yields Machine.spans_sink receiver arguments)
  | host host c arguments => exact .of_yields (host.construct_yields Machine.spans_sink c arguments)

/-- What is not printing gives the same on machines that look alike. -/
lemma agree (h : t.Outward x) (ht : ¬ t.isPrint) {M : Machine → Machine → Prop}
    (hM : Machine.Likeness M) : Agree M Eq x x := by
  cases h with
  | print keyword value text => exact absurd rfl ht
  | builtin b arguments => exact b.run_agree hM arguments
  | hostMethod method receiver arguments => exact method.run_agree hM receiver arguments
  | host host c arguments => exact host.construct_agree hM c arguments

end Task.Outward

/-! ### What is printed on the way -/

lemma Plan.Each.prints {α : Type} {self : (t : Task) → Exec t.Result}
    (hself : ∀ t, (self t).Prints) {p : Plan α} (hp : p.Each Prints) : (p.perform self).Prints := by
  induction p with
  | done a => exact .of_local (.pure a)
  | act x next ih => exact .bind hp.1 fun g => ih g (hp.2 g)
  | call mode t next ih => exact .bind ((hself t).wrap mode) fun r => ih r (hp r)

lemma Task.plan_prints (t : Task) : t.plan.Each Prints :=
  t.plan_confined.each .of_local (fun m => .refl m.sink) Outward.prints

/-- Nothing that was printed is taken back. -/
theorem Task.perform_prints (steps : Nat) (t : Task) : (t.perform steps).Prints := by
  induction steps generalizing t with
  | zero =>
    rw [perform_zero]
    exact .of_local (.throw _)
  | succ steps ih =>
    rw [perform_succ]
    exact t.plan_prints.prints ih

/-! ### Two runs side by side -/

/-- A call prints the byte behind the first ones of a number, on a line. -/
def Call.PrintsPast (c : Call) (limit : Nat) (line : Nat) : Prop :=
  ∃ steps keyword value v m, c.steps = steps + 1 ∧ c.task = .stmt (.print keyword value) ∧
    keyword.line = line ∧ evaluate steps value c.machine = .ok v m ∧ m.sink.taken.size ≤ limit ∧
    limit < (m.sink.writeLine (m.store.display v)).2.taken.size

variable {limit : Nat} {blamed : Nat → Prop}

/-- A plan of actions that print nothing, or that are the same for machines that look alike. -/
lemma Plan.Confined.truncates {α : Type} {outward : {γ : Type} → Exec γ → Prop} {steps : Nat}
    {p : Plan α} (hp : p.Confined outward)
    (hprints : ∀ {γ : Type} {x : Exec γ}, outward x → x.Prints)
    (hagree : ∀ {γ : Type} {x : Exec γ}, outward x → ∀ {M : Machine → Machine → Prop},
      Machine.Likeness M → Agree M Eq x x) {m : Machine} (hm : m.Fits limit)
    (hcalls : ∀ t' m', p.Asks (Task.perform steps) m t' m' → m'.Fits limit →
      (t'.perform steps).Truncates limit blamed m') :
    (p.perform (Task.perform steps)).Truncates limit blamed m := by
  have hrest : ∀ {p : Plan α}, p.Confined outward → (p.perform (Task.perform steps)).Prints :=
    fun hp => (hp.each .of_local (fun m => .refl m.sink) hprints).prints (Task.perform_prints steps)
  induction hp generalizing m with
  | done a => exact .of_local (.pure a) hm
  | @act γ x next hx hn ih =>
    refine .bind (.of_local hx hm) (fun g => hrest (hn g)) fun g after ho hsize => ?_
    exact ih g (Prints.fits (.of_local hx) hm ho hsize) fun t' m' ha =>
      hcalls t' m' ⟨g, after, ho, ha⟩
  | scope next hn ih =>
    -- both machines have the same scope
    have hcut := ih m.scope hm fun t' m' ha => hcalls t' m' ⟨m, m, rfl, ha⟩
    exact ⟨hcut.fits, hcut.cut⟩
  | @outward γ x next hx hn ih =>
    refine .bind (.of_agree (hagree hx (Machine.likeness_withLimit limit)) hm)
      (fun g => hrest (hn g)) fun g after ho hsize => ?_
    exact ih g ((hprints hx).fits hm ho hsize) fun t' m' ha => hcalls t' m' ⟨g, after, ho, ha⟩
  | @call mode t' next hn ih =>
    have henter : (mode.enter m).Fits limit := by
      cases mode <;> exact ⟨hm.limit_eq, hm.size_le⟩
    refine .bind (.wrap (hcalls t' _ (.inl ⟨rfl, rfl⟩) henter)) (fun r => hrest (hn r)) ?_
    intro r after ho hsize
    have hends : (mode.wrap (t'.perform steps)).Ends m (.ok r) after := ho
    obtain ⟨after, hr, rfl⟩ := mode.ends_wrap.mp hends
    refine ih r (((Task.perform_prints steps t').wrap mode).fits hm ho hsize) fun t'' m' ha => ?_
    exact hcalls t'' m' (.inr ⟨r, after, hr, ha⟩)

/-- A statement that prints does so when its value is found. -/
lemma truncates_print {steps : Nat} (keyword : Token) (value : Expr) {m : Machine}
    (hvalue : (evaluate steps value).Truncates limit blamed m)
    (hblamed : Call.PrintsPast ⟨steps + 1, .stmt (.print keyword value), m⟩ limit keyword.line →
      blamed keyword.line) (hm : m.Fits limit) :
    (execute (steps + 1) (.print keyword value)).Truncates limit blamed m := by
  refine hvalue.bind (fun v => ?_) fun v after ho hsize => ?_
  · exact .bind (.of_local .store) fun store => .bind (.print _ _) fun _ => .of_local (.pure _)
  · have hafter := (Task.perform_prints steps (.expr value)).fits hm ho hsize
    have hcut : (Exec.print (after.store.display v) keyword.line >>=
        fun _ => pure Completion.normal).Truncates limit blamed after := by
      refine .bind (.print hafter fun hlt => hblamed ?_) (fun _ => .of_local (.pure _)) ?_
      · exact ⟨steps, keyword, value, v, after, rfl, rfl, rfl, ho, hsize, hlt⟩
      · exact fun _ end_ hp hsize' => .of_local (.pure _) ((Prints.print _ _).fits hafter hp hsize')
    -- the value is displayed with the same store
    exact ⟨hcut.fits, hcut.cut⟩

/-- Whatever the evaluator is asked to do: with a limit, it does the same or is cut in the call that
prints the byte behind the limit. -/
theorem Task.truncates (steps : Nat) (t : Task) {m : Machine} (hm : m.Fits limit) :
    (t.perform steps).Truncates limit
      (fun line => ∃ c ∈ Call.within steps t m, c.PrintsPast limit line) m := by
  induction steps generalizing t m with
  | zero =>
    rw [perform_zero]
    exact .of_local (.throw _) hm
  | succ steps ih =>
    have hcalls : ∀ t' m', t.plan.Asks (perform steps) m t' m' → m'.Fits limit →
        (t'.perform steps).Truncates limit
          (fun line => ∃ c ∈ Call.within (steps + 1) t m, c.PrintsPast limit line) m' := by
      intro t' m' ha hm'
      refine (ih t' hm').mono fun line => ?_
      rintro ⟨c, hc, hline⟩
      refine ⟨c, List.mem_cons_of_mem _ (List.mem_flatMap.mpr ⟨(t', m'), ?_, hc⟩), hline⟩
      exact Plan.mem_asked.mpr ha
    by_cases ht : t.isPrint
    · obtain ⟨keyword, value, rfl⟩ := exists_of_isPrint ht
      refine truncates_print keyword value (hcalls (.expr value) m (.inl ⟨rfl, rfl⟩) hm) ?_ hm
      exact fun hc => ⟨_, List.mem_cons_self, hc⟩
    · rw [perform_succ]
      exact t.plan_confined.truncates Outward.prints (fun hx => hx.agree ht) hm hcalls

/-- So it is with a whole program. -/
theorem Run.truncates (run : Run) (hm : run.machine.Fits limit) :
    (runProgram run.steps run.program).Prints ∧
      (runProgram run.steps run.program).Truncates limit
        (fun line => ∃ trail c, run.Visits trail c ∧ c.PrintsPast limit line) run.machine := by
  have hplan : (programPlan run.program).Confined fun _ => False := by
    induction run.program with
    | nil => exact .done ()
    | cons s rest ih =>
      refine .call fun completion => ?_
      cases completion with
      | broke => exact Plan.confined_only (.fail _ _)
      | normal => exact ih
      | returned value => exact ih
  have hnone : ∀ {γ : Type} {x : Exec γ}, False → x.Prints := fun h => h.elim
  rw [runProgram_eq]
  refine ⟨(hplan.each .of_local (fun m => .refl m.sink) hnone).prints
    (Task.perform_prints run.steps), ?_⟩
  refine hplan.truncates hnone (fun h => h.elim) hm fun t m ha hm' => ?_
  refine (Task.truncates run.steps t hm').mono fun line => ?_
  rintro ⟨c, hc, hline⟩
  obtain ⟨trail, hr⟩ := (Call.mem_within ⟨run.steps, t, m⟩).mp hc
  exact ⟨trail, c, ⟨_, ⟨rfl, ha⟩, hr⟩, hline⟩

end Eval

end Scripting
