import Scripting.Proofs.Eval.Sockets

/-!
# Streams between sockets

What is sent at one end of a connection and what is received at the other end, along the exchanges
of a run. As long as every line is complete when it is received, the lines that were sent are those
that were received, in the same order, and behind them those that wait to be.
-/

namespace Scripting

namespace Eval

/-- The host method that a task is to run, and the instance of which. -/
def Task.hostMethod? : Task → Option (HostMethod × InstanceId)
  | .callable (.hostMethod method i) _ => some (method, i)
  | _ => none

lemma Task.hostMethod?_eq_some {t : Task} {method : HostMethod} {i : InstanceId} :
    t.hostMethod? = some (method, i) ↔
      ∃ arguments, t = .callable (.hostMethod method i) arguments := by
  constructor
  · intro h
    unfold hostMethod? at h
    split at h
    · cases h
      exact ⟨_, rfl⟩
    · cases h
  · rintro ⟨arguments, rfl⟩
    rfl

namespace Call

/-- The text that a call sends at an endpoint, before the line feed. -/
def sentAt? (a : Nat) (c : Call) : Option String :=
  match c.task with
  | .callable (.hostMethod .send i) arguments =>
    if c.machine.store.handle? i = some (.socket a) then
      some (c.machine.store.display (arguments.headD (.text "")))
    else none
  | _ => none

/-- The value that a call gives which receives at an endpoint. -/
def receivedAt? (b : Nat) (c : Call) : Option Value :=
  match c.task with
  | .callable (.hostMethod .receive i) arguments =>
    if c.machine.store.handle? i = some (.socket b) then
      match run c.steps (.hostMethod .receive i) arguments c.machine with
      | .ok value _ => some value
      | .error _ _ => some .nil
    else none
  | _ => none

/-- What becomes of the bytes that arrived at `b` from `a` when a call has done its exchange. -/
def moved (c : Call) (a b : Nat) (arrived : List UInt8) : List UInt8 :=
  match c.sentAt? a with
  | some text => arrived ++ (bytesOf text.toList ++ [lineFeed])
  | none => if (c.receivedAt? b).isSome then (readLine arrived).2 else arrived

variable {c : Call} {a b : Nat}

lemma trades_of_ok {moved : Nat → Nat → List UInt8 → List UInt8}
    (h : ∃ value after, c.task.perform c.steps c.machine = .ok value after ∧
      c.machine.Trades moved after) : c.machine.Trades moved c.after := by
  obtain ⟨value, after, ho, ht⟩ := h
  rwa [after_of_ok ho]

/-- An exchange moves the bytes of the call that it is. -/
lemma trades (hc : c.isExchange) (hm : c.machine.Wired) : c.machine.Trades c.moved c.after := by
  obtain ⟨steps, t, m⟩ := c
  unfold isExchange at hc
  split at hc
  · next method i arguments ht =>
    obtain rfl : t = _ := ht
    obtain ⟨steps, rfl⟩ := Nat.exists_eq_succ_of_ne_zero (of_decide_eq_true hc)
    cases method with
    | send =>
      have hmoved : moved ⟨steps + 1, .callable (.hostMethod .send i) arguments, m⟩ =
          fun a _ arrived => if m.store.handle? i = some (.socket a) then
            arrived ++ (bytesOf (m.store.display (arguments.headD (.text ""))).toList ++ [lineFeed])
          else arrived := by
        funext a b arrived
        by_cases h : m.store.handle? i = some (.socket a) <;> simp [moved, sentAt?, receivedAt?, h]
      rw [hmoved]
      exact trades_of_ok (HostMethod.sendLine_trades hm i (arguments.headD (.text "")))
    | receive =>
      have hmoved : moved ⟨steps + 1, .callable (.hostMethod .receive i) arguments, m⟩ =
          fun _ b arrived => if m.store.handle? i = some (.socket b) then (readLine arrived).2
            else arrived := by
        funext a b arrived
        by_cases h : m.store.handle? i = some (.socket b)
        · simp only [moved, sentAt?, receivedAt?, h, if_true]
          split <;> rfl
        · simp [moved, sentAt?, receivedAt?, h]
      rw [hmoved]
      exact trades_of_ok (HostMethod.receiveLine_trades hm i)
    | close => exact trades_of_ok (HostMethod.closeSocket_trades hm i)
    | accept => exact trades_of_ok (HostMethod.acceptConnection_trades hm i)
  · next k arguments ht =>
    obtain rfl : t = _ := ht
    obtain ⟨hsteps, hhost⟩ := Bool.and_eq_true_iff.mp hc
    obtain ⟨steps, rfl⟩ := Nat.exists_eq_succ_of_ne_zero (of_decide_eq_true hsteps)
    obtain ⟨host, hhost⟩ := Option.isSome_iff_exists.mp hhost
    have hrun : Eval.construct (steps + 1) k arguments m = host.construct k arguments m := by
      have hstore : Exec.store m = .ok m.store m := rfl
      rw [construct_succ, Task.constructPlan, Plan.perform_act, Exec.bind_of_ok hstore]
      simp only [hhost, Plan.perform_only]
    obtain ⟨value, after, ho, ht⟩ := host.construct_trades hm k arguments
    exact trades_of_ok ⟨value, after, hrun.trans ho, ht⟩
  · cases hc

/-- A call that is an exchange and sends finds a socket that is there. -/
lemma lt_size_of_sentAt? (hm : c.machine.Wired) {text : String} (h : c.sentAt? a = some text) :
    a < c.machine.network.endpoints.size := by
  unfold sentAt? at h
  split at h
  · split_ifs at h with hi
    exact hm.lt_size _ a hi
  · cases h

lemma exists_of_receivedAt? {value : Value} (h : c.receivedAt? b = some value) :
    ∃ i arguments, c.task = .callable (.hostMethod .receive i) arguments ∧
      c.machine.store.handle? i = some (.socket b) := by
  unfold receivedAt? at h
  split at h
  · next i arguments ht =>
    split_ifs at h with hi
    exact ⟨i, arguments, ht, hi⟩
  · cases h

/-- A call does not send and receive. -/
lemma sentAt?_of_receivedAt? {value : Value} (h : c.receivedAt? b = some value) (a : Nat) :
    c.sentAt? a = none := by
  obtain ⟨i, arguments, ht, -⟩ := exists_of_receivedAt? h
  simp only [sentAt?, ht]

/-- What is received is the next line of what has arrived. -/
lemma receivedAt?_eq {value : Value} (hc : c.isExchange) (h : c.receivedAt? b = some value) :
    value = (readLine (c.machine.network.arrived b)).1.value := by
  obtain ⟨i, arguments, ht, hi⟩ := exists_of_receivedAt? h
  obtain ⟨steps, t, m⟩ := c
  obtain rfl : t = _ := ht
  obtain ⟨steps, rfl⟩ := Nat.exists_eq_succ_of_ne_zero (of_decide_eq_true hc)
  obtain ⟨after, ho, -⟩ := HostMethod.receiveLine_leadsTo hi
  have hrun : run (steps + 1) (.hostMethod .receive i) arguments m =
      .ok (m.network.readLine b).1.value after := ho
  rw [← (m.network.readLine_spec b).1]
  have hi : m.store.handle? i = some (.socket b) := hi
  simpa [receivedAt?, hi, hrun, eq_comm] using h

/-- A host method of an instance without a socket gives nothing and moves no bytes. -/
lemma nil_of_unplugged {method : HostMethod} {i : InstanceId} {arguments : List Value}
    (hc : c.isExchange) (ht : c.task = .callable (.hostMethod method i) arguments)
    (hm : c.machine.Wired) (hi : c.machine.Unplugged i) :
    run c.steps (.hostMethod method i) arguments c.machine = .ok .nil c.after ∧
      ∀ e, c.after.network.arrived e = c.machine.network.arrived e := by
  obtain ⟨steps, t, m⟩ := c
  obtain rfl : t = _ := ht
  obtain ⟨steps, rfl⟩ := Nat.exists_eq_succ_of_ne_zero (of_decide_eq_true hc)
  have hnone : ∀ handle, m.store.handle? i ≠ some handle := fun handle h => by
    cases hi.2.symm.trans h
  obtain ⟨m', ⟨after, ho, hrests⟩, hsettles⟩ : ∃ m',
      (method.run i arguments).LeadsTo m .nil m' ∧ m.Settles m' := by
    cases method with
    | send =>
      obtain ⟨hreleased, hkept⟩ :=
        Machine.settles_releaseAbandoned hm [.instanceRef i, arguments.headD (.text "")]
      refine ⟨_, HostMethod.sendLine_leadsTo_nil fun e => ?_, hreleased⟩
      rw [hkept i List.mem_cons_self]
      exact hnone _
    | receive => exact ⟨_, HostMethod.receiveLine_leadsTo_nil fun e => hnone _, .refl m⟩
    | close => exact ⟨_, HostMethod.closeSocket_leadsTo_nil fun e => hnone _, m.settles_setHandle i⟩
    | accept =>
      exact ⟨_, HostMethod.acceptConnection_leadsTo_nil fun l _ _ h => absurd h (hnone _), .refl m⟩
  obtain rfl : Call.after ⟨steps + 1, .callable (.hostMethod method i) arguments, m⟩ = after :=
    after_of_ok ho
  refine ⟨ho, fun e => ?_⟩
  rw [hrests.network_eq]
  exact Network.Settles.arrived hsettles.network e

/-- An instance that is closed has no socket any more. -/
lemma unplugged_of_close {i : InstanceId} {arguments : List Value} (hc : c.isExchange)
    (ht : c.task = .callable (.hostMethod .close i) arguments)
    (hi : i < c.machine.store.instances.size) : c.after.Unplugged i := by
  obtain ⟨steps, t, m⟩ := c
  obtain rfl : t = _ := ht
  obtain ⟨steps, rfl⟩ := Nat.exists_eq_succ_of_ne_zero (of_decide_eq_true hc)
  obtain ⟨m', ⟨after, ho, hrests⟩, hm'⟩ : ∃ m', (HostMethod.closeSocket i).LeadsTo m .nil m' ∧
      m'.store = m.store.setHandle i none := by
    by_cases h : ∃ e, m.store.handle? i = some (.socket e)
    · obtain ⟨e, he⟩ := h
      exact ⟨_, HostMethod.closeSocket_leadsTo he, rfl⟩
    · exact ⟨_, HostMethod.closeSocket_leadsTo_nil fun e he => h ⟨e, he⟩, rfl⟩
  obtain rfl : Call.after ⟨steps + 1, .callable (.hostMethod .close i) arguments, m⟩ = after :=
    after_of_ok ho
  refine hrests.unplugged ⟨?_, ?_⟩
  · rw [hm']
    simpa [Store.setHandle] using hi
  · rw [hm', Store.handle?_setHandle_none, if_pos rfl]

end Call

/-! ### Along the exchanges -/

/-- After some calls, the lines that were sent at one end of a connection are those that were
received at the other end and those that wait there. -/
structure Streams (m : Machine) (calls : List Call) : Prop where
  wired : m.Wired
  sent_nil : ∀ a, m.network.endpoints.size ≤ a → calls.filterMap (·.sentAt? a) = []
  received_nil : ∀ b, m.network.endpoints.size ≤ b → calls.filterMap (·.receivedAt? b) = []
  lines : ∀ a b, m.network.Connects a b →
    (∀ c ∈ calls, (c.receivedAt? b).isSome → lineFeed ∈ c.machine.network.arrived b) →
      ∃ got waiting, Text.pieces (calls.filterMap (·.sentAt? a)) = got ++ waiting ∧
        calls.filterMap (·.receivedAt? b) =
          got.map (fun line => .text (Text.withoutReturn line)) ∧
        m.network.arrived b = bytesOfLines waiting

variable {m m' : Machine} {calls later : List Call} {c : Call}

namespace Streams

lemma rests (h : Streams m calls) (hm : m.Rests m') : Streams m' calls where
  wired := hm.wired h.wired
  sent_nil := hm.network_eq ▸ h.sent_nil
  received_nil := hm.network_eq ▸ h.received_nil
  lines := hm.network_eq ▸ h.lines

/-- What one exchange does to the lines of a connection: it sends some, receives the first one that
waits, or leaves them alone. -/
lemma step_lines {a b : Nat} {sent : List String} {received : List Value}
    {got waiting : List (List Char)} (hc : c.isExchange)
    (hpending : (c.receivedAt? b).isSome → lineFeed ∈ c.machine.network.arrived b)
    (hsent : Text.pieces sent = got ++ waiting)
    (hreceived : received =
      got.map fun line => .text (Text.withoutReturn line))
    (harrived : c.machine.network.arrived b = bytesOfLines waiting) :
    ∃ got' waiting', Text.pieces (sent ++ (c.sentAt? a).toList) = got' ++ waiting' ∧
      received ++ (c.receivedAt? b).toList =
        got'.map (fun line => .text (Text.withoutReturn line)) ∧
      c.moved a b (c.machine.network.arrived b) = bytesOfLines waiting' := by
  cases hr : c.receivedAt? b with
  | some value =>
    have hs := Call.sentAt?_of_receivedAt? hr a
    have hvalue := Call.receivedAt?_eq hc hr
    have hfeed := hpending (by rw [hr]; rfl)
    rw [harrived] at hfeed hvalue
    cases waiting with
    | nil => cases hfeed
    | cons line rest =>
      have hmem : line ∈ Text.pieces sent := by simp [hsent]
      have hline := Text.newline_notMem_pieces line hmem
      rw [readLine_bytesOfLines hline] at hvalue
      refine ⟨got ++ [line], rest, ?_, ?_, ?_⟩
      · simp [hs, hsent]
      · simp [hreceived, hvalue, LineRead.value]
      · rw [Call.moved, hs, hr, harrived, readLine_bytesOfLines hline]
        rfl
  | none =>
    cases hs : c.sentAt? a with
    | some text =>
      refine ⟨got, waiting ++ text.toList.splitOn '\n', ?_, ?_, ?_⟩
      · rw [Option.toList_some, Text.pieces_append, hsent, List.append_assoc]
        simp [Text.pieces]
      · simp [hreceived]
      · rw [Call.moved, hs, harrived, bytesOfLines_append, bytesOfLines_splitOn]
    | none =>
      refine ⟨got, waiting, ?_, ?_, ?_⟩
      · simpa using hsent
      · simpa using hreceived
      · simpa [Call.moved, hs, hr] using harrived

/-- One exchange more. -/
lemma step (h : Streams c.machine calls) (hc : c.isExchange) : Streams c.after (calls ++ [c]) := by
  have htrades := c.trades hc h.wired
  have hfilter : ∀ {α : Type} (f : Call → Option α),
      (calls ++ [c]).filterMap f = calls.filterMap f ++ (f c).toList := by
    intro α f
    rw [List.filterMap_append, List.filterMap_cons, List.filterMap_nil]
    cases f c <;> rfl
  have hsent : ∀ a, c.machine.network.endpoints.size ≤ a →
      (calls ++ [c]).filterMap (·.sentAt? a) = [] := by
    intro a ha
    rw [hfilter, h.sent_nil a ha]
    cases hs : c.sentAt? a with
    | none => rfl
    | some text => exact absurd (Call.lt_size_of_sentAt? h.wired hs) (Nat.not_lt.mpr ha)
  have hreceived : ∀ b, c.machine.network.endpoints.size ≤ b →
      (calls ++ [c]).filterMap (·.receivedAt? b) = [] := by
    intro b hb
    rw [hfilter, h.received_nil b hb]
    cases hr : c.receivedAt? b with
    | none => rfl
    | some value =>
      obtain ⟨i, arguments, -, hi⟩ := Call.exists_of_receivedAt? hr
      exact absurd (h.wired.lt_size i b hi) (Nat.not_lt.mpr hb)
  refine ⟨htrades.wired, fun a ha => hsent a (Nat.le_trans htrades.size_le ha),
    fun b hb => hreceived b (Nat.le_trans htrades.size_le hb), fun a b hab hpending => ?_⟩
  obtain ⟨hold, hmoved⟩ | ⟨ha, hb, hnone⟩ := htrades.connects a b hab
  · rw [List.forall_mem_append, List.forall_mem_singleton] at hpending
    obtain ⟨got, waiting, hsent, hreceived, harrived⟩ := h.lines a b hold hpending.1
    rw [hfilter, hfilter, hmoved]
    exact step_lines hc hpending.2 hsent hreceived harrived
  · -- a new connection
    exact ⟨[], [], by rw [hsent a ha]; rfl, by rw [hreceived b hb]; rfl, hnone⟩

end Streams

namespace ExchangePath

/-- The way up to an exchange, and the way from there. -/
lemma of_append_cons (h : ExchangePath m (calls ++ c :: later) m') :
    ExchangePath m (calls ++ [c]) c.after ∧ ExchangePath c.after later m' := by
  induction calls generalizing m with
  | nil =>
    cases h with
    | cons hr h => exact ⟨.cons hr (.nil (.refl _)), h⟩
  | cons first calls ih =>
    cases h with
    | cons hr h =>
      obtain ⟨hbefore, hlater⟩ := ih h
      exact ⟨.cons hr hbefore, hlater⟩

lemma streams {past : List Call} (h : ExchangePath m calls m') (hpast : Streams m past)
    (hcalls : ∀ c ∈ calls, c.isExchange) : Streams m' (past ++ calls) := by
  induction h generalizing past with
  | nil hr =>
    rw [List.append_nil]
    exact hpast.rests hr
  | @cons _ _ c later hr _ ih =>
    rw [List.forall_mem_cons] at hcalls
    rw [List.append_cons]
    exact ih ((hpast.rests hr).step hcalls.1) hcalls.2

lemma wired (h : ExchangePath m calls m') (hm : m.Wired) (hcalls : ∀ c ∈ calls, c.isExchange) :
    ∀ c ∈ calls, c.machine.Wired := by
  induction h with
  | nil _ => simp
  | @cons _ _ c later hr _ ih =>
    rw [List.forall_mem_cons] at hcalls ⊢
    have hwired := hr.wired hm
    exact ⟨hwired, ih (c.trades hcalls.1 hwired).wired hcalls.2⟩

/-- An instance that has lost its socket never gets one again. -/
lemma unplugged {i : InstanceId} (h : ExchangePath m calls m') (hm : m.Wired)
    (hi : m.Unplugged i) (hcalls : ∀ c ∈ calls, c.isExchange) :
    ∀ c ∈ calls, c.machine.Unplugged i := by
  induction h with
  | nil _ => simp
  | @cons _ _ c later hr _ ih =>
    rw [List.forall_mem_cons] at hcalls ⊢
    have htrades := c.trades hcalls.1 (hr.wired hm)
    have hunplugged := hr.unplugged hi
    exact ⟨hunplugged, ih htrades.wired (htrades.unplugged i hunplugged) hcalls.2⟩

end ExchangePath

end Eval

end Scripting
