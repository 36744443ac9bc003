import Scripting.Proofs.Eval.Streams
import Scripting.Proofs.Session.Input
import Scripting.Proofs.Session.WellFormed

/-!
# Sockets in a session

The exchanges of all runs of a session take over from one another, from a network on which there is
neither a listener nor a connection. So whatever scripts do at the two ends of a connection, in
whatever order, the lines that are sent at one end are received at the other end in this order, as
long as both are open and nothing is received before its line is complete.
-/

namespace Scripting

open Eval

lemma Machine.Tells.rests {m m' : Machine} (h : m.Tells m') : m.Rests m' := by
  obtain ⟨_, _, _, rfl⟩ := h
  exact ⟨rfl, .refl _⟩

/-- On a machine where nothing has run yet, nothing was sent and nothing was received. -/
lemma streams_start (sink : Sink) (input : List UInt8) (hasLoopback : Bool) (time : Nat) :
    Streams (.start sink input ⟨hasLoopback, #[], #[]⟩ time) [] where
  wired :=
    { sound :=
        { peer := fun e x hx => by simp [Machine.start] at hx
          reset := fun e x hx => by simp [Machine.start] at hx
          waits := fun e ⟨l, listener, hl, _⟩ => by simp [Machine.start] at hl }
      lt_size := fun i e he => by simp [Machine.start, Machine.builtins, Store.handle?] at he }
  sent_nil := fun _ _ => rfl
  received_nil := fun _ _ => rfl
  lines := fun a b ⟨x, y, hx, _⟩ => by simp [Machine.start] at hx

namespace Session

/-- The exchanges in the runs that requests come to, in their order. -/
def exchanges (s : Session) (requests : List Request) : List Call :=
  (s.runs requests).flatMap Run.exchanges

lemma mem_exchanges {s : Session} {requests : List Request} {c : Call} :
    c ∈ s.exchanges requests ↔ VisitedIn (s.runs requests) c ∧ c.isExchange := by
  simp only [exchanges, List.mem_flatMap, Run.mem_exchanges, VisitedIn]
  constructor
  · rintro ⟨run, hr, hv, hc⟩
    exact ⟨⟨run, hr, hv⟩, hc⟩
  · rintro ⟨⟨run, hr, hv⟩, hc⟩
    exact ⟨run, hr, hv, hc⟩

/-- The way through a session. -/
lemma exchangePath (s : Session) (requests : List Request) :
    ExchangePath s.machine (s.exchanges requests) (s.after requests).machine := by
  induction requests generalizing s with
  | nil => exact .nil (.refl _)
  | cons q rest ih =>
    have hq := q.perform_tells s
    have hrest := ih (q.perform s).2
    unfold exchanges at hrest ⊢
    rw [runs, List.flatMap_append]
    cases hrun : q.run? s with
    | none =>
      rw [hrun] at hq
      exact hrest.of_rests hq.rests
    | some run =>
      rw [hrun] at hq
      rw [Option.toList_some, List.flatMap_singleton]
      exact (run.exchangePath.of_rests hq.1.rests).append (hrest.of_rests hq.2.rests)

/-- **Sockets keep order and content.** The exchanges of a session are the calls of the methods of
sockets and servers, and of what constructs them, in the order in which they happen.

At some exchange, let `a` and `b` be the ends of a connection, neither of them closed, and suppose
that whatever was received at `b` so far was received when a complete line had arrived there. Then
what was received at `b` is a prefix of the lines of all that was sent at `a`, and a line is pending
at `b` as long as there are more lines than were received. Neither depends on what was sent at `b`
or received at `a`, or on any other connection. If the texts are single lines, they are themselves
the lines that come of them.

As soon as an instance was closed, its methods give `nil` and move no bytes anywhere. -/
theorem sockets_keep_order_and_content (sink : Sink) (bytes : List UInt8) (hasLoopback : Bool)
    (time : Nat) (requests : List Request) :
    let s := start (.start sink bytes ⟨hasLoopback, #[], #[]⟩ time)
    (∀ c, c ∈ s.exchanges requests ↔ VisitedIn (s.runs requests) c ∧ c.isExchange) ∧
    (∀ (a b : Nat) (calls : List Call) (c : Call), calls ++ [c] <+: s.exchanges requests →
      c.after.network.Connects a b →
      (∀ c' ∈ calls ++ [c], (c'.receivedAt? b).isSome →
        lineFeed ∈ c'.machine.network.arrived b) →
      let sent := (calls ++ [c]).filterMap (·.sentAt? a)
      let received := (calls ++ [c]).filterMap (·.receivedAt? b)
      let lines := Text.lines (CommandLine.joinLines sent)
      received <+: lines.map .text ∧
      (lineFeed ∈ c.after.network.arrived b ↔ received.length < lines.length) ∧
      ((∀ text ∈ sent, '\n' ∉ text.toList ∧ text.toList.getLast? ≠ some '\r') → lines = sent)) ∧
    (∀ (before later : List Call) (c : Call) (i : InstanceId) (arguments : List Value),
      s.exchanges requests = before ++ c :: later →
      c.task = .callable (.hostMethod .close i) arguments →
      ∀ c' ∈ later, ∀ method arguments', c'.task = .callable (.hostMethod method i) arguments' →
        Eval.run c'.steps (.hostMethod method i) arguments' c'.machine = .ok .nil c'.after ∧
        ∀ e, c'.after.network.arrived e = c'.machine.network.arrived e) := by
  intro s
  have hpath := s.exchangePath requests
  have hexchanges : ∀ c ∈ s.exchanges requests, c.isExchange := fun c hc => (mem_exchanges.mp hc).2
  have hstart := streams_start sink bytes hasLoopback time
  refine ⟨fun c => mem_exchanges, ?_, ?_⟩
  · intro a b calls c hbegin hconnects hpending
    obtain ⟨later, hlater⟩ := id hbegin
    rw [← hlater, List.append_assoc, List.singleton_append] at hpath
    have hstreams := hpath.of_append_cons.1.streams hstart
      fun c' hc' => hexchanges c' (hbegin.subset hc')
    rw [List.nil_append] at hstreams
    obtain ⟨got, waiting, hsent, hreceived, harrived⟩ := hstreams.lines a b hconnects hpending
    intro sent received lines
    have hlines : lines = got.map Text.withoutReturn ++ waiting.map Text.withoutReturn := by
      rw [← List.map_append, ← hsent]
      exact Text.lines_joinLines sent
    refine ⟨⟨(waiting.map Text.withoutReturn).map .text, ?_⟩, ?_, Text.lines_joinLines_eq⟩
    · have hgot : received = (got.map Text.withoutReturn).map .text := by
        rw [List.map_map]
        exact hreceived
      rw [hlines, List.map_append, hgot]
    · rw [harrived, lineFeed_mem_bytesOfLines, hlines]
      have hlength : received.length = got.length := by
        rw [show received = _ from hreceived, List.length_map]
      rw [hlength, List.length_append, List.length_map, List.length_map, ← List.length_pos_iff]
      omega
  · intro before later c i arguments hcalls ht c' hc' method arguments' ht'
    have hwired := hpath.wired hstart.wired hexchanges
    have hc : c ∈ s.exchanges requests := hcalls ▸ by simp
    have hmem : ∀ c' ∈ later, c' ∈ s.exchanges requests := fun c' hc' => hcalls ▸ by simp [hc']
    have hi : i < c.machine.store.instances.size := by
      obtain ⟨_, hready⟩ := ready_of_visited (mem_exchanges.mp hc).1
      have hall := hready.2
      rw [ht] at hall
      exact hall (.instanceRef i) List.mem_cons_self
    have hunplugged := Call.unplugged_of_close (hexchanges c hc) ht hi
    rw [hcalls] at hpath
    have hlater := hpath.of_append_cons.2.unplugged (c.trades (hexchanges c hc) (hwired c hc)).wired
      hunplugged fun c' hc' => hexchanges c' (hmem c' hc')
    exact Call.nil_of_unplugged (hexchanges c' (hmem c' hc')) ht' (hwired c' (hmem c' hc'))
      (hlater c' hc')

/-- Behind some exchanges there are three more: with the first one the ends of the first connection
are still connected, and the second one closes the client, which the third one asks for a line. -/
def closesConnected (calls : List Call) : List Call → Bool
  | [last, closing, asking] =>
    decide (last.after.network.Connects 0 1 ∧
      (∀ c ∈ calls ++ [last], (c.receivedAt? 1).isSome →
        lineFeed ∈ c.machine.network.arrived 1) ∧
      (calls ++ [last]).filterMap (·.sentAt? 0) = ["a\r\nb"] ∧
      closing.task.hostMethod? = some (.close, 1) ∧
      asking.task.hostMethod? = some (.receive, 1))
  | _ => false

lemma exists_of_closesConnected {calls more : List Call} (h : closesConnected calls more) :
    ∃ last closing asking, more = [last, closing, asking] ∧
      last.after.network.Connects 0 1 ∧
      (∀ c ∈ calls ++ [last], (c.receivedAt? 1).isSome →
        lineFeed ∈ c.machine.network.arrived 1) ∧
      (calls ++ [last]).filterMap (·.sentAt? 0) = ["a\r\nb"] ∧
      (∃ arguments, closing.task = .callable (.hostMethod .close 1) arguments) ∧
      ∃ arguments, asking.task = .callable (.hostMethod .receive 1) arguments := by
  unfold closesConnected at h
  split at h
  · next last closing asking =>
    obtain ⟨hconnects, hpending, hsent, hclosing, hasking⟩ := of_decide_eq_true h
    exact ⟨last, closing, asking, rfl, hconnects, hpending, hsent,
      Task.hostMethod?_eq_some.mp hclosing, Task.hostMethod?_eq_some.mp hasking⟩
  · cases h

/-- A client and a server talk, where one text makes two lines. The client is closed then, and asked
for a line. -/
theorem sockets_keep_order_and_content_of_steps :
    let s := start (.start (.ofLimit none) [] .loopback 0)
    let requests := [
      Request.source 16 false "var s = ServerSocket(7); var a = Socket(\"localhost\", 7);",
      .source 16 false "var b = s.accept(); a.send(\"a\r\nb\"); b.send(s);",
      .source 16 false "b.receive(); a.receive(); b.receive();",
      .source 16 false "a.close(); a.receive();"]
    ∃ calls last closing asking, s.exchanges requests = calls ++ [last, closing, asking] ∧
      (calls ++ [last]).filterMap (·.sentAt? 0) = ["a\r\nb"] ∧
      (calls ++ [last]).filterMap (·.receivedAt? 1) <+: [.text "a", .text "b"] ∧
      (∃ arguments, closing.task = .callable (.hostMethod .close 1) arguments) ∧
      ∃ arguments, asking.task = .callable (.hostMethod .receive 1) arguments ∧
        Eval.run asking.steps (.hostMethod .receive 1) arguments asking.machine =
          .ok .nil asking.after := by
  intro s requests
  have hcheck : closesConnected ((s.exchanges requests).take 7)
      ((s.exchanges requests).drop 7) := by
    decide +kernel
  obtain ⟨-, hlines, hclosed⟩ := sockets_keep_order_and_content (.ofLimit none) [] true 0 requests
  obtain ⟨last, closing, asking, hdrop, hconnects, hpending, hsent, ⟨closed, hclosing⟩, asked,
    hasking⟩ := exists_of_closesConnected hcheck
  have hexchanges : (s.exchanges requests).take 7 ++ [last, closing, asking] =
      s.exchanges requests := by
    rw [← hdrop, List.take_append_drop]
  generalize (s.exchanges requests).take 7 = calls at *
  have hbefore : calls ++ [last] ++ [closing, asking] = s.exchanges requests :=
    (List.append_assoc _ _ _).trans hexchanges
  refine ⟨calls, last, closing, asking, hexchanges.symm, hsent, ?_, ⟨closed, hclosing⟩, asked,
    hasking, ?_⟩
  · obtain ⟨hreceived, -, -⟩ := hlines 0 1 calls last ⟨_, hbefore⟩ hconnects hpending
    rwa [hsent] at hreceived
  · exact (hclosed (calls ++ [last]) [asking] closing 1 closed hbefore.symm hclosing asking
      List.mem_cons_self .receive asked hasking).1

end Session

end Scripting
