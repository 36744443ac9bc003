import Scripting.Proofs.Eval.Likeness
import Scripting.Proofs.Eval.Statements
import Scripting.Proofs.Store.Relabeling

/-!
# Running relabelled code

A machine goes along with another one if its store does and everything else is the same. Running
relabelled code on such a machine gives the same, and the machines go along with one another again.
A frame gets the mark of the scope that its code was relabelled in, so that a variable is found in
the same frame under its new spelling. Only what is said of a name that is not where its distance
says shows how it is spelled.
-/

namespace Scripting

/-! ### Machines -/

/-- Two reasons to stop are the same, except that a name that is not where its distance says may
have its other spelling. -/
inductive Stop.Relabeled (ρ : Relabeling) : Stop → Stop → Prop
  | same (stop : Stop) : Stop.Relabeled ρ stop stop
  | missing (distance line : Nat) :
    Stop.Relabeled ρ (.fault ⟨.noBinding ρ.old distance, line⟩)
      (.fault ⟨.noBinding ρ.new distance, line⟩)

/-- Two machines are the same but for what is relabelled in their stores. The scope is a frame, and
the distances are those that the relabelling relies on. -/
structure Machine.Relabeled (ρ : Relabeling) (w : Spots) (f : FrameId) (m m' : Machine) :
    Prop where
  store : m.store.Relabeled ρ w m'.store
  get?_eq : m.distances.get? = ρ.distance?
  scope_eq : m.scope = f
  eq : m' = { m with store := m'.store }

namespace Machine.Relabeled

variable {ρ : Relabeling} {w w' : Spots} {f g : FrameId} {m m' : Machine}

lemma get?_eq' (h : m.Relabeled ρ w f m') : m'.distances.get? = ρ.distance? := by
  rw [h.eq]
  exact h.get?_eq

lemma scope_eq' (h : m.Relabeled ρ w f m') : m'.scope = f := by
  rw [h.eq]
  exact h.scope_eq

lemma withStore (h : m.Relabeled ρ w f m') {s s' : Store} (hs : s.Relabeled ρ w' s') :
    Machine.Relabeled ρ w' f { m with store := s } { m' with store := s' } :=
  ⟨hs, h.get?_eq, h.scope_eq, by rw [h.eq]⟩

lemma withScope (h : m.Relabeled ρ w f m') (held : List Reference) :
    Machine.Relabeled ρ w g { m with scope := g, held } { m' with scope := g, held } :=
  ⟨h.store, h.get?_eq, rfl, by rw [h.eq]⟩

/-- Machines that go along look alike. -/
lemma likeness (ρ : Relabeling) (w : Spots) (f : FrameId) :
    Machine.Likeness (Machine.Relabeled ρ w f) where
  looksLike h := h.store.looksLike
  abandoned_eq h _ := by rw [h.eq]; rfl
  input_eq h := by rw [h.eq]
  network_eq h := by rw [h.eq]
  time_eq h := by rw [h.eq]
  withInput h _ := ⟨h.store, h.get?_eq, h.scope_eq, by rw [h.eq]⟩
  withNetwork h _ := ⟨h.store, h.get?_eq, h.scope_eq, by rw [h.eq]⟩
  withTime h _ := ⟨h.store, h.get?_eq, h.scope_eq, by rw [h.eq]⟩
  log h _ _ _ := ⟨h.store, h.get?_eq, h.scope_eq, by rw [h.eq]; rfl⟩
  addInstance h i := h.withStore (h.store.withInstances (·.push i))
  setHandle h i handle := h.withStore
    (h.store.withInstances (·.modify i fun inst => { inst with handle }))

end Machine.Relabeled

/-! ### Actions -/

namespace Exec

variable {ρ : Relabeling} {w : Spots} {f g : FrameId} {α β γ δ : Type}
  {R : Spots → α → β → Prop} {S : Spots → γ → δ → Prop}

/-- Two ends of actions: related results, or related reasons to stop; on machines that go along
with one another, with more spots perhaps. -/
inductive EndAlong (ρ : Relabeling) (w : Spots) (f : FrameId) (R : Spots → α → β → Prop) :
    EStateM.Result Stop Machine α → EStateM.Result Stop Machine β → Prop
  | ok {w' : Spots} {a : α} {b : β} {m m' : Machine} :
    w <+: w' → R w' a b → m.Relabeled ρ w' f m' → EndAlong ρ w f R (.ok a m) (.ok b m')
  | error {w' : Spots} {stop stop' : Stop} {m m' : Machine} :
    w <+: w' → stop.Relabeled ρ stop' → m.Relabeled ρ w' f m' →
      EndAlong ρ w f R (.error stop m) (.error stop' m')

/-- The spots that there are in the end are more than any that there were before. -/
lemma EndAlong.mono {w' : Spots} {r : EStateM.Result Stop Machine α}
    {r' : EStateM.Result Stop Machine β} (h : EndAlong ρ w' f R r r') (hw : w <+: w') :
    EndAlong ρ w f R r r' := by
  cases h with
  | ok hw' hab hafter => exact .ok (hw.trans hw') hab hafter
  | error hw' hstop hafter => exact .error (hw.trans hw') hstop hafter

/-- An action goes along with another one, in a frame. -/
def GoAlong (ρ : Relabeling) (w : Spots) (f : FrameId) (R : Spots → α → β → Prop) (x : Exec α)
    (x' : Exec β) : Prop :=
  ∀ m m' : Machine, m.Relabeled ρ w f m' → EndAlong ρ w f R (x m) (x' m')

/-- Two actions give the same. -/
abbrev SameAlong (ρ : Relabeling) (w : Spots) (f : FrameId) (x x' : Exec α) : Prop :=
  GoAlong ρ w f (fun _ => Eq) x x'

namespace GoAlong

lemma pure {a : α} {b : β} (h : R w a b) : GoAlong ρ w f R (pure a) (pure b) :=
  fun _ _ hm => .ok List.prefix_rfl h hm

lemma throw (stop : Stop) :
    GoAlong ρ w f R (MonadExcept.throw stop) (MonadExcept.throw stop) :=
  fun _ _ hm => .error List.prefix_rfl (.same stop) hm

lemma fail (cause : Cause) (line : Nat) :
    GoAlong ρ w f R (Exec.fail cause line) (Exec.fail cause line) :=
  throw _

lemma ofExcept {outcome outcome' : Except Cause α} (h : OutcomeRelabeled ρ outcome outcome')
    {R : Spots → α → α → Prop} (hR : ∀ a, outcome = .ok a → R w a a) (line : Nat) :
    GoAlong ρ w f R (Exec.ofExcept line outcome) (Exec.ofExcept line outcome') := by
  cases h with
  | same outcome =>
    cases outcome with
    | ok a => exact pure (hR a rfl)
    | error cause => exact fail cause line
  | missing distance => exact fun _ _ hm => .error List.prefix_rfl (.missing distance line) hm

/-- The same outcome. -/
lemma ofExcept_same (outcome : Except Cause α) (line : Nat) :
    SameAlong ρ w f (Exec.ofExcept line outcome) (Exec.ofExcept line outcome) :=
  ofExcept (.same outcome) (fun _ _ => rfl) line

lemma bind {x : Exec α} {x' : Exec β} {next : α → Exec γ} {next' : β → Exec δ}
    (hx : GoAlong ρ w f R x x')
    (hn : ∀ w' a b, w <+: w' → R w' a b → GoAlong ρ w' f S (next a) (next' b)) :
    GoAlong ρ w f S (x >>= next) (x' >>= next') := by
  intro m m' hm
  have hx := hx m m' hm
  generalize he : x m = r at hx
  generalize he' : x' m' = r' at hx
  cases hx with
  | ok hw hab hbetween =>
    rw [bind_of_ok he, bind_of_ok he']
    exact (hn _ _ _ hw hab _ _ hbetween).mono hw
  | error hw hstop hafter =>
    rw [bind_of_error he, bind_of_error he']
    exact .error hw hstop hafter

/-- After an action with the same result. -/
lemma bind_eq {x x' : Exec α} {next : α → Exec γ} {next' : α → Exec δ}
    (hx : SameAlong ρ w f x x')
    (hn : ∀ w' a, w <+: w' → GoAlong ρ w' f S (next a) (next' a)) :
    GoAlong ρ w f S (x >>= next) (x' >>= next') :=
  bind hx fun w' a _ hw h => h ▸ hn w' a hw

lemma get : GoAlong ρ w f (fun w' => Machine.Relabeled ρ w' f) get get :=
  fun _ _ hm => .ok List.prefix_rfl hm hm

lemma store : GoAlong ρ w f (fun w' => Store.Relabeled ρ w') Exec.store Exec.store :=
  fun _ _ hm => .ok List.prefix_rfl hm.store hm

lemma changeStore {change change' : Store → Store}
    (h : ∀ s s' : Store, s.Relabeled ρ w s' → (change s).Relabeled ρ w (change' s')) :
    SameAlong ρ w f (Exec.changeStore change) (Exec.changeStore change') :=
  fun _ _ hm => .ok List.prefix_rfl rfl (hm.withStore (h _ _ hm.store))

lemma updateStore {update : Store → α × Store} {update' : Store → β × Store}
    (h : ∀ s s' : Store, s.Relabeled ρ w s' → Store.GoAlong ρ w R (update s) (update' s')) :
    GoAlong ρ w f R (Exec.updateStore update) (Exec.updateStore update') := by
  intro m m' hm
  obtain ⟨w', hw, hR, hs⟩ := h _ _ hm.store
  exact .ok hw hR (hm.withStore hs)

/-- Actions that agree on machines that look alike. -/
lemma ofAgree {R : α → β → Prop} {x : Exec α} {x' : Exec β}
    (h : Agree (Machine.Relabeled ρ w f) R x x') : GoAlong ρ w f (fun _ => R) x x' := by
  intro m m' hm
  obtain ⟨a, b, after, after', hx, hx', hab, hafter⟩ := h m m' hm
  rw [hx, hx']
  exact .ok List.prefix_rfl hab hafter

lemma bracket {prepare prepare' : Machine → Machine} {x : Exec α} {x' : Exec β}
    (hp : ∀ m m' : Machine, m.Relabeled ρ w f m' → (prepare m).Relabeled ρ w g (prepare' m'))
    (hx : GoAlong ρ w g R x x') :
    GoAlong ρ w f R (Exec.bracket prepare x) (Exec.bracket prepare' x') := by
  intro m m' hm
  have back {w' : Spots} {a b : Machine} (hab : a.Relabeled ρ w' g b) :
      Machine.Relabeled ρ w' f { a with scope := m.scope, held := m.held }
        { b with scope := m'.scope, held := m'.held } := by
    rw [hm.eq, hm.scope_eq]
    exact hab.withScope _
  have hx := hx _ _ (hp m m' hm)
  unfold Exec.bracket
  revert hx
  generalize x (prepare m) = r
  generalize x' (prepare' m') = r'
  rintro (⟨hw, hab, hafter⟩ | ⟨hw, hstop, hafter⟩)
  · exact .ok hw hab (back hafter)
  · exact .error hw hstop (back hafter)

lemma within (frame : FrameId) {x : Exec α} {x' : Exec β} (hx : GoAlong ρ w frame R x x') :
    GoAlong ρ w f R (Exec.within frame x) (Exec.within frame x') := by
  refine bracket (fun m m' hm => ?_) hx
  exact ⟨hm.store, hm.get?_eq, rfl, by rw [hm.eq]⟩

lemma holding (value : Value) {x : Exec α} {x' : Exec β} (hx : GoAlong ρ w f R x x') :
    GoAlong ρ w f R (Exec.holding value x) (Exec.holding value x') := by
  refine bracket (fun m m' hm => ?_) hx
  exact ⟨hm.store, hm.get?_eq, hm.scope_eq, by rw [hm.eq]⟩

lemma print (text : String) (line : Nat) :
    SameAlong ρ w f (Exec.print text line) (Exec.print text line) := by
  refine bind_eq (fun m m' hm => ?_) fun w' taken _ => ?_
  · refine .ok List.prefix_rfl ?_ ⟨hm.store, hm.get?_eq, hm.scope_eq, ?_⟩
    · rw [hm.eq]
    · rw [hm.eq]
  · cases taken with
    | true => exact pure rfl
    | false => exact fail _ _

end GoAlong

end Exec

open Exec Relabeling

namespace Eval

variable {ρ : Relabeling} {w : Spots} {f : FrameId} {marks : List Bool}

/-! ### Actions of the evaluator -/

lemma readVariable_along (hf : w.HasMarks f marks) {id : NodeId} {t t' : Token}
    (ht : ρ.Renames marks (ρ.reaches marks id) t t') :
    SameAlong ρ w f (readVariable id t) (readVariable id t') := by
  obtain ⟨rfl, hn⟩ := ht
  refine .bind .get fun w' m m' hw hm => ?_
  refine .ofExcept ?_ (fun _ _ => rfl) t.line
  rw [hm.get?_eq, hm.get?_eq', hm.scope_eq, hm.scope_eq', reaches]
  cases ρ.distance? id with
  | none =>
    rw [markAt, Option.bind_none, Option.getD_none, token_false]
    dsimp only
    rw [hm.store.get_globals]
    exact .same _
  | some distance => exact hm.store.getAt (hf.mono hw) hn distance

lemma writeVariable_along (hf : w.HasMarks f marks) {id : NodeId} {t t' : Token}
    (ht : ρ.Renames marks (ρ.reaches marks id) t t') (value : Value) :
    SameAlong ρ w f (writeVariable id t value) (writeVariable id t' value) := by
  obtain ⟨rfl, hn⟩ := ht
  refine .bind .get fun w' m m' hw hm => ?_
  rw [hm.get?_eq, hm.get?_eq', hm.scope_eq, hm.scope_eq']
  -- the frame that is written to has the mark of the scope that the reference means
  have written {o o' : Except Cause FrameId} (ho : OutcomeRelabeled ρ o o')
      (hg : ∀ g, o = .ok g → Spots.HasMark w' g (ρ.reaches marks id)) :
      SameAlong ρ w' f
        (Exec.ofExcept t.line o >>= fun g => Exec.changeStore (·.define g t.lexeme value))
        (Exec.ofExcept t.line o' >>= fun g => Exec.changeStore
          (·.define g (ρ.token (ρ.reaches marks id) t).lexeme value)) := by
    refine .bind (R := fun w' g g' => g' = g ∧ Spots.HasMark w' g (ρ.reaches marks id))
      (.ofExcept ho (fun g he => ⟨rfl, hg g he⟩) t.line) ?_
    rintro w'' g _ - ⟨rfl, hg⟩
    exact .changeStore fun s s' hs => hs.setSlot hg (fun hm => hn (mem_of_markAt hm)) _
  cases hd : ρ.distance? id with
  | none =>
    obtain ⟨hl, hg⟩ := hm.store.locate_globals t.lexeme
    have hmark : ρ.reaches marks id = false := by rw [reaches, hd]; rfl
    refine written ?_ (hmark ▸ hg)
    rw [hmark, token_false, hl]
    exact .same _
  | some distance =>
    obtain ⟨hl, hg⟩ := hm.store.locateAt (hf.mono hw) hn distance
    have hmark : ρ.reaches marks id = markAt marks (some distance) := by rw [reaches, hd]
    refine written ?_ (hmark ▸ hg)
    rw [hmark]
    exact hl

lemma defineHere_along (hf : w.HasMarks f marks) {t t' : Token}
    (ht : ρ.Renames marks (marks.headD false) t t') (value : Value) :
    SameAlong ρ w f (defineHere t.lexeme value) (defineHere t'.lexeme value) := by
  obtain ⟨rfl, hn⟩ := ht
  refine .bind .get fun w' m m' hw hm => ?_
  rw [hm.scope_eq, hm.scope_eq']
  exact .changeStore fun s s' hs =>
    hs.setSlot (hf.mono hw).head (fun hm => hn (mem_of_headD hm)) _

lemma makeFunction_along (hf : w.HasMarks f marks) {d d' : FunctionDecl}
    (hd : Relabeled ρ marks (.function d) (.function d')) :
    SameAlong ρ w f (makeFunction d) (makeFunction d') := by
  refine .bind .get fun w' m m' hw hm => ?_
  rw [hm.scope_eq, hm.scope_eq']
  exact .updateStore fun s s' hs => hs.addFunction ⟨rfl, rfl, marks, hf.mono hw, hd⟩

lemma makeGetter_along (hf : w.HasMarks f marks) {d d' : GetterDecl}
    (hd : Relabeled ρ marks (.getter d) (.getter d')) :
    SameAlong ρ w f (makeGetter d) (makeGetter d') := by
  refine .bind .get fun w' m m' hw hm => ?_
  rw [hm.scope_eq, hm.scope_eq']
  exact .updateStore fun s s' hs => hs.addGetter ⟨rfl, marks, hf.mono hw, hd⟩

lemma readProperty_along (object : Value) (name : Token) :
    SameAlong ρ w f (readProperty object name) (readProperty object name) := by
  cases object with
  | instanceRef i =>
    exact .bind_eq (.updateStore fun s s' hs => hs.property i name.lexeme)
      fun _ outcome _ => .ofExcept_same outcome name.line
  | _ => exact .fail .noProperties name.line

lemma readSuper_along (hnames : ρ.OfNames) (hf : w.HasMarks f marks) {id : NodeId}
    {keyword : Token} (ht : ρ.Renames marks (ρ.reaches marks id) keyword keyword)
    (method : Token) :
    SameAlong ρ w f (readSuper id keyword method) (readSuper id keyword method) := by
  refine .bind .get fun w' m m' hw hm => ?_
  have hf := hf.mono hw
  rw [hm.get?_eq, hm.get?_eq', hm.scope_eq, hm.scope_eq']
  have hword : ρ.word (ρ.reaches marks id) keyword.lexeme = keyword.lexeme :=
    (congrArg Token.lexeme ht.eq).symm
  rw [reaches] at hword
  cases hd : ρ.distance? id with
  | none => exact .fail .superUnresolved keyword.line
  | some distance =>
    have hsuper := hm.store.getAt hf ht.ne distance
    rw [hd] at hword
    rw [hword] at hsuper
    refine .bind_eq (.ofExcept hsuper (fun _ _ => rfl) keyword.line) fun w'' superclass hw' => ?_
    cases superclass with
    | classRef c =>
      have hthis := hm.store.getAt hf
        (fun _ => hnames.ne_new TokenKind.ofWord_this_ne) (distance - 1)
      rw [hnames.word_eq TokenKind.ofWord_this_ne] at hthis
      refine .bind_eq (.ofExcept hthis (fun _ _ => rfl) keyword.line) fun w₃ receiver hw'' => ?_
      have hmethod := hm.store.findMethod? c method.lexeme
      dsimp only
      revert hmethod
      generalize m.store.findMethod? c method.lexeme = f?
      generalize m'.store.findMethod? c method.lexeme = f'?
      rintro (hfunction | _)
      · refine .updateStore fun s s' hs => ?_
        obtain ⟨w₄, hw₄, hbound, hs'⟩ :=
          hs.bindFunction (hfunction.mono (hw'.trans hw'')) receiver
        obtain ⟨w₅, hw₅, hvalue, hs''⟩ := hs'.addFunction hbound
        exact ⟨w₅, hw₄.trans hw₅, hvalue, hs''⟩
      · exact .fail (.undefinedProperty method.lexeme) method.line
    | _ =>
      simp only [hm.store.looksLike.display_eq]
      exact .fail (.superNotClass _) keyword.line

/-! ### Classes -/

/-- Relabelled methods are entered under the same names. -/
lemma methodRecord_related (hf : w.HasMarks f marks) {ds ds' : List FunctionDecl}
    (hd : Relabeled ρ (false :: marks) (.functions ds) (.functions ds')) :
    Record.Related (Function.Relabeled ρ w [false]) (methodRecord f ds) (methodRecord f ds') := by
  have fold : ∀ (ds ds' : List FunctionDecl) (r r' : Record Function),
      Relabeled ρ (false :: marks) (.functions ds) (.functions ds') →
        Record.Related (Function.Relabeled ρ w [false]) r r' →
          Record.Related (Function.Relabeled ρ w [false])
            (ds.foldl (fun record d => record.insert d.name.lexeme
              ⟨d, f, d.name.lexeme = Store.initializerName⟩) r)
            (ds'.foldl (fun record d => record.insert d.name.lexeme
              ⟨d, f, d.name.lexeme = Store.initializerName⟩) r') := by
    intro ds
    induction ds with
    | nil =>
      intro ds' r r' hd hr
      cases hd
      exact hr
    | cons d ds ih =>
      intro ds' r r' hds hr
      cases hds with
      | @functions _ _ d' _ ds' hd hds =>
        rw [List.foldl_cons, List.foldl_cons, hd.function_name]
        refine ih _ _ _ hds ?_
        exact hr.insert _ ⟨rfl, rfl, marks, hf, hd⟩
  exact fold ds ds' [] [] hd .nil

/-- Relabelled getters are entered under the same names. -/
lemma getterRecord_related (hf : w.HasMarks f marks) {ds ds' : List GetterDecl}
    (hd : Relabeled ρ (false :: marks) (.getters ds) (.getters ds')) :
    Record.Related (Getter.Relabeled ρ w [false]) (getterRecord f ds) (getterRecord f ds') := by
  have fold : ∀ (ds ds' : List GetterDecl) (r r' : Record Getter),
      Relabeled ρ (false :: marks) (.getters ds) (.getters ds') →
        Record.Related (Getter.Relabeled ρ w [false]) r r' →
          Record.Related (Getter.Relabeled ρ w [false])
            (ds.foldl (fun record d => record.insert d.name.lexeme ⟨d, f⟩) r)
            (ds'.foldl (fun record d => record.insert d.name.lexeme ⟨d, f⟩) r') := by
    intro ds
    induction ds with
    | nil =>
      intro ds' r r' hd hr
      cases hd
      exact hr
    | cons d ds ih =>
      intro ds' r r' hds hr
      cases hds with
      | @getters _ _ d' _ ds' hd hds =>
        rw [List.foldl_cons, List.foldl_cons, hd.getter_name]
        refine ih _ _ _ hds ?_
        exact hr.insert _ ⟨rfl, marks, hf, hd⟩
  exact fold ds ds' [] [] hd .nil

/-- The frame of the current scope is there, so that a variable can be defined in it. -/
lemma slot?_define_isSome {s s' : Store} (hs : s.Relabeled ρ w s') (hf : w.HasMarks f marks)
    (name : String) (value : Value) :
    ((s.define f name value).slot? f name).isSome ∧
      ((s'.define f name value).slot? f name).isSome := by
  obtain ⟨spot, hspot, -⟩ := hf
  obtain ⟨frame, frame', hframe, hframe', -⟩ := hs.frame f spot hspot
  exact ⟨Store.slot?_setSlot_isSome hframe _ _, Store.slot?_setSlot_isSome hframe' _ _⟩

/-- A name that keeps its spelling is defined in the current scope. -/
lemma relabeled_define {s s' : Store} (hs : s.Relabeled ρ w s') {mark : Bool}
    (hf : w.HasMark f mark) {name : Token} (ht : ρ.Renames marks mark name name)
    (hmark : mark = true → true ∈ marks) (value : Value) :
    (s.define f name.lexeme value).Relabeled ρ w (s'.define f name.lexeme value) := by
  have hset := hs.setSlot hf (fun hm => ht.ne (hmark hm)) (some value)
  rwa [show ρ.word mark name.lexeme = name.lexeme from (congrArg Token.lexeme ht.eq).symm] at hset

/-- A class with relabelled members is bound to its name. -/
lemma relabeled_withClass {s s' : Store} (hs : s.Relabeled ρ w s') (hf : w.HasMarks f marks)
    {name : Token} (ht : ρ.Renames marks (marks.headD false) name name) {closure : FrameId}
    {marks' : List Bool} (hc : w.HasMarks closure marks') (ancestors : List ClassId)
    {methods methods' : List FunctionDecl} {getters getters' : List GetterDecl}
    (hmethods : Relabeled ρ (false :: marks') (.functions methods) (.functions methods'))
    (hgetters : Relabeled ρ (false :: marks') (.getters getters) (.getters getters')) :
    (withClass s f closure name.lexeme ancestors methods getters).Relabeled ρ w
      (withClass s' f closure name.lexeme ancestors methods' getters') := by
  have hclass : Class.Relabeled ρ w
      ⟨name.lexeme, ancestors, methodRecord closure methods, getterRecord closure getters, none⟩
      ⟨name.lexeme, ancestors, methodRecord closure methods', getterRecord closure getters',
        none⟩ :=
    Class.relabeled_of_related (methodRecord_related hc hmethods)
      (getterRecord_related hc hgetters)
  obtain ⟨hid, hadd⟩ := hs.addClass hclass
  unfold withClass
  dsimp only
  rw [hid]
  exact relabeled_define hadd hf.head ht mem_of_headD _

lemma declareClass_none_along (hf : w.HasMarks f marks) {name : Token}
    (ht : ρ.Renames marks (marks.headD false) name name)
    {methods methods' : List FunctionDecl} {getters getters' : List GetterDecl}
    (hmethods : Relabeled ρ (false :: marks) (.functions methods) (.functions methods'))
    (hgetters : Relabeled ρ (false :: marks) (.getters getters) (.getters getters')) :
    SameAlong ρ w f (declareClass name none methods getters)
      (declareClass name none methods' getters') := by
  intro m m' hm
  obtain ⟨hslot, hslot'⟩ := slot?_define_isSome hm.store hf name.lexeme .nil
  rw [← hm.scope_eq] at hslot
  rw [← hm.scope_eq'] at hslot'
  rw [declareClass_none hslot, declareClass_none hslot', hm.scope_eq, hm.scope_eq']
  have hs := relabeled_define hm.store hf.head ht mem_of_headD .nil
  have hclass := relabeled_withClass hs hf ht hf [] hmethods hgetters
  exact .ok List.prefix_rfl rfl ⟨hclass, hm.get?_eq, rfl, by rw [hm.eq]⟩

lemma declareClass_some_along (hf : w.HasMarks f marks) {name : Token}
    (ht : ρ.Renames marks (marks.headD false) name name) (superclass : ClassId)
    {methods methods' : List FunctionDecl} {getters getters' : List GetterDecl}
    (hmethods : Relabeled ρ (false :: false :: marks) (.functions methods) (.functions methods'))
    (hgetters : Relabeled ρ (false :: false :: marks) (.getters getters) (.getters getters')) :
    SameAlong ρ w f (declareClass name (some superclass) methods getters)
      (declareClass name (some superclass) methods' getters') := by
  intro m m' hm
  obtain ⟨hslot, hslot'⟩ := slot?_define_isSome hm.store hf name.lexeme .nil
  rw [← hm.scope_eq] at hslot
  rw [← hm.scope_eq'] at hslot'
  rw [declareClass_some hslot, declareClass_some hslot', hm.scope_eq, hm.scope_eq']
  have hs := relabeled_define hm.store hf.head ht mem_of_headD .nil
  -- the members are closed over a frame with the superclass, which has no mark
  have hopened := hs.openFrame hf .superclass false [("super", some (.classRef superclass))] nofun
  rw [ρ.record_false] at hopened
  obtain ⟨w', hw, ⟨hclosure, hm'⟩, hs'⟩ := hopened
  have hclass := relabeled_withClass hs' (hf.mono hw) ht hm'
    ((withSuperclass (m.store.define f name.lexeme .nil) f superclass).2.lineage superclass)
    hmethods hgetters
  refine .ok hw rfl ⟨?_, hm.get?_eq, rfl, by rw [hm.eq]⟩
  unfold withSuperclass at hclass ⊢
  rw [hclosure, hs'.lineage_eq]
  exact hclass

/-! ### Calls -/

/-- The variables of a call of relabelled code are the same, spelled as its parameters are. -/
lemma bindParameters_relabeled {mark : Bool} {params params' : List Token}
    (hp : List.Forall₂ (ρ.Renames (mark :: marks) mark) params params') (arguments : List Value) :
    bindParameters params' arguments = ρ.record mark (bindParameters params arguments) ∧
      (mark = true → (bindParameters params arguments).has ρ.new = false) := by
  have fold : ∀ (arguments : List Value) (vars : Record (Option Value)),
      (mark = true → vars.has ρ.new = false) →
        (params'.zip arguments).foldl (fun vars x => vars.insert x.1.lexeme (some x.2))
            (ρ.record mark vars) =
          ρ.record mark ((params.zip arguments).foldl
            (fun vars x => vars.insert x.1.lexeme (some x.2)) vars) ∧
        (mark = true → Record.has ((params.zip arguments).foldl
          (fun vars x => vars.insert x.1.lexeme (some x.2)) vars) ρ.new = false) := by
    induction hp with
    | nil => exact fun _ _ hv => ⟨rfl, hv⟩
    | @cons t t' params params' ht _ ih =>
      intro arguments vars hv
      cases arguments with
      | nil => exact ⟨rfl, hv⟩
      | cons argument arguments =>
        have hne : mark = true → t.lexeme ≠ ρ.new := by
          rintro rfl
          exact ht.ne List.mem_cons_self
        rw [List.zip_cons_cons, List.zip_cons_cons, List.foldl_cons, List.foldl_cons, ht.eq]
        dsimp only [token]
        rw [← record_insert hv hne]
        exact ih arguments _ fun hm => has_insert_new (hv hm) (hne hm)
  exact fold arguments [] fun _ => rfl

lemma resultOf_along (line : Nat) (completion : Completion) :
    SameAlong ρ w f (resultOf line completion) (resultOf line completion) := by
  cases completion with
  | normal => exact .pure rfl
  | returned value => exact .pure rfl
  | broke => exact .fail _ _

/-- The token that a superclass is blamed on is in the same line. -/
lemma superclassToken_relabeled {name : Token} {superclass superclass' : Expr}
    (h : Relabeled ρ marks (.expr superclass) (.expr superclass')) :
    (superclassToken name superclass').line = (superclassToken name superclass).line := by
  cases h with
  | name ht =>
    rw [superclassToken, superclassToken, ht.eq]
    rfl
  | _ => rfl

/-! ### Everything that the evaluator does -/

/-- Within a number of steps, everything with relabelled code gives the same. -/
structure Abreast (ρ : Relabeling) (steps : Nat) : Prop where
  evaluate : ∀ {w : Spots} {f : FrameId} {marks : List Bool} {e e' : Expr},
    w.HasMarks f marks → Relabeled ρ marks (.expr e) (.expr e') →
      SameAlong ρ w f (evaluate steps e) (evaluate steps e')
  evaluateAll : ∀ {w : Spots} {f : FrameId} {marks : List Bool} {es es' : List Expr},
    w.HasMarks f marks → Relabeled ρ marks (.exprs es) (.exprs es') →
      SameAlong ρ w f (evaluateAll steps es) (evaluateAll steps es')
  call : ∀ {w : Spots} {f : FrameId} (callee : Value) (line : Nat) (arguments : List Value),
    SameAlong ρ w f (call steps callee line arguments) (call steps callee line arguments)
  run : ∀ {w : Spots} {f : FrameId} {k k' : Callable} (arguments : List Value),
    k.Relabeled ρ w k' → SameAlong ρ w f (run steps k arguments) (run steps k' arguments)
  runFunction : ∀ {w : Spots} {f : FrameId} {k k' : Function} (arguments : List Value),
    k.Relabeled ρ w [] k' →
      SameAlong ρ w f (runFunction steps k arguments) (runFunction steps k' arguments)
  runGetter : ∀ {w : Spots} {f : FrameId} {g g' : Getter},
    g.Relabeled ρ w [] g' → SameAlong ρ w f (runGetter steps g) (runGetter steps g')
  construct : ∀ {w : Spots} {f : FrameId} (c : ClassId) (arguments : List Value),
    SameAlong ρ w f (construct steps c arguments) (construct steps c arguments)
  execute : ∀ {w : Spots} {f : FrameId} {marks : List Bool} {s s' : Stmt},
    w.HasMarks f marks → Relabeled ρ marks (.stmt s) (.stmt s') →
      SameAlong ρ w f (execute steps s) (execute steps s')
  repeatWhile : ∀ {w : Spots} {f : FrameId} {marks : List Bool} {e e' : Expr} {s s' : Stmt},
    w.HasMarks f marks → Relabeled ρ marks (.expr e) (.expr e') →
      Relabeled ρ marks (.stmt s) (.stmt s') →
        SameAlong ρ w f (repeatWhile steps e s) (repeatWhile steps e' s')
  executeAll : ∀ {w : Spots} {f : FrameId} {marks : List Bool} {ss ss' : List Stmt},
    w.HasMarks f marks → Relabeled ρ marks (.stmts ss) (.stmts ss') →
      SameAlong ρ w f (executeAll steps ss) (executeAll steps ss')

section Step

variable {steps : Nat} (hnames : ρ.OfNames) (h : Abreast ρ steps)

include h

include hnames in
lemma evaluate_along (hf : w.HasMarks f marks) {e e' : Expr}
    (he : Relabeled ρ marks (.expr e) (.expr e')) :
    SameAlong ρ w f (evaluate (steps + 1) e) (evaluate (steps + 1) e') := by
  cases he with
  | literal => exact .pure rfl
  | grouping hinner => exact h.evaluate hf hinner
  | @unary _ operator _ _ hoperand =>
    exact .bind_eq (h.evaluate hf hoperand) fun _ value _ => .ofExcept_same _ operator.line
  | @binary _ operator _ _ _ _ hleft hright =>
    refine .bind_eq (h.evaluate hf hleft) fun w₁ a hw₁ => ?_
    refine .bind_eq (.holding a (h.evaluate (hf.mono hw₁) hright)) fun w₂ b _ => ?_
    refine .bind .store fun w₃ s s' _ hs => ?_
    have happly : Value.applyBinary s' operator.kind a b =
        Value.applyBinary s operator.kind a b := by
      have hadd : Value.add s' a b = Value.add s a b := by
        cases a <;> cases b <;> simp [Value.add, hs.looksLike.display_eq]
      unfold Value.applyBinary
      rw [hadd]
    rw [happly]
    exact .ofExcept_same _ operator.line
  | @logical _ operator _ _ _ _ hleft hright =>
    refine .bind_eq (h.evaluate hf hleft) fun w₁ a hw₁ => ?_
    split_ifs
    · exact .pure rfl
    · exact h.evaluate (hf.mono hw₁) hright
    · exact .holding a (h.evaluate (hf.mono hw₁) hright)
    · exact .pure rfl
  | ternary hcondition hfirst hsecond =>
    refine .bind_eq (h.evaluate hf hcondition) fun w₁ a hw₁ => ?_
    split
    · exact h.evaluate (hf.mono hw₁) hfirst
    · exact h.evaluate (hf.mono hw₁) hsecond
  | name ht => exact readVariable_along hf ht
  | this ht => exact readVariable_along hf ht
  | assign ht hvalue =>
    refine .bind_eq (h.evaluate hf hvalue) fun w₁ value hw₁ => ?_
    exact .bind_eq (writeVariable_along (hf.mono hw₁) ht value) fun _ _ _ => .pure rfl
  | @call _ paren _ _ _ _ hcallee harguments =>
    refine .bind_eq (h.evaluate hf hcallee) fun w₁ callee hw₁ => ?_
    refine .bind_eq (.holding callee (h.evaluateAll (hf.mono hw₁) harguments)) fun _ values _ => ?_
    exact h.call callee paren.line values
  | @get _ name _ _ hobject =>
    refine .bind_eq (h.evaluate hf hobject) fun w₁ object hw₁ => ?_
    refine .bind_eq (readProperty_along object name) fun w₂ property hw₂ => ?_
    refine .bind .store fun w₃ s s' _ hs => ?_
    have hgetter := hs.getter? property
    revert hgetter
    generalize s.getter? property = g?
    generalize s'.getter? property = g'?
    rintro (hg | _)
    · exact .holding object (h.runGetter hg)
    · exact .pure rfl
  | @nilGet _ name _ _ hobject =>
    refine .bind_eq (h.evaluate hf hobject) fun w₁ object hw₁ => ?_
    cases object with
    | nil => exact .pure rfl
    | _ => exact readProperty_along _ name
  | @set _ name _ _ _ _ hobject hvalue =>
    refine .bind_eq (h.evaluate hf hobject) fun w₁ object hw₁ => ?_
    cases object with
    | instanceRef i =>
      refine .bind_eq (.holding _ (h.evaluate (hf.mono hw₁) hvalue)) fun w₂ value _ => ?_
      refine .bind_eq (.changeStore fun s s' hs => ?_) fun _ _ _ => .pure rfl
      exact hs.withInstances (·.modify i fun inst =>
        { inst with fields := inst.fields.insert name.lexeme value })
    | _ => exact .fail .noFields name.line
  | @super _ id keyword method ht => exact readSuper_along hnames hf ht method
  | lambda hd => exact makeFunction_along hf hd

lemma evaluateAll_along (hf : w.HasMarks f marks) {es es' : List Expr}
    (he : Relabeled ρ marks (.exprs es) (.exprs es')) :
    SameAlong ρ w f (evaluateAll (steps + 1) es) (evaluateAll (steps + 1) es') := by
  cases he with
  | noExprs => exact .pure rfl
  | exprs hfirst hrest =>
    refine .bind_eq (h.evaluate hf hfirst) fun w₁ value hw₁ => ?_
    exact .bind_eq (.holding value (h.evaluateAll (hf.mono hw₁) hrest)) fun _ _ _ => .pure rfl

lemma call_along (callee : Value) (line : Nat) (arguments : List Value) :
    SameAlong ρ w f (call (steps + 1) callee line arguments)
      (call (steps + 1) callee line arguments) := by
  refine .bind .store fun w₁ s s' _ hs => ?_
  cases callee with
  | callable id =>
    have hcallable := hs.callables id
    dsimp only
    revert hcallable
    generalize s.callables[id]? = k?
    generalize s'.callables[id]? = k'?
    rintro (hk | _)
    · dsimp only
      rw [hk.arity_eq]
      split
      · exact h.run arguments hk
      · exact .fail _ line
    · exact .fail .notCallable line
  | classRef c =>
    dsimp only
    rw [hs.classArity_eq]
    split
    · exact h.construct c arguments
    · exact .fail _ line
  | _ => exact .fail .notCallable line

lemma run_along {k k' : Callable} (arguments : List Value) (hk : k.Relabeled ρ w k') :
    SameAlong ρ w f (run (steps + 1) k arguments) (run (steps + 1) k' arguments) := by
  cases hk with
  | function hf => exact h.runFunction arguments hf
  | getter hg => exact h.runGetter hg
  | builtin b => exact .ofAgree (b.run_agree (Machine.Relabeled.likeness ρ w f) arguments)
  | hostMethod method receiver =>
    exact .ofAgree (method.run_agree (Machine.Relabeled.likeness ρ w f) receiver arguments)

include hnames in
lemma runFunction_along {k k' : Function} (arguments : List Value) (hk : k.Relabeled ρ w [] k') :
    SameAlong ρ w f (runFunction (steps + 1) k arguments)
      (runFunction (steps + 1) k' arguments) := by
  obtain ⟨d, closure, isInitializer⟩ := k
  obtain ⟨d', closure', isInitializer'⟩ := k'
  obtain ⟨hc, hi, marks, hclosure, hd⟩ := hk
  obtain rfl : closure' = closure := hc
  obtain rfl : isInitializer' = isInitializer := hi
  cases hd with
  | @function _ mark name params params' body body' hparams hbody =>
    obtain ⟨hvars, hfresh⟩ := bindParameters_relabeled hparams arguments
    have opened : ∀ s s' : Store, s.Relabeled ρ w s' →
        Store.GoAlong ρ w (fun w' g g' => g' = g ∧ Spots.HasMarks w' g (mark :: marks))
          (s.openFrame .call closure' (bindParameters params arguments))
          (s'.openFrame .call closure' (bindParameters params' arguments)) := by
      intro s s' hs
      rw [hvars]
      exact hs.openFrame hclosure .call mark _ hfresh
    refine .bind (.updateStore opened) ?_
    rintro w₁ frame _ hw₁ ⟨rfl, hframe⟩
    refine .bind_eq (.within _ (h.executeAll hframe hbody)) fun w₂ completion hw₂ => ?_
    refine .bind_eq (resultOf_along name.line completion) fun w₃ result hw₃ => ?_
    split
    · refine .bind .store fun w₄ s s' hw₄ hs => ?_
      have hthis := hs.getAt (hclosure.mono (((hw₁.trans hw₂).trans hw₃).trans hw₄))
        (fun _ => hnames.ne_new TokenKind.ofWord_this_ne) 0
      rw [hnames.word_eq TokenKind.ofWord_this_ne] at hthis
      exact .ofExcept hthis (fun _ _ => rfl) name.line
    · exact .pure rfl

lemma runGetter_along {g g' : Getter} (hg : g.Relabeled ρ w [] g') :
    SameAlong ρ w f (runGetter (steps + 1) g) (runGetter (steps + 1) g') := by
  obtain ⟨d, closure⟩ := g
  obtain ⟨d', closure'⟩ := g'
  obtain ⟨hc, marks, hclosure, hd⟩ := hg
  obtain rfl : closure' = closure := hc
  cases hd with
  | @getter _ mark name body body' hbody =>
    refine .bind (.updateStore fun s s' hs =>
      hs.openFrame hclosure .call mark [] fun _ => rfl) ?_
    rintro w₁ frame _ hw₁ ⟨rfl, hframe⟩
    refine .bind_eq (.within _ (h.executeAll hframe hbody)) fun w₂ completion _ => ?_
    exact resultOf_along name.line completion

lemma construct_along (c : ClassId) (arguments : List Value) :
    SameAlong ρ w f (construct (steps + 1) c arguments) (construct (steps + 1) c arguments) := by
  refine .bind .store fun w₁ s s' hw₁ hs => ?_
  rw [hs.host_eq]
  cases (s.classes[c]?).bind Class.host with
  | some host =>
    exact .ofAgree (host.construct_agree (Machine.Relabeled.likeness ρ w₁ f) c arguments)
  | none =>
    have hinit := hs.findMethod? c Store.initializerName
    dsimp only
    refine .bind_eq (.updateStore fun s s' hs => ?_) fun w₂ i hw₂ => ?_
    · exact ⟨_, List.prefix_rfl, congrArg Array.size hs.instances_eq.symm,
        hs.withInstances (·.push ⟨c, [], none⟩)⟩
    revert hinit
    generalize s.findMethod? c Store.initializerName = k?
    generalize s'.findMethod? c Store.initializerName = k'?
    rintro (hk | _)
    · refine .bind (.updateStore fun s s' hs => hs.bindFunction (hk.mono hw₂) _) ?_
      intro w₃ bound bound' _ hbound
      exact .bind_eq (h.runFunction arguments hbound) fun _ _ _ => .pure rfl
    · exact .pure rfl

lemma execute_along (hf : w.HasMarks f marks) {s s' : Stmt}
    (hs : Relabeled ρ marks (.stmt s) (.stmt s')) :
    SameAlong ρ w f (execute (steps + 1) s) (execute (steps + 1) s') := by
  cases hs with
  | expression hvalue => exact .bind_eq (h.evaluate hf hvalue) fun _ _ _ => .pure rfl
  | @print _ keyword _ _ hvalue =>
    refine .bind_eq (h.evaluate hf hvalue) fun w₁ value _ => ?_
    refine .bind .store fun w₂ s s' _ hs => ?_
    rw [hs.looksLike.display_eq]
    exact .bind_eq (.print _ keyword.line) fun _ _ _ => .pure rfl
  | @uninitialized _ name name' ht =>
    refine .bind .get fun w₁ m m' hw₁ hm => ?_
    rw [hm.scope_eq, hm.scope_eq', ht.eq]
    refine .bind_eq (.changeStore fun s s' hs => ?_) fun _ _ _ => .pure rfl
    exact hs.setSlot (hf.mono hw₁).head (fun hm => ht.ne (mem_of_headD hm)) none
  | initialized ht hvalue =>
    refine .bind_eq (h.evaluate hf hvalue) fun w₁ value hw₁ => ?_
    exact .bind_eq (defineHere_along (hf.mono hw₁) ht value) fun _ _ _ => .pure rfl
  | @block _ mark _ _ hbody =>
    refine .bind .get fun w₁ m m' hw₁ hm => ?_
    rw [hm.scope_eq, hm.scope_eq']
    refine .bind (.updateStore fun s s' hs =>
      hs.openFrame (hf.mono hw₁) .block mark [] fun _ => rfl) ?_
    rintro w₂ frame _ _ ⟨rfl, hframe⟩
    exact .within _ (h.executeAll hframe hbody)
  | functionDecl ht hd =>
    refine .bind_eq (makeFunction_along hf hd) fun w₁ value hw₁ => ?_
    rw [hd.function_name]
    exact .bind_eq (defineHere_along (hf.mono hw₁) ht value) fun _ _ _ => .pure rfl
  | getterDecl ht hd =>
    refine .bind_eq (makeGetter_along hf hd) fun w₁ value hw₁ => ?_
    rw [hd.getter_name]
    exact .bind_eq (defineHere_along (hf.mono hw₁) ht value) fun _ _ _ => .pure rfl
  | plainClass ht hmethods hgetters =>
    exact .bind_eq (declareClass_none_along hf ht hmethods hgetters) fun _ _ _ => .pure rfl
  | @derivedClass _ name superclass superclass' _ _ _ _ ht hsuper hmethods hgetters =>
    refine .bind_eq (h.evaluate hf hsuper) fun w₁ value hw₁ => ?_
    cases value with
    | classRef c =>
      exact .bind_eq (declareClass_some_along (hf.mono hw₁) ht c hmethods hgetters) fun _ _ _ =>
        .pure rfl
    | _ =>
      have hline :
          (superclassToken name superclass').line = (superclassToken name superclass).line :=
        superclassToken_relabeled hsuper
      refine .bind_eq ?_ fun _ _ _ => .pure rfl
      simp only [hline]
      exact .fail .superclassNotClass _
  | ifOnly hcondition hconsequent =>
    refine .bind_eq (h.evaluate hf hcondition) fun w₁ value hw₁ => ?_
    split
    · exact h.execute (hf.mono hw₁) hconsequent
    · exact .pure rfl
  | ifElse hcondition hconsequent halternative =>
    refine .bind_eq (h.evaluate hf hcondition) fun w₁ value hw₁ => ?_
    split
    · exact h.execute (hf.mono hw₁) hconsequent
    · exact h.execute (hf.mono hw₁) halternative
  | whileStmt hcondition hbody => exact h.repeatWhile hf hcondition hbody
  | breakStmt => exact .pure rfl
  | returnNothing => exact .pure rfl
  | returnValue hvalue => exact .bind_eq (h.evaluate hf hvalue) fun _ _ _ => .pure rfl

lemma repeatWhile_along (hf : w.HasMarks f marks) {e e' : Expr} {s s' : Stmt}
    (he : Relabeled ρ marks (.expr e) (.expr e')) (hs : Relabeled ρ marks (.stmt s) (.stmt s')) :
    SameAlong ρ w f (repeatWhile (steps + 1) e s) (repeatWhile (steps + 1) e' s') := by
  refine .bind_eq (h.evaluate hf he) fun w₁ value hw₁ => ?_
  split
  · refine .bind_eq (h.execute (hf.mono hw₁) hs) fun w₂ completion hw₂ => ?_
    cases completion with
    | normal => exact h.repeatWhile ((hf.mono hw₁).mono hw₂) he hs
    | broke => exact .pure rfl
    | returned value => exact .pure rfl
  · exact .pure rfl

lemma executeAll_along (hf : w.HasMarks f marks) {ss ss' : List Stmt}
    (hs : Relabeled ρ marks (.stmts ss) (.stmts ss')) :
    SameAlong ρ w f (executeAll (steps + 1) ss) (executeAll (steps + 1) ss') := by
  cases hs with
  | noStmts => exact .pure rfl
  | stmts hfirst hrest =>
    refine .bind_eq (h.execute hf hfirst) fun w₁ completion hw₁ => ?_
    cases completion with
    | normal => exact h.executeAll (hf.mono hw₁) hrest
    | broke => exact .pure rfl
    | returned value => exact .pure rfl

end Step

/-- Everything with relabelled code gives the same. -/
theorem abreast (hnames : ρ.OfNames) (steps : Nat) : Abreast ρ steps := by
  induction steps with
  | zero => constructor <;> intros <;> exact .throw .exhausted
  | succ steps h =>
    exact ⟨fun hf => evaluate_along hnames h hf, fun hf => evaluateAll_along h hf, call_along h,
      run_along h, runFunction_along hnames h, runGetter_along h, construct_along h,
      fun hf => execute_along h hf, fun hf => repeatWhile_along h hf,
      fun hf => executeAll_along h hf⟩

/-- A relabelled program runs like the program. -/
theorem runProgram_along (hnames : ρ.OfNames) (steps : Nat) (hf : w.HasMarks f marks)
    {p p' : Program} (hp : Relabeled ρ marks (.stmts p) (.stmts p')) :
    SameAlong ρ w f (runProgram steps p) (runProgram steps p') := by
  induction p generalizing w p' with
  | nil =>
    cases hp
    exact .pure rfl
  | cons s rest ih =>
    cases hp with
    | stmts hs hrest =>
      refine .bind_eq ((abreast hnames steps).execute hf hs) fun w₁ completion hw₁ => ?_
      cases completion with
      | normal => exact ih (hf.mono hw₁) hrest
      | returned value => exact ih (hf.mono hw₁) hrest
      | broke => exact .fail .strayBreak 0

end Eval

end Scripting
