import Mathlib.Data.List.Count
import Mathlib.Tactic.Common
import Scripting.Store.References

/-!
# What is never abandoned

Abandonment is decided by counting references. While references are taken away, the count of
everything is at least the number of references to it from the roots and from what is not abandoned
yet. So whatever can be reached from the roots keeps a reference. And a further root that could be
reached anyway changes nothing about what is abandoned: its own count is never down to nothing, with
the root or without it, and the other counts are the same.
-/

namespace Scripting

namespace Store

variable {s : Store} {roots : List Reference} {r : Reference}

/-- What can be reached from roots by going along references. -/
inductive Reached (s : Store) (roots : List Reference) : Reference → Prop
  | root {r : Reference} : r ∈ roots → Reached s roots r
  | next {r r' : Reference} : Reached s roots r → r' ∈ s.referencesOf r → Reached s roots r'

/-- With more roots, as much can be reached. -/
lemma Reached.mono {roots' : List Reference} (h : s.Reached roots r) (hr : roots ⊆ roots') :
    s.Reached roots' r := by
  induction h with
  | root hmem => exact .root (hr hmem)
  | next _ hmem ih => exact .next ih hmem

/-- The number of references to a place. -/
def countAt (s : Store) (references : List Reference) (p : Nat) : Nat :=
  (references.map s.placeOf).count p

lemma countAt_append (first rest : List Reference) (p : Nat) :
    s.countAt (first ++ rest) p = s.countAt first p + s.countAt rest p := by
  rw [countAt, List.map_append, List.count_append]
  rfl

lemma countAt_cons (first : Reference) (rest : List Reference) (p : Nat) :
    s.countAt (first :: rest) p = s.countAt rest p + if s.placeOf first = p then 1 else 0 := by
  rw [countAt, List.map_cons, List.count_cons]
  simp [countAt]

lemma countAt_pos {references : List Reference} (h : r ∈ references) :
    0 < s.countAt references (s.placeOf r) :=
  List.count_pos_iff.mpr (List.mem_map_of_mem h)

/-! ### Counting -/

lemma getElem?_countAll (counts : Array Nat) (references : List Reference) (p : Nat) :
    (s.countAll counts references)[p]? = (counts[p]?).map (· + s.countAt references p) := by
  induction references generalizing counts with
  | nil => simp [countAll, countAt]
  | cons first rest ih =>
    refine (ih _).trans ?_
    rw [Array.getElem?_modify, countAt_cons]
    split_ifs with hp
    · rw [Option.map_map]
      congr 1
      funext n
      simp only [Function.comp_apply]
      omega
    · rfl

/-- References are counted from within the store and from the roots. -/
lemma getElem?_referenceCounts (p : Nat) :
    (s.referenceCounts roots)[p]? =
      ((Array.replicate (s.frames.size + s.callables.size + s.classes.size + s.instances.size)
        0)[p]?).map (· + s.countAt (roots ++ s.contents.flatMap s.referencesOf) p) := by
  have hcontents : ∀ (contents : List Reference) (counts : Array Nat),
      (contents.foldl (fun counts r => s.countAll counts (s.referencesOf r)) counts)[p]? =
        (counts[p]?).map (· + s.countAt (contents.flatMap s.referencesOf) p) := by
    intro contents
    induction contents with
    | nil =>
      intro counts
      simp [countAt]
    | cons first rest ih =>
      intro counts
      rw [List.foldl_cons, ih, getElem?_countAll, List.flatMap_cons, countAt_append, Option.map_map]
      congr 1
      funext n
      simp only [Function.comp_apply]
      omega
  rw [referenceCounts, hcontents, getElem?_countAll, Option.map_map, countAt_append]
  congr 1
  funext n
  simp only [Function.comp_apply]
  omega

/-- Taking references away from a count. -/
lemma getElem?_uncountAll (references : List Reference) (counts : Array Nat)
    (abandoned : List Reference) (p : Nat) :
    (s.uncountAll counts abandoned references).1[p]? =
      (counts[p]?).map (· - s.countAt references p) := by
  induction references generalizing counts abandoned with
  | nil => simp [uncountAll, countAt]
  | cons first rest ih =>
    unfold uncountAll
    dsimp only
    split
    · next hone =>
      rw [ih, Array.getElem?_modify, countAt_cons]
      split_ifs with hp
      · rw [← hp, hone]
        simp
      · rfl
    · rw [ih, Array.getElem?_modify, countAt_cons]
      split_ifs with hp
      · rw [Option.map_map]
        congr 1
        funext n
        simp only [Function.comp_apply]
        omega
      · rfl

lemma uncountAll_cons_of_one {counts : Array Nat} {first : Reference}
    {abandoned rest : List Reference} (h : counts[s.placeOf first]? = some 1) :
    s.uncountAll counts abandoned (first :: rest) =
      s.uncountAll (counts.modify (s.placeOf first) fun _ => 0) (first :: abandoned) rest := by
  rw [uncountAll]
  simp only [h]

lemma uncountAll_cons_of_ne {counts : Array Nat} {first : Reference}
    {abandoned rest : List Reference} (h : counts[s.placeOf first]? ≠ some 1) :
    s.uncountAll counts abandoned (first :: rest) =
      s.uncountAll (counts.modify (s.placeOf first) (· - 1)) abandoned rest := by
  rw [uncountAll]
  split
  · next hone => exact absurd hone h
  · rfl

/-- What has no references left has none later. -/
lemma uncountAll_zero {references : List Reference} {counts : Array Nat}
    {abandoned : List Reference} {p : Nat} (h : counts[p]? = some 0) :
    (s.uncountAll counts abandoned references).1[p]? = some 0 := by
  rw [getElem?_uncountAll, h]
  simp

lemma abandon_succ_cons (steps : Nat) (counts : Array Nat) (first : Reference)
    (rest : List Reference) :
    s.abandon (steps + 1) counts (first :: rest) =
      s.abandon steps (s.uncountAll counts rest (s.referencesOf first)).1
        (s.uncountAll counts rest (s.referencesOf first)).2 :=
  rfl

lemma abandon_zero {steps : Nat} {counts : Array Nat} {abandoned : List Reference} {p : Nat}
    (h : counts[p]? = some 0) : (s.abandon steps counts abandoned)[p]? = some 0 := by
  induction steps generalizing counts abandoned with
  | zero =>
    cases abandoned <;> exact h
  | succ steps ih =>
    cases abandoned with
    | nil => exact h
    | cons first rest => exact ih (uncountAll_zero h)

/-! ### What can be reached -/

lemma mem_contents_of_mem_referencesOf {r' : Reference} (h : r' ∈ s.referencesOf r) :
    r ∈ s.contents := by
  cases r with
  | frame f =>
    cases hf : s.frames[f]? with
    | none => simp [referencesOf, hf] at h
    | some frame => simp [contents, (Array.getElem?_eq_some_iff.mp hf).1]
  | callable k =>
    cases hk : s.callables[k]? with
    | none => simp [referencesOf, hk] at h
    | some callable => simp [contents, (Array.getElem?_eq_some_iff.mp hk).1]
  | classRef c =>
    cases hc : s.classes[c]? with
    | none => simp [referencesOf, hc] at h
    | some cls => simp [contents, (Array.getElem?_eq_some_iff.mp hc).1]
  | instanceRef i =>
    cases hi : s.instances[i]? with
    | none => simp [referencesOf, hi] at h
    | some inst => simp [contents, (Array.getElem?_eq_some_iff.mp hi).1]

/-- Everything has a place of its own. -/
lemma map_placeOf_contents (s : Store) : s.contents.map s.placeOf =
    List.range (s.frames.size + s.callables.size + s.classes.size + s.instances.size) := by
  simp only [contents, List.map_append, List.map_map, List.range_add, List.append_assoc]
  refine congrArg₂ _ ?_ (congrArg₂ _ rfl (congrArg₂ _ rfl rfl))
  exact List.map_id _

/-- The counts while references are taken away: what is `pending` has no references any more but
still counts as one that refers, the places `gone` do not, and what is `alive` counts, too. -/
structure Counted (s : Store) (roots : List Reference) (counts : Array Nat)
    (pending : List Reference) (gone : List Nat) (alive : List Reference) : Prop where
  zero : ∀ p ∈ pending.map s.placeOf ++ gone, counts[p]? = some 0
  nodup : (pending.map s.placeOf ++ gone).Nodup
  divided : ∀ r ∈ s.contents, r ∈ alive ∨ s.placeOf r ∈ gone
  enough : ∀ p n, counts[p]? = some n → s.countAt (roots ++ alive.flatMap s.referencesOf) p ≤ n

namespace Counted

variable {counts : Array Nat} {pending alive : List Reference} {gone : List Nat}

/-- What can be reached has a reference. -/
lemma ne_zero (h : s.Counted roots counts pending gone alive) (hr : s.Reached roots r) :
    counts[s.placeOf r]? ≠ some 0 := by
  induction hr with
  | root hr =>
    intro hzero
    have hle := h.enough _ _ hzero
    rw [countAt_append] at hle
    have hpos := countAt_pos (s := s) hr
    omega
  | @next r r' _ hr' ih =>
    intro hzero
    have halive : r ∈ alive := by
      rcases h.divided r (mem_contents_of_mem_referencesOf hr') with halive | hgone
      · exact halive
      · exact absurd (h.zero _ (List.mem_append_right _ hgone)) ih
    have hle := h.enough _ _ hzero
    have hpos := countAt_pos (s := s) (List.mem_flatMap.mpr ⟨r, halive, hr'⟩)
    rw [countAt_append] at hle
    omega

/-- Taking references away makes pending what has none left. -/
lemma zero_uncountAll (references : List Reference)
    (hzero : ∀ p ∈ pending.map s.placeOf ++ gone, counts[p]? = some 0)
    (hnodup : (pending.map s.placeOf ++ gone).Nodup) :
    (∀ p ∈ (s.uncountAll counts pending references).2.map s.placeOf ++ gone,
      (s.uncountAll counts pending references).1[p]? = some 0) ∧
      ((s.uncountAll counts pending references).2.map s.placeOf ++ gone).Nodup := by
  induction references generalizing counts pending with
  | nil => exact ⟨hzero, hnodup⟩
  | cons first rest ih =>
    unfold uncountAll
    dsimp only
    split
    · next hone =>
      refine ih ?_ ?_
      · intro p hp
        rw [Array.getElem?_modify]
        split_ifs with he
        · rw [← he, hone]
          rfl
        · rw [List.map_cons, List.cons_append, List.mem_cons] at hp
          exact hzero p (hp.resolve_left (Ne.symm he))
      · rw [List.map_cons, List.cons_append, List.nodup_cons]
        refine ⟨fun hmem => ?_, hnodup⟩
        rw [hzero _ hmem] at hone
        cases hone
    · refine ih ?_ hnodup
      intro p hp
      rw [Array.getElem?_modify]
      split_ifs
      · rw [hzero p hp]
        rfl
      · exact hzero p hp

/-- The references of something that is pending are taken away. -/
lemma uncount (h : s.Counted roots counts (r :: pending) gone alive) :
    ∃ alive', s.Counted roots (s.uncountAll counts pending (s.referencesOf r)).1
      (s.uncountAll counts pending (s.referencesOf r)).2 (s.placeOf r :: gone) alive' := by
  have hperm : (List.map s.placeOf (r :: pending) ++ gone).Perm
      (pending.map s.placeOf ++ s.placeOf r :: gone) := by
    rw [List.map_cons, List.cons_append]
    exact List.perm_middle.symm
  obtain ⟨hzero, hnodup⟩ := zero_uncountAll (s.referencesOf r)
    (fun p hp => h.zero p (hperm.mem_iff.mpr hp)) (hperm.nodup_iff.mp h.nodup)
  by_cases hr : r ∈ alive
  · refine ⟨alive.erase r, hzero, hnodup, fun x hx => ?_, fun p n hn => ?_⟩
    · rcases h.divided x hx with hx | hx
      · by_cases he : x = r
        · subst he
          exact .inr List.mem_cons_self
        · exact .inl ((List.mem_erase_of_ne he).mpr hx)
      · exact .inr (List.mem_cons_of_mem _ hx)
    · rw [getElem?_uncountAll] at hn
      obtain ⟨n, hcount, rfl⟩ := Option.map_eq_some_iff.mp hn
      have hle := h.enough p n hcount
      -- the others have at most what is left
      have hsplit : s.countAt (alive.flatMap s.referencesOf) p =
          s.countAt (s.referencesOf r) p +
            s.countAt ((alive.erase r).flatMap s.referencesOf) p := by
        rw [← countAt_append, ← List.flatMap_cons]
        exact (((List.perm_cons_erase hr).flatMap_right _).map _).count_eq p
      rw [countAt_append] at hle ⊢
      omega
  · have hnone : s.referencesOf r = [] := by
      refine List.eq_nil_iff_forall_not_mem.mpr fun r' hr' => ?_
      rcases h.divided r (mem_contents_of_mem_referencesOf hr') with halive | hgone
      · exact hr halive
      · have hfirst := (List.nodup_cons.mp h.nodup).1
        exact hfirst (List.mem_append_right _ hgone)
    refine ⟨alive, hzero, hnodup, fun x hx => ?_, ?_⟩
    · exact (h.divided x hx).imp_right (List.mem_cons_of_mem _)
    · rw [hnone]
      exact h.enough

lemma exists_abandon {steps : Nat} (h : s.Counted roots counts pending gone alive) :
    ∃ pending' gone' alive', s.Counted roots (s.abandon steps counts pending) pending' gone'
      alive' := by
  induction steps generalizing counts pending gone alive with
  | zero =>
    refine ⟨pending, gone, alive, ?_⟩
    cases pending <;> exact h
  | succ steps ih =>
    cases pending with
    | nil => exact ⟨[], gone, alive, h⟩
    | cons first rest =>
      obtain ⟨alive', h'⟩ := h.uncount
      exact ih h'

end Counted

/-- The counts at the beginning: nothing is gone. -/
lemma counted_referenceCounts (s : Store) (roots : List Reference) :
    s.Counted roots (s.referenceCounts roots)
      (s.contents.filter fun r => (s.referenceCounts roots)[s.placeOf r]? = some 0) []
      s.contents where
  zero := by
    intro p hp
    rw [List.append_nil, List.mem_map] at hp
    obtain ⟨r, hr, rfl⟩ := hp
    simpa using (List.mem_filter.mp hr).2
  nodup := by
    rw [List.append_nil]
    have hall : (s.contents.map s.placeOf).Nodup := by
      rw [map_placeOf_contents]
      exact List.nodup_range
    exact hall.sublist (List.filter_sublist.map _)
  divided := fun r hr => .inl hr
  enough := by
    intro p n hn
    rw [getElem?_referenceCounts] at hn
    obtain ⟨n', -, rfl⟩ := Option.map_eq_some_iff.mp hn
    exact Nat.le_add_left _ _

/-- What can be reached from the roots is never abandoned. -/
theorem liveCounts_ne_zero (h : s.Reached roots r) :
    (s.liveCounts roots)[s.placeOf r]? ≠ some 0 := by
  obtain ⟨pending, gone, alive, hc⟩ :=
    (s.counted_referenceCounts roots).exists_abandon
  exact hc.ne_zero h

/-! ### One more root -/

/-- Counts that are the same but for one more reference to a place. -/
def OneMore (p : Nat) (counts counts' : Array Nat) : Prop :=
  ∀ q, counts'[q]? = (counts[q]?).map (· + if p = q then 1 else 0)

lemma oneMore_referenceCounts (before after : List Reference) :
    OneMore (s.placeOf r) (s.referenceCounts (before ++ after))
      (s.referenceCounts (before ++ r :: after)) := by
  intro q
  rw [getElem?_referenceCounts, getElem?_referenceCounts, Option.map_map]
  congr 1
  funext n
  simp only [Function.comp_apply, countAt_append, countAt_cons]
  omega

namespace OneMore

variable {p : Nat} {counts counts' : Array Nat}

lemma size_eq (h : OneMore p counts counts') : counts'.size = counts.size := by
  refine Nat.le_antisymm ?_ ?_
  · have hnone := h counts.size
    rw [Array.getElem?_eq_none (Nat.le_refl _), Option.map_none] at hnone
    exact Array.getElem?_eq_none_iff.mp hnone
  · have hnone := h counts'.size
    rw [Array.getElem?_eq_none (Nat.le_refl _)] at hnone
    exact Array.getElem?_eq_none_iff.mp (Option.map_eq_none_iff.mp hnone.symm)

/-- The same counts are down to nothing, if that of the place is not. -/
lemma eq_zero_iff (h : OneMore p counts counts') (hp : counts[p]? ≠ some 0) (q : Nat) :
    counts'[q]? = some 0 ↔ counts[q]? = some 0 := by
  rw [h q]
  split_ifs with he
  · subst he
    constructor
    · intro hone
      obtain ⟨n, -, hn⟩ := Option.map_eq_some_iff.mp hone
      exact absurd hn (Nat.succ_ne_zero n)
    · exact fun hzero => absurd hzero hp
  · simp

/-- Taking references away leaves one more, as long as there is one left without it. -/
lemma uncountAll {references abandoned : List Reference} (h : OneMore p counts counts')
    (hp : (s.uncountAll counts abandoned references).1[p]? ≠ some 0) :
    OneMore p (s.uncountAll counts abandoned references).1
        (s.uncountAll counts' abandoned references).1 ∧
      (s.uncountAll counts' abandoned references).2 =
        (s.uncountAll counts abandoned references).2 := by
  induction references generalizing counts counts' abandoned with
  | nil => exact ⟨h, rfl⟩
  | cons first rest ih =>
    have hfirst := h (s.placeOf first)
    have hzero : counts[p]? ≠ some 0 := fun hzero => hp (uncountAll_zero hzero)
    by_cases he : p = s.placeOf first
    · -- the place itself: neither count was at its last reference
      subst he
      rw [if_pos rfl] at hfirst
      have hone : counts[s.placeOf first]? ≠ some 1 := by
        intro hone
        rw [uncountAll_cons_of_one hone] at hp
        refine hp (uncountAll_zero ?_)
        rw [Array.getElem?_modify, if_pos rfl, hone]
        rfl
      have hone' : counts'[s.placeOf first]? ≠ some 1 := by
        rw [hfirst]
        intro hone'
        obtain ⟨n, hn, hsucc⟩ := Option.map_eq_some_iff.mp hone'
        rw [hn, Nat.succ.inj hsucc] at hzero
        exact hzero rfl
      rw [uncountAll_cons_of_ne hone] at hp ⊢
      rw [uncountAll_cons_of_ne hone']
      refine ih (fun q => ?_) hp
      rw [Array.getElem?_modify, Array.getElem?_modify]
      split_ifs with hq
      · subst hq
        rw [hfirst]
        cases hn : counts[s.placeOf first]? with
        | none => rfl
        | some n =>
          cases n with
          | zero => exact absurd hn hzero
          | succ n => rfl
      · have hrest := h q
        rwa [if_neg hq] at hrest
    · have hsame : counts'[s.placeOf first]? = counts[s.placeOf first]? := by
        rw [hfirst, if_neg he]
        simp
      have hmodify : ∀ change : Nat → Nat, OneMore p (counts.modify (s.placeOf first) change)
          (counts'.modify (s.placeOf first) change) := by
        intro change q
        rw [Array.getElem?_modify, Array.getElem?_modify]
        split_ifs with hq hpq hpq
        · exact absurd (hpq.trans hq.symm) he
        · rw [← hq, hsame, Option.map_map]
          rfl
        · rw [h q, if_pos hpq]
        · rw [h q, if_neg hpq]
      by_cases hone : counts[s.placeOf first]? = some 1
      · rw [uncountAll_cons_of_one hone] at hp ⊢
        rw [uncountAll_cons_of_one (hsame.trans hone)]
        exact ih (hmodify _) hp
      · rw [uncountAll_cons_of_ne hone] at hp ⊢
        rw [uncountAll_cons_of_ne (hsame ▸ hone)]
        exact ih (hmodify _) hp

lemma abandon {steps : Nat} {abandoned : List Reference} (h : OneMore p counts counts')
    (hp : (s.abandon steps counts abandoned)[p]? ≠ some 0) :
    OneMore p (s.abandon steps counts abandoned) (s.abandon steps counts' abandoned) := by
  induction steps generalizing counts counts' abandoned with
  | zero => cases abandoned <;> exact h
  | succ steps ih =>
    cases abandoned with
    | nil => exact h
    | cons first rest =>
      rw [abandon_succ_cons] at hp ⊢
      obtain ⟨hcounts, habandoned⟩ := h.uncountAll fun hzero => hp (abandon_zero hzero)
      rw [abandon_succ_cons, habandoned]
      exact ih hcounts hp

end OneMore

/-- A root that can be reached anyway changes nothing about what is abandoned. -/
theorem abandonedHandles_insert {before after : List Reference}
    (h : s.Reached (before ++ after) r) :
    s.abandonedHandles (before ++ r :: after) = s.abandonedHandles (before ++ after) := by
  have hlive := liveCounts_ne_zero h
  have hcounts := s.oneMore_referenceCounts (r := r) before after
  have hzero : (s.referenceCounts (before ++ after))[s.placeOf r]? ≠ some 0 :=
    fun hzero => hlive (abandon_zero hzero)
  have hfilter : (s.contents.filter fun x =>
      (s.referenceCounts (before ++ r :: after))[s.placeOf x]? = some 0) =
      s.contents.filter fun x => (s.referenceCounts (before ++ after))[s.placeOf x]? = some 0 :=
    List.filter_congr fun x _ => decide_eq_decide.mpr (hcounts.eq_zero_iff hzero _)
  have hlives : OneMore (s.placeOf r) (s.liveCounts (before ++ after))
      (s.liveCounts (before ++ r :: after)) := by
    unfold liveCounts at hlive ⊢
    dsimp only at hlive ⊢
    rw [hfilter, hcounts.size_eq]
    exact hcounts.abandon hlive
  unfold abandonedHandles
  dsimp only
  simp only [hlives.eq_zero_iff hlive]

/-- Nor do any number of roots, if what they refer to can be reached without them. -/
theorem abandonedHandles_filter (h : s.Reached (roots.filter (· ≠ r)) r) :
    s.abandonedHandles roots = s.abandonedHandles (roots.filter (· ≠ r)) := by
  -- one root after the other, behind those that are kept
  have hbehind : ∀ kept : List Reference, s.Reached (kept ++ roots.filter (· ≠ r)) r →
      s.abandonedHandles (kept ++ roots) = s.abandonedHandles (kept ++ roots.filter (· ≠ r)) := by
    clear h
    induction roots with
    | nil => exact fun _ _ => rfl
    | cons first rest ih =>
      intro kept h
      by_cases hr : first = r
      · subst hr
        have hfilter : (first :: rest).filter (· ≠ first) = rest.filter (· ≠ first) := by simp
        rw [hfilter] at h ⊢
        have hall : kept ++ rest.filter (· ≠ first) ⊆ kept ++ rest :=
          ((rest.filter_sublist).append_left kept).subset
        rw [abandonedHandles_insert (h.mono hall), ih kept h]
      · have hfilter : (first :: rest).filter (· ≠ r) = first :: rest.filter (· ≠ r) := by
          simp [hr]
        rw [hfilter, List.append_cons kept first (rest.filter (· ≠ r))] at h ⊢
        rw [List.append_cons kept first rest]
        exact ih _ h
  exact hbehind [] h

end Store

end Scripting
