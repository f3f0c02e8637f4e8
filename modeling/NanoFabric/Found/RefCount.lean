import Mathlib.Algebra.Order.Ring.Int
import Mathlib.Data.List.Count
import NanoFabric.Found.Dict

/-!
# Reference-counted rows

Rows of one table are shared by the references of another, and a row is dropped when its count falls
to zero. `RefCounted` says that no count is below the number of references and of rows held by a
writer that is about to refer to them.

* `RefCounted.grab`, `insert`, `point`, `release`, `drop`, `collect` — each operation keeps it.
* `get?_collect_of_referenced` — a row that is referred to survives collection.
* `excess` — how far a count is above the references and the holds: no operation changes it, but a
  writer that lets go adds what it held, and the rows with an excess are never collected.
-/

namespace NanoFabric.Found

variable {ι κ β : Type} [DecidableEq ι] [DecidableEq κ]

/-! ## Counting references -/

namespace Dict

/-- The number of keys with a value. -/
def count (d : Dict ι κ) (k : κ) : ℕ := d.values.count k

variable {d : Dict ι κ} {i : ι} {k k' : κ}

theorem count_map_snd_setEntries (l : List (ι × κ)) :
    ((setEntries i k l).map Prod.snd).count k' ≤
      (l.map Prod.snd).count k' + if k' = k then 1 else 0 := by
  induction l with
  | nil =>
      unfold setEntries
      rw [List.map_cons, List.count_cons]
      by_cases hk : k' = k
      · simp [hk]
      · simp [hk, Ne.symm hk]
  | cons ik l ih =>
      unfold setEntries
      split
      · rw [List.map_cons, List.map_cons, List.count_cons, List.count_cons]
        by_cases hk : k' = k
        · simp [hk]
        · simp [hk, Ne.symm hk]
      · rw [List.map_cons, List.map_cons, List.count_cons, List.count_cons]
        omega

/-- Setting a key adds at most one to the count of its new value. -/
theorem count_set_le : (d.set i k).count k' ≤ d.count k' + if k' = k then 1 else 0 :=
  count_map_snd_setEntries d.entries

/-- A new key adds one to the count of its value. -/
theorem count_set_of_new (h : d.get? i = none) :
    (d.set i k).count k' = d.count k' + if k' = k then 1 else 0 := by
  have hkeys : i ∉ d.entries.map Prod.fst := by
    intro hmem
    obtain ⟨item, hitem, hkey⟩ := List.mem_map.mp hmem
    exact get?_eq_none_iff.mp h item hitem hkey
  have hentries : (d.set i k).entries = d.entries ++ [(i, k)] := setEntries_of_notMem i k _ hkeys
  unfold count values
  rw [hentries, List.map_append, List.count_append, List.map_singleton, List.count_singleton]
  by_cases hk : k' = k
  · simp [hk]
  · simp [hk, Ne.symm hk]

theorem one_le_count (h : d.get? i = some k) : 1 ≤ d.count k :=
  List.one_le_count_iff.mpr (mem_values.mpr ⟨i, h⟩)

theorem count_eq_zero (h : ∀ i, d.get? i ≠ some k) : d.count k = 0 := by
  apply List.count_eq_zero.mpr
  rw [mem_values]
  rintro ⟨i, hi⟩
  exact h i hi

omit [DecidableEq ι] in
/-- The items that a filter keeps and those that it removes are all the items. -/
theorem count_filter_add (p : ι → κ → Bool) :
    (d.filter p).count k + (d.filter fun i k => !p i k).count k = d.count k := by
  obtain ⟨l, hl⟩ := d
  unfold count values filter
  simp only
  clear hl
  induction l with
  | nil => rfl
  | cons ik l ih =>
      rcases hp : p ik.1 ik.2 with _ | _
      · simp only [List.filter_cons, hp, Bool.false_eq_true, if_false, Bool.not_false, if_true,
          List.map_cons, List.count_cons]
        omega
      · simp only [List.filter_cons, hp, if_true, Bool.not_true, Bool.false_eq_true, if_false,
          List.map_cons, List.count_cons]
        omega

end Dict

/-! ## Counted rows -/

/-- How a row holds its count. -/
structure Counter (β : Type) where
  /-- The count. -/
  count : β → ℤ
  /-- The row with an amount added to its count. -/
  bump : ℤ → β → β
  count_bump : ∀ (z : ℤ) (r : β), count (bump z r) = count r + z

/-- Every row that is referred to or held is there, and is counted at least as often. -/
structure RefCounted (c : Counter β) (refs : Dict ι κ) (rows : Dict κ β) (held : List κ) :
    Prop where
  referenced : ∀ i k, refs.get? i = some k → ∃ r, rows.get? k = some r
  holding : ∀ k ∈ held, ∃ r, rows.get? k = some r
  le : ∀ k r, rows.get? k = some r → (refs.count k + held.count k : ℤ) ≤ c.count r

/-- The rows with the counts of a list of keys lowered by one for each. -/
def lowered (c : Counter β) (keys : List κ) (rows : Dict κ β) : Dict κ β :=
  keys.foldl (fun rows k => rows.modify k (c.bump (-1))) rows

/-- The rows whose count is positive. -/
def collected (c : Counter β) (rows : Dict κ β) : Dict κ β := rows.filter fun _ r => 0 < c.count r

variable {c : Counter β} {refs : Dict ι κ} {rows : Dict κ β} {held held' : List κ} {i : ι} {k : κ}
  {r : β}

/-- Lowering counts changes nothing else of a row. -/
theorem get?_lowered {γ : Type} (f : β → γ) (hf : ∀ z r, f (c.bump z r) = f r) (keys : List κ)
    (rows : Dict κ β) (k : κ) : ((lowered c keys rows).get? k).map f = (rows.get? k).map f := by
  induction keys generalizing rows with
  | nil => rfl
  | cons k' keys ih =>
      unfold lowered
      rw [List.foldl_cons]
      refine (ih _).trans ?_
      rw [Dict.get?_modify, Option.map_map]
      congr 1
      funext r
      by_cases hk : k = k'
      · rw [Function.comp_apply, if_pos hk, hf]
      · rw [Function.comp_apply, if_neg hk]

theorem get?_lowered_eq_some (keys : List κ) (rows : Dict κ β) (k : κ)
    (h : (lowered c keys rows).get? k = some r) :
    ∃ r₀, rows.get? k = some r₀ ∧ c.count r = c.count r₀ - keys.count k := by
  induction keys generalizing rows with
  | nil => exact ⟨r, h, by simp⟩
  | cons k' keys ih =>
      obtain ⟨r₁, hr₁, hcount⟩ := ih (rows.modify k' (c.bump (-1))) h
      rw [Dict.get?_modify, Option.map_eq_some_iff] at hr₁
      obtain ⟨r₀, hr₀, rfl⟩ := hr₁
      refine ⟨r₀, hr₀, ?_⟩
      rw [hcount, List.count_cons]
      by_cases hk : k = k'
      · rw [if_pos hk, c.count_bump, if_pos (by simp [hk])]
        push_cast
        omega
      · rw [if_neg hk, if_neg (by simpa using Ne.symm hk), Nat.add_zero]

namespace RefCounted

theorem count_eq_zero_of_none (h : RefCounted c refs rows held) (hk : rows.get? k = none) :
    refs.count k = 0 ∧ held.count k = 0 := by
  constructor
  · apply Dict.count_eq_zero
    intro i hi
    obtain ⟨r, hr⟩ := h.referenced i k hi
    rw [hk] at hr
    cases hr
  · apply List.count_eq_zero.mpr
    intro hmem
    obtain ⟨r, hr⟩ := h.holding k hmem
    rw [hk] at hr
    cases hr

/-- A writer takes hold of a row and counts itself. -/
theorem grab (h : RefCounted c refs rows held) (hk : rows.get? k = some r) :
    RefCounted c refs (rows.modify k (c.bump 1)) (k :: held) where
  referenced i k' hi := by
    obtain ⟨r', hr'⟩ := h.referenced i k' hi
    exact ⟨_, by rw [Dict.get?_modify, hr']; rfl⟩
  holding k' hk' := by
    obtain ⟨r', hr'⟩ : ∃ r', rows.get? k' = some r' := by
      rcases List.mem_cons.mp hk' with rfl | hk'
      · exact ⟨r, hk⟩
      · exact h.holding k' hk'
    exact ⟨_, by rw [Dict.get?_modify, hr']; rfl⟩
  le k' r' hr' := by
    rw [Dict.get?_modify, Option.map_eq_some_iff] at hr'
    obtain ⟨r₀, hr₀, rfl⟩ := hr'
    have hle := h.le k' r₀ hr₀
    rw [List.count_cons]
    by_cases hkk : k' = k
    · rw [if_pos hkk, c.count_bump, if_pos (by simp [hkk])]
      push_cast
      omega
    · rw [if_neg hkk, if_neg (by simpa using Ne.symm hkk)]
      exact hle

/-- A writer adds a row that is counted once and takes hold of it. -/
theorem insert (h : RefCounted c refs rows held) (hk : rows.get? k = none) (hr : c.count r = 1) :
    RefCounted c refs (rows.set k r) (k :: held) where
  referenced i k' hi := by
    obtain ⟨r', hr'⟩ := h.referenced i k' hi
    by_cases hkk : k' = k
    · exact ⟨r, by rw [Dict.get?_set, if_pos hkk]⟩
    · exact ⟨r', by rw [Dict.get?_set, if_neg hkk, hr']⟩
  holding k' hk' := by
    by_cases hkk : k' = k
    · exact ⟨r, by rw [Dict.get?_set, if_pos hkk]⟩
    · obtain ⟨r', hr'⟩ := h.holding k' ((List.mem_cons.mp hk').resolve_left hkk)
      exact ⟨r', by rw [Dict.get?_set, if_neg hkk, hr']⟩
  le k' r' hr' := by
    rw [Dict.get?_set] at hr'
    rw [List.count_cons]
    by_cases hkk : k' = k
    · rw [if_pos hkk] at hr'
      obtain rfl := Option.some.inj hr'
      obtain ⟨hrefs, hheld⟩ := h.count_eq_zero_of_none hk
      rw [hkk, hrefs, hheld, hr, if_pos (by simp)]
      decide
    · rw [if_neg hkk] at hr'
      rw [if_neg (by simpa using Ne.symm hkk)]
      exact h.le k' r' hr'

/-- A writer refers to the row that it holds. -/
theorem point (h : RefCounted c refs rows (k :: held)) : RefCounted c (refs.set i k) rows held where
  referenced i' k' hi' := by
    rw [Dict.get?_set] at hi'
    split at hi'
    · obtain rfl := Option.some.inj hi'
      exact h.holding k List.mem_cons_self
    · exact h.referenced i' k' hi'
  holding k' hk' := h.holding k' (List.mem_cons_of_mem k hk')
  le k' r' hr' := by
    have hle := h.le k' r' hr'
    have hset : (refs.set i k).count k' ≤ refs.count k' + if k' = k then 1 else 0 :=
      Dict.count_set_le
    rw [List.count_cons] at hle
    by_cases hkk : k' = k
    · rw [if_pos hkk] at hset
      rw [if_pos (by simp [hkk])] at hle
      push_cast at hle
      omega
    · rw [if_neg hkk] at hset
      rw [if_neg (by simpa using Ne.symm hkk)] at hle
      push_cast at hle
      omega

/-- A writer lets go of what it holds, and the counts stay. -/
theorem release (h : RefCounted c refs rows held) (hsub : held'.Sublist held) :
    RefCounted c refs rows held' where
  referenced := h.referenced
  holding k hk := h.holding k (hsub.subset hk)
  le k r hr := by
    have hle := h.le k r hr
    have hcount := hsub.count_le k
    omega

/-- The rows that nothing counts are removed. -/
theorem collect (h : RefCounted c refs rows held) : RefCounted c refs (collected c rows) held where
  referenced i k hi := by
    obtain ⟨r, hr⟩ := h.referenced i k hi
    have hle := h.le k r hr
    have hone := Dict.one_le_count hi
    refine ⟨r, ?_⟩
    unfold collected
    rw [Dict.get?_filter, hr, Option.filter_some, if_pos (decide_eq_true (by omega))]
  holding k hk := by
    obtain ⟨r, hr⟩ := h.holding k hk
    have hle := h.le k r hr
    have hone := List.one_le_count_iff.mpr hk
    refine ⟨r, ?_⟩
    unfold collected
    rw [Dict.get?_filter, hr, Option.filter_some, if_pos (decide_eq_true (by omega))]
  le k r hr := by
    unfold collected at hr
    rw [Dict.get?_filter, Option.filter_eq_some_iff] at hr
    exact h.le k r hr.1

/-- References are removed, and the counts of their rows lowered by one for each. -/
theorem drop (h : RefCounted c refs rows held) (p : ι → κ → Bool) :
    RefCounted c (refs.filter fun i k => !p i k) (lowered c (refs.filter p).values rows) held where
  referenced i k hi := by
    rw [Dict.get?_filter, Option.filter_eq_some_iff] at hi
    obtain ⟨r, hr⟩ := h.referenced i k hi.1
    have hsame := get?_lowered (c := c) (fun _ : β => ()) (fun _ _ => rfl) (refs.filter p).values rows k
    rw [hr, Option.map_some, Option.map_eq_some_iff] at hsame
    obtain ⟨r', hr', -⟩ := hsame
    exact ⟨r', hr'⟩
  holding k hk := by
    obtain ⟨r, hr⟩ := h.holding k hk
    have hsame := get?_lowered (c := c) (fun _ : β => ()) (fun _ _ => rfl) (refs.filter p).values rows k
    rw [hr, Option.map_some, Option.map_eq_some_iff] at hsame
    obtain ⟨r', hr', -⟩ := hsame
    exact ⟨r', hr'⟩
  le k r hr := by
    obtain ⟨r₀, hr₀, hcount⟩ := get?_lowered_eq_some _ _ _ hr
    have hle := h.le k r₀ hr₀
    have hsplit := Dict.count_filter_add (d := refs) (k := k) p
    have hvalues : (refs.filter p).values.count k = (refs.filter p).count k := rfl
    rw [hcount, hvalues]
    omega

/-- A row that is referred to survives the removal of the rows that nothing counts. -/
theorem get?_collect_of_referenced (h : RefCounted c refs rows held) (hi : refs.get? i = some k) :
    (collected c rows).get? k = rows.get? k := by
  obtain ⟨r, hr⟩ := h.referenced i k hi
  obtain ⟨r', hr'⟩ := h.collect.referenced i k hi
  have hmem := hr'
  unfold collected at hmem
  rw [Dict.get?_filter, Option.filter_eq_some_iff] at hmem
  rw [hr', hmem.1]

end RefCounted

/-! ## How far a count is above its references -/

/-- The count of a row less the references and the holds. -/
def excess (c : Counter β) (refs : Dict ι κ) (rows : Dict κ β) (held : List κ) (k : κ) :
    Option ℤ :=
  (rows.get? k).map fun r => c.count r - refs.count k - held.count k

omit [DecidableEq ι] in
theorem excess_grab (k k' : κ) :
    excess c refs (rows.modify k (c.bump 1)) (k :: held) k' = excess c refs rows held k' := by
  unfold excess
  rw [Dict.get?_modify, Option.map_map]
  congr 1
  funext r
  rw [Function.comp_apply, List.count_cons]
  by_cases hk : k' = k
  · rw [if_pos hk, c.count_bump, if_pos (by simp [hk])]
    push_cast
    omega
  · rw [if_neg hk, if_neg (by simpa using Ne.symm hk), Nat.add_zero]

/-- A row that is counted once for its writer has no excess. -/
theorem RefCounted.excess_insert (h : RefCounted c refs rows held) (hk : rows.get? k = none)
    (hr : c.count r = 1) (k' : κ) : excess c refs (rows.set k r) (k :: held) k' =
      if k' = k then some 0 else excess c refs rows held k' := by
  unfold excess
  rw [Dict.get?_set, List.count_cons]
  by_cases hkk : k' = k
  · obtain ⟨hrefs, hheld⟩ := h.count_eq_zero_of_none hk
    rw [if_pos hkk, if_pos hkk, Option.map_some, hkk, hrefs, hheld, hr, if_pos (by simp)]
    rfl
  · rw [if_neg hkk, if_neg hkk, if_neg (by simpa using Ne.symm hkk), Nat.add_zero]

theorem excess_point (hi : refs.get? i = none) (k k' : κ) :
    excess c (refs.set i k) rows held k' = excess c refs rows (k :: held) k' := by
  unfold excess
  rw [Dict.count_set_of_new hi, List.count_cons]
  congr 1
  funext r
  by_cases hk : k' = k
  · rw [if_pos hk, if_pos (by simp [hk])]
    push_cast
    omega
  · rw [if_neg hk, if_neg (by simpa using Ne.symm hk), Nat.add_zero, Nat.add_zero]

/-- What a writer held is in excess when it has let go. -/
theorem RefCounted.exists_excess_release (h : RefCounted c refs rows held) (hk : k ∈ held) :
    ∃ z, 0 < z ∧ excess c refs rows [] k = some z := by
  obtain ⟨r, hr⟩ := h.holding k hk
  have hle := h.le k r hr
  have hone := List.one_le_count_iff.mpr hk
  refine ⟨_, ?_, congrArg (Option.map _) hr⟩
  rw [List.count_nil]
  push_cast
  omega

omit [DecidableEq ι] in
/-- Removed references are no longer counted. -/
theorem excess_drop (p : ι → κ → Bool) (k : κ) :
    excess c (refs.filter fun i k => !p i k) (lowered c (refs.filter p).values rows) held k =
      excess c refs rows held k := by
  have hsplit := Dict.count_filter_add (d := refs) (k := k) p
  have hvalues : (refs.filter p).values.count k = (refs.filter p).count k := rfl
  have hsame := get?_lowered (c := c) (fun _ : β => ()) (fun _ _ => rfl) (refs.filter p).values rows k
  unfold excess
  rcases hrow : (lowered c (refs.filter p).values rows).get? k with _ | r
  · rw [hrow, Option.map_none, eq_comm, Option.map_eq_none_iff] at hsame
    rw [hsame, Option.map_none, Option.map_none]
  · obtain ⟨r₀, hr₀, hcount⟩ := get?_lowered_eq_some _ _ _ hrow
    rw [hr₀, Option.map_some, Option.map_some, hcount, hvalues]
    congr 1
    omega

omit [DecidableEq ι] in
/-- Collection adds to no excess. -/
theorem excess_of_collect {z : ℤ} (h : excess c refs (collected c rows) held k = some z) :
    excess c refs rows held k = some z := by
  obtain ⟨r, hr, hz⟩ := Option.map_eq_some_iff.mp h
  unfold collected at hr
  rw [Dict.get?_filter, Option.filter_eq_some_iff] at hr
  unfold excess
  rw [hr.1, Option.map_some, hz]

omit [DecidableEq ι] in
/-- A row with an excess is not collected. -/
theorem excess_collect {z : ℤ} (h : excess c refs rows held k = some z) (hz : 0 < z) :
    excess c refs (collected c rows) held k = some z := by
  obtain ⟨r, hr, rfl⟩ := Option.map_eq_some_iff.mp h
  unfold excess collected
  rw [Dict.get?_filter, hr, Option.filter_some, if_pos (decide_eq_true (by omega)), Option.map_some]

/-- Without references and holds, only what has an excess is left. -/
theorem get?_collected_eq_none (hrefs : ∀ i k, refs.get? i ≠ some k)
    (h : ∀ z, excess c refs rows [] k = some z → z ≤ 0) : (collected c rows).get? k = none := by
  rw [Option.eq_none_iff_forall_ne_some]
  intro r hr
  unfold collected at hr
  rw [Dict.get?_filter, Option.filter_eq_some_iff] at hr
  have hle := h _ (congrArg (Option.map _) hr.1)
  rw [Dict.count_eq_zero fun i => hrefs i k, List.count_nil] at hle
  have hpos := of_decide_eq_true hr.2
  push_cast at hle
  omega

end NanoFabric.Found
