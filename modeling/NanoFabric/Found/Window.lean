import Mathlib.Algebra.Order.Floor.Div
import Mathlib.Data.Int.CardIntervalMod

/-!
# Windows of a ring

A list read as a ring: after the last element comes the first one again. A window is what stands on
the ring from a position on.

* `window_nodup` — a window of a ring without duplicates has none, if it is not longer than the ring.
* `countP_turns` — how often an element stands at a position that moves on step by step.
* `count_windows` — how often it stands in a window that moves on step by step.
-/

namespace NanoFabric.Found

variable {α : Type*}

/-- `k` elements of the ring from the position `start` on. -/
def window (ring : List α) (start k : ℕ) : List α :=
  (List.range k).filterMap fun offset => ring[(start + offset) % ring.length]?

variable {ring : List α} {start k m : ℕ} {a : α}

theorem getElem?_mod (h : ring ≠ []) (i : ℕ) : ∃ a ∈ ring, ring[i % ring.length]? = some a := by
  have hlt : i % ring.length < ring.length := Nat.mod_lt _ (List.length_pos_of_ne_nil h)
  exact ⟨ring[i % ring.length], List.getElem_mem hlt, List.getElem?_eq_getElem hlt⟩

theorem window_succ (ring : List α) (start k : ℕ) :
    window ring start (k + 1) = window ring start k ++ ring[(start + k) % ring.length]?.toList := by
  unfold window
  rw [List.range_succ, List.filterMap_append]
  refine congrArg _ ?_
  rw [List.filterMap_cons, List.filterMap_nil]
  rcases ring[(start + k) % ring.length]? with _ | a <;> rfl

theorem length_window (h : ring ≠ []) (start k : ℕ) : (window ring start k).length = k := by
  induction k with
  | zero => rfl
  | succ k ih =>
      obtain ⟨a, -, hget⟩ := getElem?_mod h (start + k)
      rw [window_succ, List.length_append, ih, hget]
      rfl

theorem mem_of_mem_window (h : a ∈ window ring start k) : a ∈ ring := by
  obtain ⟨offset, -, hget⟩ := List.mem_filterMap.mp h
  exact List.mem_of_getElem? hget

theorem window_nodup (hring : ring.Nodup) (hk : k ≤ ring.length) (start : ℕ) :
    (window ring start k).Nodup := by
  unfold List.Nodup window
  rw [List.pairwise_filterMap]
  apply List.Pairwise.imp_of_mem _ List.nodup_range
  rintro i j hi hj hij a ha b hb rfl
  have hi' : i < ring.length := lt_of_lt_of_le (List.mem_range.mp hi) hk
  have hj' : j < ring.length := lt_of_lt_of_le (List.mem_range.mp hj) hk
  have hpos : 0 < ring.length := Nat.zero_lt_of_lt hi'
  have hmod := (List.getElem?_inj (Nat.mod_lt _ hpos) hring).mp (ha.trans hb.symm)
  have hcancel := Nat.ModEq.add_left_cancel' _ hmod
  rw [Nat.ModEq, Nat.mod_eq_of_lt hi', Nat.mod_eq_of_lt hj'] at hcancel
  exact hij hcancel

/-- A whole turn more is the same position. -/
theorem window_mod (ring : List α) (start k : ℕ) :
    window ring (start % ring.length) k = window ring start k := by
  unfold window
  simp only [Nat.mod_add_mod]

theorem head?_window (ring : List α) (start k : ℕ) (h : ring ≠ []) :
    (window ring start (k + 1)).head? = ring[start % ring.length]? := by
  obtain ⟨a, -, hget⟩ := getElem?_mod h start
  unfold window
  rw [List.range_succ_eq_map, List.filterMap_cons_some (by rw [Nat.add_zero]; exact hget), hget]
  rfl

/-- Windows of the ring, each one step further than the one before. -/
def windows (ring : List α) (start k m : ℕ) : List (List α) :=
  (List.range m).map fun i => window ring (start + i) k

theorem windows_succ (ring : List α) (start k m : ℕ) :
    windows ring start k (m + 1) = window ring start k :: windows ring (start + 1) k m := by
  unfold windows
  rw [List.range_succ_eq_map, List.map_cons, List.map_map, Nat.add_zero]
  refine congrArg _ (List.map_congr_left fun i _ => ?_)
  rw [Function.comp_apply, Nat.succ_eq_add_one, Nat.add_assoc, Nat.add_comm 1 i]

theorem windows_mod (ring : List α) (start k m : ℕ) :
    windows ring (start % ring.length) k m = windows ring start k m := by
  refine List.map_congr_left fun i _ => ?_
  rw [← window_mod, Nat.mod_add_mod, window_mod]

theorem mem_windows {ring w : List α} {start k m : ℕ} :
    w ∈ windows ring start k m ↔ ∃ i < m, window ring (start + i) k = w := by
  unfold windows
  simp only [List.mem_map, List.mem_range]

variable [DecidableEq α]

/-! ## How often an element comes -/

/-- An element of a ring without duplicates stands once in each turn at a position that moves on. -/
theorem countP_turns (hring : ring.Nodup) (ha : a ∈ ring) (start m : ℕ) :
    (List.range m).countP (fun i => ring[(start + i) % ring.length]? = some a) = m / ring.length ∨
      (List.range m).countP (fun i => ring[(start + i) % ring.length]? = some a) =
        m ⌈/⌉ ring.length := by
  obtain ⟨r, hr, rfl⟩ := List.getElem_of_mem ha
  have hpos : 0 < ring.length := Nat.zero_lt_of_lt hr
  -- the steps at which the position is `r` are those congruent to `v`
  set v := r + (ring.length - start % ring.length) with hv
  have hiff : ∀ i, ring[(start + i) % ring.length]? = some ring[r] ↔ i ≡ v [MOD ring.length] := by
    intro i
    have hstart : start + v ≡ r [MOD ring.length] := by
      have hle : start % ring.length ≤ ring.length := (Nat.mod_lt _ hpos).le
      have hsum : start % ring.length + v = r + ring.length := by omega
      calc start + v ≡ start % ring.length + v [MOD ring.length] :=
            (Nat.mod_modEq start ring.length).symm.add_right v
        _ = r + ring.length := hsum
        _ ≡ r [MOD ring.length] := by rw [Nat.ModEq, Nat.add_mod_right]
    rw [← List.getElem?_eq_getElem hr, List.getElem?_inj (Nat.mod_lt _ hpos) hring]
    constructor
    · intro hmod
      refine Nat.ModEq.add_left_cancel' start (Nat.ModEq.trans ?_ hstart.symm)
      rw [Nat.ModEq, hmod, Nat.mod_eq_of_lt hr]
    · intro hmod
      have hi : start + i ≡ r [MOD ring.length] := (hmod.add_left start).trans hstart
      rw [Nat.ModEq, Nat.mod_eq_of_lt hr] at hi
      exact hi
  have hcount : (List.range m).countP (fun i => ring[(start + i) % ring.length]? = some ring[r]) =
      m / ring.length + if v % ring.length < m % ring.length then 1 else 0 := by
    rw [← Nat.count_modEq_card m hpos v, Nat.count]
    exact List.countP_congr fun i _ => by simpa using hiff i
  rw [hcount]
  split_ifs with hlt
  · -- the turn that `m` steps do not complete
    right
    have hdiv := Nat.div_add_mod m ring.length
    have hone : 1 ≤ m % ring.length := Nat.one_le_of_lt hlt
    have hmod : m % ring.length < ring.length := Nat.mod_lt _ hpos
    rw [Nat.ceilDiv_eq_add_pred_div, eq_comm]
    apply Nat.div_eq_of_lt_le
    · rw [add_mul, one_mul, mul_comm]
      omega
    · rw [add_mul, add_mul, one_mul, mul_comm]
      omega
  · exact Or.inl (Nat.add_zero _)

theorem count_windows_succ (ring : List α) (start k m : ℕ) (a : α) :
    (windows ring start (k + 1) m).flatten.count a = (windows ring start k m).flatten.count a +
      (List.range m).countP (fun i => ring[(start + k + i) % ring.length]? = some a) := by
  unfold windows
  induction m with
  | zero => rfl
  | succ m ih =>
      simp only [List.range_succ, List.map_append, List.map_cons, List.map_nil, List.flatten_append,
        List.flatten_cons, List.flatten_nil, List.append_nil, List.count_append, List.countP_append,
        window_succ] at ih ⊢
      rw [ih, Nat.add_right_comm start m k]
      have hlast : (ring[(start + k + m) % ring.length]?.toList).count a =
          [m].countP (fun i => ring[(start + k + i) % ring.length]? = some a) := by
        rw [List.countP_singleton]
        rcases ring[(start + k + m) % ring.length]? with _ | b
        · rfl
        · rw [Option.toList_some, List.count_singleton]
          simp [beq_iff_eq]
      rw [hlast]
      omega

/-- An element of a ring without duplicates stands `k` times in each turn in a window of length `k`
that moves on. -/
theorem count_windows (hring : ring.Nodup) (ha : a ∈ ring) (start k m : ℕ) :
    k * (m / ring.length) ≤ (windows ring start k m).flatten.count a ∧
      (windows ring start k m).flatten.count a ≤ k * (m ⌈/⌉ ring.length) := by
  induction k with
  | zero =>
      have hnil : (windows ring start 0 m).flatten = [] := by
        refine List.flatten_eq_nil_iff.mpr fun l hl => ?_
        obtain ⟨i, -, rfl⟩ := List.mem_map.mp hl
        rfl
      rw [hnil, List.count_nil, zero_mul, zero_mul]
      exact ⟨le_rfl, le_rfl⟩
  | succ k ih =>
      have hle : m / ring.length ≤ m ⌈/⌉ ring.length := by
        rw [← Nat.floorDiv_eq_div]
        exact floorDiv_le_ceilDiv
      rw [count_windows_succ, add_mul, add_mul, one_mul, one_mul]
      rcases countP_turns hring ha (start + k) m with hcount | hcount
      · rw [hcount]
        exact ⟨Nat.add_le_add_right ih.1 _, Nat.add_le_add ih.2 hle⟩
      · rw [hcount]
        exact ⟨Nat.add_le_add ih.1 hle, Nat.add_le_add_right ih.2 _⟩

end NanoFabric.Found
