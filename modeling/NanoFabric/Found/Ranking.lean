import Mathlib.Data.List.Sort

/-!
# Places in a list that is sorted by a key

A list is sorted from the greatest key on, and elements of one key stay in their order. What comes
before an element is then known from the list as it was: the elements of a greater key, and of those of
its own key the ones that stood before it.

* `insertionSort_split` — the sorted list around one of its elements.
* `mem_take_insertionSort_filter` — an element is among the first `n` of those that are listed just when
  fewer than `n` of these come before it.
-/

namespace NanoFabric.Found

open List

variable {α κ : Type*} [LinearOrder κ]

section

variable (key : α → κ)

/-- The greatest key first. -/
def Descending (x y : α) : Prop := key y ≤ key x

instance : DecidableRel (Descending key) := fun x y => inferInstanceAs (Decidable (key y ≤ key x))

instance : Std.Total (Descending key) := ⟨fun x y => le_total (key y) (key x)⟩

instance : IsTrans α (Descending key) := ⟨fun _ _ _ hxy hyz => hyz.trans hxy⟩

end

variable {key : α → κ} {x y : α} {l before after : List α}

/-- In a sorted list the greater keys are the first ones. -/
theorem takeWhile_eq_filter (h : l.Pairwise (Descending key)) :
    l.takeWhile (fun y => ¬Descending key x y) = l.filter (fun y => key x < key y) := by
  induction l with
  | nil => rfl
  | cons y l ih =>
      obtain ⟨hy, hl⟩ := pairwise_cons.mp h
      by_cases hlt : key x < key y
      · rw [takeWhile_cons_of_pos (by simpa [Descending] using hlt),
          filter_cons_of_pos (by simpa using hlt), ih hl]
      · have hnone : ∀ z ∈ l, ¬key x < key z := fun z hz hz' => hlt (hz'.trans_le (hy z hz))
        rw [takeWhile_cons_of_neg (by simpa [Descending] using hlt),
          filter_cons_of_neg (by simpa using hlt), filter_eq_nil_iff.mpr (by simpa using hnone)]

/-- An element goes before another one that it precedes. -/
theorem orderedInsert_append_of_rel {A B : List α} (h : Descending key y x) :
    (A ++ x :: B).orderedInsert (Descending key) y = A.orderedInsert (Descending key) y ++ x :: B := by
  induction A with
  | nil => simp [h]
  | cons a A ih =>
      by_cases hya : Descending key y a
      · simp [hya]
      · simp [hya, ih]

/-- An element goes after those that it does not precede. -/
theorem orderedInsert_append_of_not_rel {A B : List α} (h : ∀ a ∈ A, ¬Descending key y a) :
    (A ++ B).orderedInsert (Descending key) y = A ++ B.orderedInsert (Descending key) y := by
  induction A with
  | nil => rfl
  | cons a A ih =>
      rw [cons_append, orderedInsert_cons, if_neg (h a mem_cons_self),
        ih fun b hb => h b (mem_cons_of_mem _ hb), cons_append]

/-- What comes before an element once the list is sorted. -/
theorem insertionSort_split (key : α → κ) (before : List α) (x : α) (after : List α) :
    ∃ A B, (before ++ x :: after).insertionSort (Descending key) = A ++ x :: B ∧
      A.Perm (before.filter (fun y => key x ≤ key y) ++ after.filter (fun y => key x < key y)) := by
  induction before with
  | nil =>
      refine ⟨_, _, insertionSort_cons_eq_take_drop (Descending key) x after, ?_⟩
      rw [takeWhile_eq_filter (pairwise_insertionSort _ _), filter_nil, nil_append]
      exact (perm_insertionSort _ _).filter _
  | cons y before ih =>
      obtain ⟨A, B, hsorted, hperm⟩ := ih
      rw [cons_append, insertionSort_cons, hsorted]
      by_cases hle : key x ≤ key y
      · refine ⟨_, _, orderedInsert_append_of_rel hle, ?_⟩
        rw [filter_cons_of_pos (by simpa using hle)]
        exact (perm_orderedInsert _ _ _).trans (hperm.cons y)
      · have hafter : ∀ a ∈ A, ¬Descending key y a := by
          intro a ha hya
          have hxa : key x ≤ key a := by
            rcases mem_append.mp (hperm.mem_iff.mp ha) with ha | ha
            · exact of_decide_eq_true (mem_filter.mp ha).2
            · exact (of_decide_eq_true (mem_filter.mp ha).2).le
          exact hle (hxa.trans hya)
        refine ⟨A, B.orderedInsert (Descending key) y, ?_, ?_⟩
        · rw [orderedInsert_append_of_not_rel hafter, orderedInsert_cons,
            if_neg (show ¬Descending key y x from hle)]
        · rw [filter_cons_of_neg (by simpa using hle)]
          exact hperm

/-- Sorting again what is listed of a sorted list changes nothing. -/
theorem insertionSort_filter_insertionSort (key : α → κ) (p : α → Bool) (l : List α) :
    ((l.insertionSort (Descending key)).filter p).insertionSort (Descending key) =
      (l.insertionSort (Descending key)).filter p :=
  Pairwise.insertionSort_eq ((pairwise_insertionSort _ _).filter p)

/-- An element is among the first of those that are listed just when few of these come before it. -/
theorem mem_take_insertionSort_filter (key : α → κ) {p : α → Bool} (hx : p x = true)
    (hnodup : (before ++ x :: after).Nodup) {n : ℕ} :
    x ∈ (((before ++ x :: after).insertionSort (Descending key)).filter p).take n ↔
      before.countP (fun y => p y ∧ key x ≤ key y) +
        after.countP (fun y => p y ∧ key x < key y) < n := by
  obtain ⟨A, B, hsorted, hperm⟩ := insertionSort_split key before x after
  have hnodup' : (A ++ x :: B).Nodup := hsorted ▸ (perm_insertionSort _ _).nodup_iff.mpr hnodup
  have hlength : (A.filter p).length = before.countP (fun y => p y ∧ key x ≤ key y) +
      after.countP (fun y => p y ∧ key x < key y) := by
    rw [(hperm.filter p).length_eq, filter_append, length_append, filter_filter, filter_filter,
      ← countP_eq_length_filter, ← countP_eq_length_filter]
    congr 1 <;> exact countP_congr fun y _ => by simp
  have hnot : x ∉ A.filter p := fun hmem =>
    (nodup_append.mp hnodup').2.2 x (mem_of_mem_filter hmem) x mem_cons_self rfl
  rw [hsorted, filter_append, filter_cons_of_pos hx, ← hlength, take_append, mem_append]
  constructor
  · rintro (hmem | hmem)
    · exact absurd (mem_of_mem_take hmem) hnot
    · by_contra hle
      rw [Nat.sub_eq_zero_of_le (not_lt.mp hle)] at hmem
      exact not_mem_nil hmem
  · intro hlt
    obtain ⟨k, hk⟩ : ∃ k, n - (A.filter p).length = k + 1 := ⟨n - (A.filter p).length - 1, by omega⟩
    rw [hk]
    exact Or.inr mem_cons_self

end NanoFabric.Found
