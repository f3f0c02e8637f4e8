import Mathlib.Algebra.GroupWithZero.Nat
import Mathlib.Data.List.Lookmap
import Mathlib.Data.List.Nodup
import Mathlib.Tactic.Common

/-!
# Insertion-ordered dictionaries

A dictionary is the list of its items in the order in which their keys were first set, no key twice.
`set` replaces a value in place or appends an item, as the dictionaries of the modelled programs do.

* `get?_set`, `get?_erase`, `get?_mapVals`, `get?_modify`, `get?_filter` — what each operation leaves
  at a key.
* `mem_entries` — the items are the keys with their values.
* `foldl_set_get?_eq_some`, `foldl_set_entries` — what a loop of `set`s leaves.
* `collect` — values under keys of their own, where the last one of a key stays.
* `sum_entries_set` — how a `set` changes a total over the items.

`Table` is a dictionary whose items all meet a condition; `Table.ofList_values` builds a table again
from its values.
-/

namespace NanoFabric.Found

variable {α β γ : Type}

/-- A dictionary: its items, in order. -/
@[ext]
structure Dict (α β : Type) where
  /-- The items. -/
  entries : List (α × β)
  /-- No key occurs twice. -/
  nodup : (entries.map Prod.fst).Nodup

namespace Dict

/-- The empty dictionary. -/
def empty : Dict α β := ⟨[], .nil⟩

/-- The keys, in order. -/
def keys (d : Dict α β) : List α := d.entries.map Prod.fst

/-- The values, in order. -/
def values (d : Dict α β) : List β := d.entries.map Prod.snd

theorem nodup_keys (d : Dict α β) : d.keys.Nodup := d.nodup

/-- Every value replaced, by its key and itself. -/
def mapVals (d : Dict α β) (f : α → β → γ) : Dict α γ :=
  ⟨d.entries.map fun kv => (kv.1, f kv.1 kv.2), by
    rw [List.map_map]
    exact d.nodup⟩

variable [DecidableEq α]

instance [DecidableEq β] : DecidableEq (Dict α β) := fun d d' =>
  decidable_of_iff (d.entries = d'.entries) ⟨fun h => Dict.ext h, fun h => congrArg entries h⟩

/-- The value of a key. -/
def get? (d : Dict α β) (k : α) : Option β := d.entries.lookup k

/-- The items with the value of a key set. -/
def setEntries (k : α) (v : β) : List (α × β) → List (α × β)
  | [] => [(k, v)]
  | kv :: l => if kv.1 = k then (k, v) :: l else kv :: setEntries k v l

theorem map_fst_setEntries (k : α) (v : β) (l : List (α × β)) :
    (setEntries k v l).map Prod.fst =
      if k ∈ l.map Prod.fst then l.map Prod.fst else l.map Prod.fst ++ [k] := by
  induction l with
  | nil => simp [setEntries]
  | cons kv l ih =>
      unfold setEntries
      by_cases hk : kv.1 = k
      · simp [hk]
      · rw [if_neg hk, List.map_cons, ih]
        by_cases hmem : k ∈ l.map Prod.fst
        · rw [if_pos hmem, List.map_cons, if_pos (List.mem_cons_of_mem _ hmem)]
        · rw [if_neg hmem, List.map_cons, if_neg (by simp [Ne.symm hk, hmem]), List.cons_append]

/-- Sets the value of a key. -/
def set (d : Dict α β) (k : α) (v : β) : Dict α β :=
  ⟨setEntries k v d.entries, by
    rw [map_fst_setEntries]
    split
    · exact d.nodup
    · rename_i hk
      refine List.nodup_append.mpr ⟨d.nodup, List.nodup_singleton k, ?_⟩
      rintro x hx y hy rfl
      exact hk (List.mem_singleton.mp hy ▸ hx)⟩

/-- Removes a key. -/
def erase (d : Dict α β) (k : α) : Dict α β :=
  ⟨d.entries.filter fun kv => kv.1 ≠ k, d.nodup.sublist (List.filter_sublist.map _)⟩

/-- Keeps the items that meet a condition. -/
def filter (d : Dict α β) (p : α → β → Bool) : Dict α β :=
  ⟨d.entries.filter fun kv => p kv.1 kv.2, d.nodup.sublist (List.filter_sublist.map _)⟩

/-- Changes the value of a key, if it has one. -/
def modify (d : Dict α β) (k : α) (f : β → β) : Dict α β :=
  d.mapVals fun k' v => if k' = k then f v else v

/-- Whether a key has a value. -/
def contains (d : Dict α β) (k : α) : Bool := (d.get? k).isSome

variable {d : Dict α β} {k k' : α} {v v' : β}

@[simp] theorem get?_empty : (empty : Dict α β).get? k = none := rfl

theorem lookup_cons_eq (kv : α × β) (l : List (α × β)) (k : α) :
    (kv :: l).lookup k = if k = kv.1 then some kv.2 else l.lookup k := by
  obtain ⟨a, b⟩ := kv
  rw [List.lookup_cons]
  by_cases hk : k = a
  · rw [if_pos hk, beq_iff_eq.mpr hk]
  · rw [if_neg hk, beq_eq_false_iff_ne.mpr hk]

theorem lookup_setEntries (k k' : α) (v : β) (l : List (α × β)) :
    (setEntries k v l).lookup k' = if k' = k then some v else l.lookup k' := by
  induction l with
  | nil => exact lookup_cons_eq (k, v) [] k'
  | cons kv l ih =>
      unfold setEntries
      by_cases hkv : kv.1 = k
      · rw [if_pos hkv, lookup_cons_eq, lookup_cons_eq, hkv]
        by_cases hk : k' = k
        · rw [if_pos hk, if_pos hk]
        · rw [if_neg hk, if_neg hk, if_neg hk]
      · rw [if_neg hkv, lookup_cons_eq, lookup_cons_eq, ih]
        by_cases hk : k' = k
        · rw [if_pos hk, if_pos hk, if_neg (hk ▸ Ne.symm hkv)]
        · rw [if_neg hk, if_neg hk]

theorem get?_set : (d.set k v).get? k' = if k' = k then some v else d.get? k' :=
  lookup_setEntries k k' v d.entries

@[simp] theorem get?_set_self : (d.set k v).get? k = some v := by
  rw [get?_set, if_pos rfl]

theorem get?_set_of_ne (h : k' ≠ k) : (d.set k v).get? k' = d.get? k' := by
  rw [get?_set, if_neg h]

/-- A loop that enters the values that it finds. -/
theorem get?_foldl_step {f : α → Option β} {step : Dict α β → α → Dict α β}
    (hsome : ∀ d k v, f k = some v → step d k = d.set k v) (hnone : ∀ d k, f k = none → step d k = d)
    (l : List α) (d : Dict α β) (k : α) :
    (l.foldl step d).get? k = if k ∈ l then (f k).or (d.get? k) else d.get? k := by
  induction l generalizing d with
  | nil => rfl
  | cons j l ih =>
      rw [List.foldl_cons, ih]
      by_cases hj : k = j
      · subst hj
        cases hf : f k with
        | none => simp [hnone d k hf]
        | some v => simp [hsome d k v hf]
      · have hget : (step d j).get? k = d.get? k := by
          cases hf : f j with
          | none => rw [hnone d j hf]
          | some v => rw [hsome d j v hf, get?_set_of_ne hj]
        rw [hget]
        simp only [List.mem_cons, hj, false_or]

theorem lookup_filter_ne (k k' : α) (l : List (α × β)) :
    (l.filter fun kv => kv.1 ≠ k).lookup k' = if k' = k then none else l.lookup k' := by
  induction l with
  | nil => simp
  | cons kv l ih =>
      by_cases hkv : kv.1 = k
      · rw [List.filter_cons_of_neg (by simp [hkv]), ih, lookup_cons_eq, hkv]
        by_cases hk : k' = k
        · rw [if_pos hk, if_pos hk]
        · rw [if_neg hk, if_neg hk, if_neg hk]
      · rw [List.filter_cons_of_pos (by simp [hkv]), lookup_cons_eq, lookup_cons_eq, ih]
        by_cases hk : k' = k
        · rw [if_pos hk, if_pos hk, if_neg (hk ▸ Ne.symm hkv)]
        · rw [if_neg hk, if_neg hk]

theorem get?_erase : (d.erase k).get? k' = if k' = k then none else d.get? k' :=
  lookup_filter_ne k k' d.entries

/-- The items are the keys with their values. -/
theorem mem_entries : (k, v) ∈ d.entries ↔ d.get? k = some v := by
  obtain ⟨l, hl⟩ := d
  unfold get?
  simp only at hl ⊢
  induction l with
  | nil => simp
  | cons kv l ih =>
      obtain ⟨hnot, hl⟩ := List.nodup_cons.mp hl
      rw [List.mem_cons, lookup_cons_eq, ih hl]
      by_cases hk : k = kv.1
      · have hnone : l.lookup k = none := by
          rw [List.lookup_eq_none_iff]
          intro p hp
          have : k ≠ p.1 := fun h => hnot (hk ▸ h ▸ List.mem_map_of_mem hp)
          simpa using this
        rw [hnone, if_pos hk, hk]
        simp [Prod.ext_iff, eq_comm]
      · have hne : (k, v) ≠ kv := fun h => hk (by rw [← h])
        rw [if_neg hk]
        simp [hne]

theorem mem_keys : k ∈ d.keys ↔ ∃ v, d.get? k = some v := by
  unfold keys
  rw [List.mem_map]
  constructor
  · rintro ⟨⟨k', v⟩, hmem, rfl⟩
    exact ⟨v, mem_entries.mp hmem⟩
  · rintro ⟨v, hv⟩
    exact ⟨(k, v), mem_entries.mpr hv, rfl⟩

/-- What holds of every item holds of every key with its value. -/
theorem forall_entries {P : α × β → Prop} :
    (∀ kv ∈ d.entries, P kv) ↔ ∀ k v, d.get? k = some v → P (k, v) :=
  ⟨fun h k v hv => h (k, v) (mem_entries.mpr hv), fun h kv hkv => h kv.1 kv.2 (mem_entries.mp hkv)⟩

theorem mem_values : v ∈ d.values ↔ ∃ k, d.get? k = some v := by
  unfold values
  rw [List.mem_map]
  constructor
  · rintro ⟨⟨k, v⟩, hmem, rfl⟩
    exact ⟨k, mem_entries.mp hmem⟩
  · rintro ⟨k, hv⟩
    exact ⟨(k, v), mem_entries.mpr hv, rfl⟩

theorem lookup_map_snd (f : α → β → γ) (l : List (α × β)) (k : α) :
    (l.map fun kv => (kv.1, f kv.1 kv.2)).lookup k = (l.lookup k).map (f k) := by
  induction l with
  | nil => rfl
  | cons kv l ih =>
      rw [List.map_cons, lookup_cons_eq, lookup_cons_eq, ih]
      by_cases hk : k = kv.1
      · rw [if_pos hk, if_pos hk, Option.map_some, hk]
      · rw [if_neg hk, if_neg hk]

theorem get?_mapVals (f : α → β → γ) (d : Dict α β) (k : α) :
    (d.mapVals f).get? k = (d.get? k).map (f k) :=
  lookup_map_snd f d.entries k

theorem get?_modify (d : Dict α β) (k : α) (f : β → β) (k' : α) :
    (d.modify k f).get? k' = (d.get? k').map fun v => if k' = k then f v else v :=
  get?_mapVals _ d k'

theorem get?_filter (d : Dict α β) (p : α → β → Bool) (k : α) :
    (d.filter p).get? k = (d.get? k).filter (p k) := by
  apply Option.ext
  intro v
  rw [Option.filter_eq_some_iff, ← mem_entries, ← mem_entries]
  exact List.mem_filter

/-- A loop that sets items with distinct keys leaves the item set at a key, if there is one. -/
theorem foldl_set_get?_eq_some (key : γ → α) (val : γ → β) (L : List γ) (hL : (L.map key).Nodup)
    (d : Dict α β) (k : α) (v : β) :
    (L.foldl (fun d x => d.set (key x) (val x)) d).get? k = some v ↔
      (∃ x ∈ L, key x = k ∧ val x = v) ∨ ((∀ x ∈ L, key x ≠ k) ∧ d.get? k = some v) := by
  induction L generalizing d with
  | nil => simp
  | cons x L ih =>
      obtain ⟨hnot, hL⟩ := List.nodup_cons.mp hL
      rw [List.foldl_cons, ih hL, get?_set]
      by_cases hx : key x = k
      · have hne : ∀ y ∈ L, key y ≠ k := fun y hy h =>
          hnot (hx.trans h.symm ▸ List.mem_map_of_mem hy)
        rw [if_pos hx.symm]
        constructor
        · rintro (⟨y, hy, hk, -⟩ | ⟨-, hv⟩)
          · exact absurd hk (hne y hy)
          · exact Or.inl ⟨x, List.mem_cons_self, hx, Option.some.inj hv⟩
        · rintro (⟨y, hy, hk, hv⟩ | ⟨hall, -⟩)
          · rcases List.mem_cons.mp hy with rfl | hy
            · exact Or.inr ⟨hne, congrArg some hv⟩
            · exact absurd hk (hne y hy)
          · exact absurd hx (hall x List.mem_cons_self)
      · rw [if_neg (Ne.symm hx)]
        simp only [List.mem_cons, exists_eq_or_imp, forall_eq_or_imp, hx, false_and, false_or,
          not_false_eq_true, true_and, ne_eq]

theorem get?_eq_none_iff : d.get? k = none ↔ ∀ kv ∈ d.entries, kv.1 ≠ k := by
  rw [Option.eq_none_iff_forall_ne_some]
  constructor
  · rintro h ⟨k', v⟩ hmem rfl
    exact h v (mem_entries.mp hmem)
  · intro h v hv
    exact h (k, v) (mem_entries.mpr hv) rfl

/-- Setting the items of a dictionary in another gives the first one precedence. -/
theorem get?_foldl_set_entries (d d' : Dict α β) (k : α) :
    (d.entries.foldl (fun d kv => d.set kv.1 kv.2) d').get? k = (d.get? k).or (d'.get? k) := by
  apply Option.ext
  intro v
  rw [foldl_set_get?_eq_some Prod.fst Prod.snd d.entries d.nodup, Option.or_eq_some_iff,
    get?_eq_none_iff]
  apply or_congr_left
  constructor
  · rintro ⟨⟨k', v'⟩, hmem, rfl, rfl⟩
    exact mem_entries.mp hmem
  · intro h
    exact ⟨(k, v), mem_entries.mpr h, rfl, rfl⟩

theorem setEntries_of_notMem (k : α) (v : β) (l : List (α × β)) (h : k ∉ l.map Prod.fst) :
    setEntries k v l = l ++ [(k, v)] := by
  induction l with
  | nil => rfl
  | cons kv l ih =>
      rw [List.map_cons, List.mem_cons, not_or] at h
      unfold setEntries
      rw [if_neg (Ne.symm h.1), ih h.2, List.cons_append]

theorem entries_modify (d : Dict α β) (k : α) (f : β → β) :
    (d.modify k f).entries = d.entries.map fun kv => (kv.1, if kv.1 = k then f kv.2 else kv.2) :=
  rfl

theorem modify_id (d : Dict α β) (k : α) : d.modify k id = d := by
  refine Dict.ext ?_
  rw [entries_modify]
  simp only [id_eq, ite_self, Prod.eta, List.map_id']

theorem modify_modify (d : Dict α β) (k : α) (f g : β → β) :
    (d.modify k f).modify k g = d.modify k (g ∘ f) := by
  refine Dict.ext ?_
  rw [entries_modify, entries_modify, entries_modify, List.map_map]
  refine List.map_congr_left fun kv _ => ?_
  by_cases hk : kv.1 = k <;> simp [hk]

/-- A key that is set anew comes last, and is the only one that a change of it is about. -/
theorem entries_modify_set (h : d.get? k = none) (v : β) (f : β → β) :
    ((d.set k v).modify k f).entries = d.entries ++ [(k, f v)] := by
  have hnot : ∀ kv ∈ d.entries, kv.1 ≠ k := get?_eq_none_iff.mp h
  have hset : (d.set k v).entries = d.entries ++ [(k, v)] :=
    setEntries_of_notMem k v d.entries fun hmem => by
      obtain ⟨kv, hkv, hk⟩ := List.mem_map.mp hmem
      exact hnot kv hkv hk
  have hmap : d.entries.map (fun kv => (kv.1, if kv.1 = k then f kv.2 else kv.2)) = d.entries :=
    (List.map_congr_left fun kv hkv => by rw [if_neg (hnot kv hkv), id_eq]).trans (List.map_id _)
  rw [entries_modify, hset, List.map_append, hmap, List.map_singleton, if_pos rfl]

/-- The items after a key is set that is there. -/
theorem entries_set_of_mem (h : k ∈ d.keys) (v : β) :
    (d.set k v).entries = d.entries.map fun kv => if kv.1 = k then (k, v) else kv := by
  obtain ⟨l, hl⟩ := d
  change k ∈ l.map Prod.fst at h
  change setEntries k v l = l.map fun kv => if kv.1 = k then (k, v) else kv
  induction l with
  | nil => cases h
  | cons kv l ih =>
      rw [List.map_cons, List.nodup_cons] at hl
      unfold setEntries
      by_cases hk : kv.1 = k
      · have hrest : (l.map fun kv => if kv.1 = k then (k, v) else kv) = l := by
          refine (List.map_congr_left fun kv' hkv' => if_neg ?_).trans (List.map_id l)
          exact fun hk' => hl.1 (List.mem_map.mpr ⟨kv', hkv', hk'.trans hk.symm⟩)
        rw [if_pos hk, List.map_cons, if_pos hk, hrest]
      · rw [List.map_cons, List.mem_cons] at h
        rw [if_neg hk, List.map_cons, if_neg hk, ih hl.2 (h.resolve_left (Ne.symm hk))]

/-- A loop that sets new items appends them. -/
theorem entries_foldl_set (l : List (α × β)) (d : Dict α β)
    (hl : ((d.entries ++ l).map Prod.fst).Nodup) :
    (l.foldl (fun d kv => d.set kv.1 kv.2) d).entries = d.entries ++ l := by
  induction l generalizing d with
  | nil => exact (List.append_nil _).symm
  | cons kv l ih =>
      have hset : (d.set kv.1 kv.2).entries = d.entries ++ [kv] := by
        apply setEntries_of_notMem
        rw [List.map_append, List.map_cons, List.nodup_append] at hl
        exact fun h => hl.2.2 _ h _ List.mem_cons_self rfl
      have happ : (d.set kv.1 kv.2).entries ++ l = d.entries ++ kv :: l := by
        rw [hset, List.append_assoc, List.singleton_append]
      rw [List.foldl_cons, ih _ (happ ▸ hl), happ]

/-- Setting the items of a dictionary one by one builds it again. -/
theorem foldl_set_entries (d : Dict α β) :
    d.entries.foldl (fun d kv => d.set kv.1 kv.2) (empty : Dict α β) = d :=
  Dict.ext (entries_foldl_set d.entries empty d.nodup)

/-! ### Values under keys of their own -/

/-- The values of a list, each set under its own key. -/
def collect (key : β → α) (l : List β) : Dict α β := l.foldl (fun d v => d.set (key v) v) empty

theorem get?_foldl_set_last (key : β → α) (l : List β) (d : Dict α β) (k : α) :
    (l.foldl (fun d v => d.set (key v) v) d).get? k =
      ((l.filter fun v => key v = k).getLast?).or (d.get? k) := by
  induction l generalizing d with
  | nil => rfl
  | cons v l ih =>
      rw [List.foldl_cons, ih, get?_set]
      by_cases hk : key v = k
      · rw [if_pos hk.symm, List.filter_cons_of_pos (by simpa using hk), List.getLast?_cons]
        cases (l.filter fun v => key v = k).getLast? <;> rfl
      · rw [if_neg (Ne.symm hk), List.filter_cons_of_neg (by simpa using hk)]

/-- The last value of a key is the one that stays. -/
theorem get?_collect (key : β → α) (l : List β) (k : α) :
    (collect key l).get? k = (l.filter fun v => key v = k).getLast? := by
  unfold collect
  rw [get?_foldl_set_last, get?_empty, Option.or_none]

/-- What is collected is under its own key. -/
theorem key_of_get?_collect {key : β → α} {l : List β} (h : (collect key l).get? k = some v) :
    key v = k := by
  rw [get?_collect] at h
  exact of_decide_eq_true (List.mem_filter.mp (List.mem_of_getLast? h)).2

theorem mem_values_collect {key : β → α} {l : List β} : v ∈ (collect key l).values ↔
    (l.filter fun u => key u = key v).getLast? = some v := by
  rw [mem_values, ← get?_collect]
  constructor
  · rintro ⟨k, hk⟩
    rwa [key_of_get?_collect hk]
  · exact fun h => ⟨key v, h⟩

theorem mem_of_mem_values_collect {key : β → α} {l : List β} (h : v ∈ (collect key l).values) :
    v ∈ l :=
  (List.mem_filter.mp (List.mem_of_getLast? (mem_values_collect.mp h))).1

/-- No key is collected twice. -/
theorem eq_of_mem_values_collect {key : β → α} {l : List β} (hv : v ∈ (collect key l).values)
    (hv' : v' ∈ (collect key l).values) (hkey : key v = key v') : v = v' := by
  rw [mem_values_collect] at hv hv'
  rw [hkey] at hv
  exact Option.some.inj (hv.symm.trans hv')

theorem nodup_map_values_collect (key : β → α) (l : List β) :
    ((collect key l).values.map key).Nodup := by
  have hkeys : (collect key l).values.map key = (collect key l).keys := by
    unfold values keys
    rw [List.map_map]
    apply List.map_congr_left
    rintro ⟨k, v⟩ hkv
    have hkey : key v = k := key_of_get?_collect (mem_entries.mp hkv)
    exact hkey
  rw [hkeys]
  exact nodup_keys _

/-- All values are collected just when no two of them share a key. -/
theorem forall_mem_values_collect {key : β → α} {l : List β} :
    (∀ v ∈ l, v ∈ (collect key l).values) ↔ ∀ v ∈ l, ∀ v' ∈ l, key v = key v' → v = v' := by
  constructor
  · intro h v hv v' hv' hkey
    exact eq_of_mem_values_collect (h v hv) (h v' hv') hkey
  · intro h v hv
    rw [mem_values_collect]
    have hmem : v ∈ l.filter fun u => key u = key v := List.mem_filter.mpr ⟨hv, by simp⟩
    obtain ⟨u, hu⟩ := Option.isSome_iff_exists.mp (List.getLast?_isSome.mpr (List.ne_nil_of_mem hmem))
    obtain ⟨hul, hukey⟩ := List.mem_filter.mp (List.mem_of_getLast? hu)
    rw [hu, h u hul v hv (of_decide_eq_true hukey)]

/-- Values with keys of their own stay in order. -/
theorem values_collect_of_nodup (key : β → α) (l : List β) (hl : (l.map key).Nodup) :
    (collect key l).values = l := by
  have hentries : (collect key l).entries = l.map fun v => (key v, v) := by
    have h := entries_foldl_set (l.map fun v => (key v, v)) (empty : Dict α β)
      (by rw [show (empty : Dict α β).entries = [] from rfl, List.nil_append, List.map_map]
          exact hl)
    rw [List.foldl_map] at h
    exact h
  unfold values
  rw [hentries, List.map_map]
  exact List.map_id l

/-- Leaving out values that do not stay changes nothing. -/
theorem get?_collect_filter {key : β → α} {l : List β} {q : β → Bool}
    (h : ∀ v ∈ (collect key l).values, q v = true) (k : α) :
    (collect key (l.filter q)).get? k = (collect key l).get? k := by
  rw [get?_collect, get?_collect, List.filter_comm]
  rcases hlast : (l.filter fun v => key v = k).getLast? with _ | v
  · rw [List.getLast?_eq_none_iff.mp hlast]
    rfl
  · have hq : q v = true := h v (mem_values.mpr ⟨k, (get?_collect key l k).trans hlast⟩)
    obtain ⟨l', hl'⟩ := List.getLast?_eq_some_iff.mp hlast
    rw [hl', List.filter_append, List.filter_cons_of_pos hq, List.filter_nil,
      List.getLast?_concat]

/-- Dictionaries with the same value at every key have the same items. -/
theorem perm_entries {d d' : Dict α β} (h : ∀ k, d.get? k = d'.get? k) :
    d.entries.Perm d'.entries := by
  rw [List.perm_ext_iff_of_nodup d.nodup.of_map d'.nodup.of_map]
  rintro ⟨k, v⟩
  rw [mem_entries, mem_entries, h]

theorem sum_setEntries (f : α × β → ℕ) (k : α) (v v' : β) (l : List (α × β))
    (h : l.lookup k = some v) :
    ((setEntries k v' l).map f).sum + f (k, v) = (l.map f).sum + f (k, v') := by
  induction l with
  | nil => cases h
  | cons kv l ih =>
      rw [lookup_cons_eq] at h
      unfold setEntries
      by_cases hk : k = kv.1
      · rw [if_pos hk] at h
        have hkv : kv = (k, v) := Prod.ext hk.symm (Option.some.inj h)
        rw [if_pos hk.symm, hkv]
        simp only [List.map_cons, List.sum_cons]
        omega
      · rw [if_neg hk] at h
        rw [if_neg (Ne.symm hk)]
        simp only [List.map_cons, List.sum_cons]
        have := ih h
        omega

/-- A total over the items changes with the value of the key that is set. -/
theorem sum_entries_set (f : α × β → ℕ) (h : d.get? k = some v) :
    ((d.set k v').entries.map f).sum + f (k, v) = (d.entries.map f).sum + f (k, v') :=
  sum_setEntries f k v v' d.entries h

end Dict

/-- A dictionary all of whose items meet `ok`. -/
@[ext]
structure Table (ok : α → β → Prop) [DecidableEq α] where
  rows : Dict α β
  /-- Every item meets `ok`. -/
  checked : ∀ k v, rows.get? k = some v → ok k v

namespace Table

variable [DecidableEq α] {ok : α → β → Prop}

instance [DecidableEq β] : DecidableEq (Table ok) := fun t t' =>
  decidable_of_iff (t.rows = t'.rows) ⟨Table.ext, congrArg rows⟩

/-- The empty table. -/
def empty : Table ok := ⟨Dict.empty, fun _ _ h => by cases h⟩

/-- Sets an item. -/
def set (t : Table ok) (k : α) (v : β) (h : ok k v) : Table ok :=
  ⟨t.rows.set k v, fun k' v' h' => by
    rw [Dict.get?_set] at h'
    split at h'
    · rename_i hk
      obtain rfl := Option.some.inj h'
      exact hk ▸ h
    · exact t.checked k' v' h'⟩

/-- Removes an item. -/
def erase (t : Table ok) (k : α) : Table ok :=
  ⟨t.rows.erase k, fun k' v' h' => by
    rw [Dict.get?_erase] at h'
    split at h'
    · cases h'
    · exact t.checked k' v' h'⟩

/-- The table of a list of values that name their keys. -/
def ofList (key : β → α) (h : ∀ v, ok (key v) v) (l : List β) : Table ok :=
  l.foldl (fun t v => t.set (key v) v (h v)) empty

theorem rows_foldl_set (key : β → α) (h : ∀ v, ok (key v) v) (l : List β) (t : Table ok) :
    (l.foldl (fun t v => t.set (key v) v (h v)) t).rows =
      l.foldl (fun d v => d.set (key v) v) t.rows := by
  induction l generalizing t with
  | nil => rfl
  | cons v l ih => exact ih _

/-- The values of a table whose values name their keys build it again. -/
theorem ofList_values (key : β → α) (h : ∀ v, ok (key v) v) (hkey : ∀ k v, ok k v → key v = k)
    (t : Table ok) : ofList key h t.rows.values = t := by
  apply Table.ext
  calc (ofList key h t.rows.values).rows
      = (t.rows.entries.map Prod.snd).foldl (fun d v => d.set (key v) v) Dict.empty :=
        rows_foldl_set key h _ empty
    _ = t.rows.entries.foldl (fun d kv => d.set (key kv.2) kv.2) Dict.empty := List.foldl_map
    _ = t.rows.entries.foldl (fun d kv => d.set kv.1 kv.2) Dict.empty := by
        apply List.foldl_ext
        intro d kv hkv
        rw [hkey kv.1 kv.2 (t.checked kv.1 kv.2 (Dict.mem_entries.mp hkv))]
    _ = t.rows := Dict.foldl_set_entries t.rows

end Table

end NanoFabric.Found
