import Mathlib.Data.List.Infix
import Mathlib.Order.MinMax
import NanoFabric.Raft.NodeSpec

/-!
# Logs whose positions are their indexes

What the code's list and table operations do to a log whose indexes count on from an index
(`Contiguous`), and to one whose entry at position `i` has index `i + 1` (`Aligned`), which is what the
positional reads of `metadata/raft/node.py` rely on.

* `appendLoop_cases` — the loop of `handle_append_entries` against a request that agrees with the
  log wherever the terms agree: nothing, an extension, or one truncation and an extension.
* `foldl_insertOrReplace` — `append_entries` on the stored log of the same shape.
* `filter_index_lt`, `filter_lt_index`, `filter_le_index` — the cuts by index are cuts by position.
-/

namespace NanoFabric.Raft

variable {N P : Type}

/-! ## Contiguous logs -/

/-- What a prefix holds at a position, the whole holds there. -/
theorem getElem?_mono {α : Type} {L M : List α} (h : L <+: M) {i : ℕ} {e : α}
    (he : L[i]? = some e) : M[i]? = some e := by
  obtain ⟨Y, rfl⟩ := h
  rw [List.getElem?_append_left (List.getElem?_eq_some_iff.mp he).1]
  exact he

/-- The entry at position `i` has index `k + i + 1`. -/
def Contiguous (k : ℕ) (L : List (LogEntry P)) : Prop :=
  ∀ (i : ℕ) (e : LogEntry P), L[i]? = some e → e.index = k + i + 1

section contiguous

variable {k k' : ℕ} {L entries : List (LogEntry P)}

theorem Contiguous.mono (h : Contiguous k L) (hpre : entries <+: L) : Contiguous k entries :=
  fun i e he => h i e (getElem?_mono hpre he)

theorem Contiguous.drop (h : Contiguous k L) (i : ℕ) : Contiguous (k + i) (L.drop i) := by
  intro j e he
  rw [List.getElem?_drop] at he
  have := h _ e he
  omega

theorem Contiguous.index_le (h : Contiguous k L) {e : LogEntry P} (he : e ∈ L) :
    k < e.index ∧ e.index ≤ k + L.length := by
  obtain ⟨i, hi⟩ := List.mem_iff_getElem?.mp he
  have hlt := (List.getElem?_eq_some_iff.mp hi).1
  have := h i e hi
  omega

/-- A snapshot takes the first entries of a contiguous log. -/
theorem Contiguous.filter_lt (h : Contiguous k L) (hle : k ≤ k') :
    L.filter (fun e => decide (k' < e.index)) = L.drop (k' - k) := by
  rw [← List.take_append_drop (k' - k) L, List.filter_append, List.take_append_drop]
  have hlow : (L.take (k' - k)).filter (fun e => decide (k' < e.index)) = [] := by
    refine List.filter_eq_nil_iff.mpr fun e he => ?_
    obtain ⟨i, hi⟩ := List.mem_iff_getElem?.mp he
    have hlt := (List.getElem?_eq_some_iff.mp hi).1
    rw [List.length_take] at hlt
    have := h i e (getElem?_mono (List.take_prefix _ _) hi)
    simp only [decide_eq_true_eq]
    omega
  have hhigh : (L.drop (k' - k)).filter (fun e => decide (k' < e.index)) = L.drop (k' - k) := by
    refine List.filter_eq_self.mpr fun e he => ?_
    have := ((h.drop (k' - k)).index_le he).1
    simp only [decide_eq_true_eq]
    omega
  rw [hlow, hhigh, List.nil_append]

theorem Contiguous.tail {e : LogEntry P} (h : Contiguous k (e :: entries)) :
    e.index = k + 1 ∧ Contiguous (k + 1) entries :=
  ⟨h 0 e rfl, h.drop 1⟩

theorem Contiguous.index_of_getLast? {e : LogEntry P} (h : Contiguous k L)
    (he : L.getLast? = some e) : e.index = k + L.length := by
  rw [List.getLast?_eq_getElem?] at he
  have hlt := (List.getElem?_eq_some_iff.mp he).1
  have := h _ e he
  omega

/-- What goes on from a contiguous log is contiguous with it, if it starts with the next index. -/
theorem Contiguous.append_iff (h : Contiguous k L) (h' : Contiguous k' entries) :
    Contiguous k (L ++ entries) ↔ ∀ e ∈ entries.head?, e.index = k + L.length + 1 := by
  constructor
  · intro happ e he
    have hget : (L ++ entries)[L.length]? = some e := by
      rw [List.getElem?_append_right le_rfl, Nat.sub_self, ← List.head?_eq_getElem?]
      exact he
    exact happ _ e hget
  · intro hhead i e he
    rcases Nat.lt_or_ge i L.length with hi | hi
    · rw [List.getElem?_append_left hi] at he
      exact h i e he
    · rw [List.getElem?_append_right hi] at he
      have hindex := h' _ e he
      rcases hfirst : entries[0]? with _ | first
      · rw [List.getElem?_eq_none_iff] at hfirst
        have := (List.getElem?_eq_some_iff.mp he).1
        omega
      · have hfirstIndex := h' 0 first hfirst
        have := hhead first (by rw [List.head?_eq_getElem?]; exact hfirst)
        omega

theorem Contiguous.concat (h : Contiguous k L) {e : LogEntry P} (he : e.index = k + L.length + 1) :
    Contiguous k (L ++ [e]) := by
  have hlast : Contiguous (k + L.length) [e] := by
    rintro (_ | i) e' he'
    · obtain rfl := Option.some.inj he'
      exact he
    · cases he'
  refine (h.append_iff hlast).mpr fun e' he' => ?_
  obtain rfl := Option.some.inj he'
  exact he

end contiguous

/-! ## Logs whose positions are their indexes -/

/-- The entry at position `i` has index `i + 1`. -/
def Aligned (L : List (LogEntry P)) : Prop := ∀ i e, L[i]? = some e → e.index = i + 1

theorem contiguous_zero {L : List (LogEntry P)} : Contiguous 0 L ↔ Aligned L := by
  unfold Contiguous Aligned
  simp only [Nat.zero_add]

theorem Aligned.contiguous {L : List (LogEntry P)} (h : Aligned L) : Contiguous 0 L :=
  contiguous_zero.mpr h

theorem Aligned.mono {L M : List (LogEntry P)} (h : Aligned M) (hL : L <+: M) : Aligned L :=
  fun i e he => h i e (getElem?_mono hL he)

theorem Aligned.mem_iff {L : List (LogEntry P)} (h : Aligned L) {e : LogEntry P} :
    e ∈ L ↔ 0 < e.index ∧ L[e.index - 1]? = some e := by
  constructor
  · intro he
    obtain ⟨i, hi⟩ := List.mem_iff_getElem?.mp he
    have hidx := h i e hi
    refine ⟨by omega, ?_⟩
    rw [hidx, Nat.add_sub_cancel]
    exact hi
  · exact fun he => List.mem_of_getElem? he.2

theorem Aligned.index_le {L : List (LogEntry P)} (h : Aligned L) {e : LogEntry P} (he : e ∈ L) :
    e.index ≤ L.length :=
  (h.contiguous.index_le he).2.trans_eq (Nat.zero_add _)

/-- Past position `k` the indexes are above `k`. -/
theorem Aligned.lt_of_mem_drop {L : List (LogEntry P)} (h : Aligned L) {k : ℕ} {e : LogEntry P}
    (he : e ∈ L.drop k) : k < e.index := by
  have hlt := ((h.contiguous.drop k).index_le he).1
  rwa [Nat.zero_add] at hlt

/-- Up to position `k` the indexes are at most `k`. -/
theorem Aligned.le_of_mem_take {L : List (LogEntry P)} (h : Aligned L) {k : ℕ} {e : LogEntry P}
    (he : e ∈ L.take k) : e.index ≤ k :=
  ((h.mono (List.take_prefix k L)).index_le he).trans (List.length_take_le k L)

/-- The cut of a snapshot. -/
theorem Aligned.filter_lt_index {L : List (LogEntry P)} (h : Aligned L) {j k : ℕ} (hjk : j ≤ k) :
    (L.drop j).filter (fun e => decide (k < e.index)) = L.drop k := by
  have hfilter := (h.contiguous.drop j).filter_lt (by rwa [Nat.zero_add] : 0 + j ≤ k)
  rwa [List.drop_drop, Nat.zero_add, Nat.add_sub_cancel' hjk] at hfilter

/-- The entries of a request. -/
theorem Aligned.filter_le_index {L : List (LogEntry P)} (h : Aligned L) (k : ℕ) :
    L.filter (fun e => decide (k ≤ e.index)) = L.drop (k - 1) := by
  cases k with
  | zero => simp
  | succ k => simpa [Nat.succ_le_iff] using h.filter_lt_index (Nat.zero_le k)

/-- The cut of a truncation. -/
theorem Aligned.filter_index_lt {L : List (LogEntry P)} (h : Aligned L) (k : ℕ) :
    L.filter (fun e => decide (e.index < k + 1)) = L.take k := by
  conv_lhs => rw [← List.take_append_drop k L, List.filter_append]
  have hlow : (L.take k).filter (fun e => decide (e.index < k + 1)) = L.take k :=
    List.filter_eq_self.mpr fun e he => by simpa using Nat.lt_succ_of_le (h.le_of_mem_take he)
  have hhigh : (L.drop k).filter (fun e => decide (e.index < k + 1)) = [] := by
    refine List.filter_eq_nil_iff.mpr fun e he => ?_
    have := h.lt_of_mem_drop he
    simp only [decide_eq_true_eq]
    omega
  rw [hlow, hhigh, List.append_nil]

/-! ## The stored log -/

/-- A row above all others goes to the end. -/
theorem insertOrReplace_of_lt {e : LogEntry P} : ∀ {rows : List (LogEntry P)},
    (∀ r ∈ rows, r.index < e.index) → insertOrReplace e rows = rows ++ [e]
  | [], _ => rfl
  | r :: rows, h => by
      rw [insertOrReplace, if_pos (h r List.mem_cons_self),
        insertOrReplace_of_lt fun r hr => h r (List.mem_cons_of_mem _ hr)]
      rfl

/-- A row that is there already stays. -/
theorem insertOrReplace_self {e : LogEntry P} {Y : List (LogEntry P)} :
    ∀ {X : List (LogEntry P)}, (∀ r ∈ X, r.index < e.index) →
      insertOrReplace e (X ++ e :: Y) = X ++ e :: Y
  | [], _ => by simp [insertOrReplace]
  | r :: X, h => by
      rw [List.cons_append, insertOrReplace, if_pos (h r List.mem_cons_self),
        insertOrReplace_self fun r hr => h r (List.mem_cons_of_mem _ hr)]

section insert

variable {k : ℕ} {M entries : List (LogEntry P)} {e : LogEntry P}

/-- A row that is there stays. -/
theorem Contiguous.insertOrReplace_mem (h : Contiguous k M) (he : e ∈ M) :
    insertOrReplace e M = M := by
  obtain ⟨X, Y, rfl⟩ := List.append_of_mem he
  refine insertOrReplace_self fun r hr => ?_
  obtain ⟨i, hi⟩ := List.mem_iff_getElem?.mp hr
  have hlt := (List.getElem?_eq_some_iff.mp hi).1
  have := h i r (getElem?_mono (List.prefix_append _ _) hi)
  have := h X.length e (by simp)
  omega

/-- `append_entries` on a stored log that has the entries already leaves it. -/
theorem Contiguous.foldl_insertOrReplace_mem (h : Contiguous k M) (hmem : ∀ e ∈ entries, e ∈ M) :
    entries.foldl (fun rows e => insertOrReplace e rows) M = M := by
  induction entries with
  | nil => rfl
  | cons e entries ih =>
      rw [List.foldl_cons, h.insertOrReplace_mem (hmem e List.mem_cons_self)]
      exact ih fun e' he' => hmem e' (List.mem_cons_of_mem _ he')

/-- `append_entries` on a stored log the entries continue extends it. -/
theorem foldl_insertOrReplace_next (h : Contiguous k (M ++ entries)) :
    entries.foldl (fun rows e => insertOrReplace e rows) M = M ++ entries := by
  induction entries generalizing M with
  | nil => exact (List.append_nil M).symm
  | cons e entries ih =>
      have hindex : e.index = k + M.length + 1 := h M.length e (by simp)
      have hlast : insertOrReplace e M = M ++ [e] := insertOrReplace_of_lt fun r hr => by
        have := ((h.mono (List.prefix_append _ _)).index_le hr).2
        omega
      rw [List.foldl_cons, hlast, ih (by rwa [List.append_assoc, List.singleton_append]),
        List.append_assoc, List.singleton_append]

theorem foldl_insertOrReplace_held {Pre : List (LogEntry P)} (hM : Aligned M)
    (h : Pre ++ entries <+: M) : entries.foldl (fun rows e => insertOrReplace e rows) M = M :=
  hM.contiguous.foldl_insertOrReplace_mem fun _ he =>
    h.subset (List.mem_append_right Pre he)

end insert

/-- `append_entries` on a stored log that shares what precedes the entries and is comparable with
them leaves the longer of the two. -/
theorem foldl_insertOrReplace : ∀ {entries Pre M : List (LogEntry P)},
    Aligned (Pre ++ entries) → Pre <+: M → M <+: Pre ++ entries →
      entries.foldl (fun rows e => insertOrReplace e rows) M = Pre ++ entries
  | [], Pre, M, _, hM, hPre => by
      rw [List.append_nil] at hPre ⊢
      exact hPre.eq_of_length_le hM.length_le
  | e :: entries, Pre, M, hal, hM, hPre => by
      have hal' : Aligned (Pre ++ [e] ++ entries) := by simpa using hal
      have hPre' : M <+: Pre ++ [e] ++ entries := by simpa using hPre
      rcases hM.length_le.eq_or_lt with hlen | hlen
      · obtain rfl := hM.eq_of_length hlen
        exact foldl_insertOrReplace_next hal.contiguous
      · have hMe : Pre ++ [e] <+: M := by
          refine List.prefix_of_prefix_length_le (List.prefix_append _ entries) hPre' ?_
          simpa using Nat.succ_le_of_lt hlen
        have he : e ∈ M := hMe.subset (List.mem_append_right Pre List.mem_cons_self)
        rw [List.foldl_cons, (hal.mono hPre).contiguous.insertOrReplace_mem he,
          foldl_insertOrReplace hal' hMe hPre', List.append_assoc, List.singleton_append]

/-! ## The loop of `handle_append_entries` -/

/-- Entries that are all beyond the log are appended, whatever their indexes are. -/
theorem appendLoop_of_le {k : ℕ} {L entries : List (LogEntry P)} (h : Contiguous k entries)
    (hle : L.length ≤ k) : RaftNode.appendLoop (N := N) L entries = (L ++ entries, []) := by
  induction entries generalizing k L with
  | nil => rw [RaftNode.appendLoop, List.append_nil]
  | cons e entries ih =>
      obtain ⟨hindex, htail⟩ := h.tail
      have hnot : ¬(e.index ≤ L.length ∧ L[e.index - 1]?.map LogEntry.term ≠ some e.term) :=
        fun hc => by omega
      rw [RaftNode.appendLoop, if_neg hnot, if_pos (by omega),
        ih htail (by rw [List.length_append, List.length_singleton]; omega), List.append_assoc,
        List.singleton_append]

/-- On a log the entries continue, the loop appends them. -/
theorem appendLoop_append {L entries : List (LogEntry P)} (h : Aligned (L ++ entries)) :
    RaftNode.appendLoop (N := N) L entries = (L ++ entries, []) := by
  have hdrop := h.contiguous.drop L.length
  rw [List.drop_left] at hdrop
  exact appendLoop_of_le hdrop (Nat.le_add_left _ _)

/-- The loop, on a log that shares what precedes the entries and holds the entries of the request
wherever the terms agree: the log has them all; or they extend it; or from the first conflict on
they take its place. -/
theorem appendLoop_cases : ∀ {entries Pre L : List (LogEntry P)}, Aligned (Pre ++ entries) →
    Pre <+: L →
    (∀ (i : ℕ) (a b : LogEntry P), L[i]? = some a → (Pre ++ entries)[i]? = some b →
      a.term = b.term → a = b) →
    (Pre ++ entries <+: L ∧ RaftNode.appendLoop (N := N) L entries = (L, [])) ∨
    (L <+: Pre ++ entries ∧ RaftNode.appendLoop (N := N) L entries = (Pre ++ entries, [])) ∨
    ∃ (k : ℕ) (a b : LogEntry P), L[k]? = some a ∧ (Pre ++ entries)[k]? = some b ∧ a ≠ b ∧
      L.take k <+: Pre ++ entries ∧ Pre <+: L.take k ∧
      RaftNode.appendLoop (N := N) L entries = (Pre ++ entries, [.truncateLogFrom (k + 1)])
  | [], Pre, L, _, hL, _ => by
      rw [List.append_nil]
      exact Or.inl ⟨hL, rfl⟩
  | e :: entries, Pre, L, hal, hL, hagree => by
      have he : e.index = Pre.length + 1 := hal Pre.length e (by simp)
      have hal' : Aligned (Pre ++ [e] ++ entries) := by simpa using hal
      rcases hL.length_le.eq_or_lt with hlen | hlen
      · obtain rfl := hL.eq_of_length hlen
        exact Or.inr (Or.inl ⟨List.prefix_append _ _, appendLoop_append hal⟩)
      · have hget : L[Pre.length]? = some L[Pre.length] := List.getElem?_eq_getElem hlen
        have hget' : (Pre ++ e :: entries)[Pre.length]? = some e := by simp
        have hidx : L[e.index - 1]? = some L[Pre.length] := by
          rw [he, Nat.add_sub_cancel]
          exact hget
        by_cases hterm : L[Pre.length].term = e.term
        · -- the entry is there
          have heq : L[Pre.length] = e := hagree _ _ _ hget hget' hterm
          have hL' : Pre ++ [e] <+: L := by
            obtain ⟨Y, rfl⟩ := hL
            cases Y with
            | nil => simp at hlen
            | cons y Y =>
                refine ⟨Y, ?_⟩
                simp only [List.getElem_append_right (le_refl _), Nat.sub_self,
                  List.getElem_cons_zero] at heq
                rw [heq, List.append_assoc, List.singleton_append]
          have hstep : RaftNode.appendLoop (N := N) L (e :: entries) =
              RaftNode.appendLoop L entries := by
            rw [RaftNode.appendLoop, if_neg, if_neg (by omega)]
            rw [hidx, Option.map_some, hterm]
            exact fun hc => hc.2 rfl
          have ih := appendLoop_cases hal' hL' (by simpa using hagree)
          rw [List.append_assoc, List.singleton_append] at ih
          rw [hstep]
          rcases ih with ih | ih | ⟨k, a, b, hk, hk', hab, htake, hpre, hloop⟩
          · exact Or.inl ih
          · exact Or.inr (Or.inl ih)
          · exact Or.inr (Or.inr ⟨k, a, b, hk, hk', hab, htake,
              (List.prefix_append _ _).trans hpre, hloop⟩)
        · -- a conflict: the log ends before it
          have htake : L.take Pre.length = Pre := (List.prefix_iff_eq_take.mp hL).symm
          refine Or.inr (Or.inr ⟨Pre.length, L[Pre.length], e, hget, hget',
            fun h => hterm (congrArg LogEntry.term h), ?_, ?_, ?_⟩)
          · rw [htake]
            exact List.prefix_append _ _
          · rw [htake]
          · rw [RaftNode.appendLoop, if_pos]
            · simp only [he, Nat.add_sub_cancel, htake, Nat.lt_succ_self, if_true]
              rw [appendLoop_append hal', List.append_assoc, List.singleton_append]
            · refine ⟨by omega, ?_⟩
              rw [hidx, Option.map_some]
              exact fun h => hterm (Option.some.inj h)

end NanoFabric.Raft
