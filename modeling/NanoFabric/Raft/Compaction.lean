import NanoFabric.Raft.Representation

/-!
# Compacted logs

A node with its database under local appends, requests of leaders that may have compacted their own
logs, snapshots and restarts, and whether the fields of the node belong together.

* `erasedAfter_appendLoop` — what a request leaves of the rows after the snapshot, up to commands and
  payloads.
* `Durable.represented_iff_stepsMeet` — the runs throughout which the fields belong together.
* `Durable.represented_counterexample` — no leader has to be compacted for the first snapshot to break
  it.
-/

namespace NanoFabric.Raft

open NanoFabric.Found

variable {N P : Type}

/-! ## Stored entries up to their commands -/

/-- An entry without its command and payload, of which a leader's request may bring others. -/
def LogEntry.erased (e : LogEntry P) : LogEntry Unit := bare e.index e.term

/-- The entries after an index, without their commands and payloads. -/
def erasedAfter (k : ℕ) (L : List (LogEntry P)) : List (LogEntry Unit) :=
  (L.filter fun e => k < e.index).map LogEntry.erased

section erased

variable {k k' : ℕ} {L M pre post rows : List (LogEntry P)} {e : LogEntry P}

theorem contiguous_map_erased : Contiguous k (L.map LogEntry.erased) ↔ Contiguous k L := by
  constructor
  · intro h i e he
    exact h i e.erased (by rw [List.getElem?_map, he]; rfl)
  · intro h i e he
    rw [List.getElem?_map] at he
    obtain ⟨e', he', rfl⟩ := Option.map_eq_some_iff.mp he
    exact h i e' he'

theorem Contiguous.erasedAfter (h : Contiguous k L) : erasedAfter k L = L.map LogEntry.erased := by
  unfold Raft.erasedAfter
  rw [h.filter_lt le_rfl, Nat.sub_self, List.drop_zero]

theorem erasedAfter_append (k : ℕ) (L M : List (LogEntry P)) :
    erasedAfter k (L ++ M) = erasedAfter k L ++ erasedAfter k M := by
  unfold erasedAfter
  rw [List.filter_append, List.map_append]

/-- A later snapshot keeps less. -/
theorem erasedAfter_filter (hle : k ≤ k') (L : List (LogEntry P)) :
    erasedAfter k' L = (erasedAfter k L).filter fun e => k' < e.index := by
  unfold erasedAfter
  rw [List.filter_map, List.filter_filter]
  refine congrArg (List.map _) (List.filter_congr fun e _ => ?_)
  show decide (k' < e.index) = (decide (k' < e.index) && decide (k < e.index))
  rw [← Bool.decide_and, decide_eq_decide]
  exact ⟨fun hlt => ⟨hlt, lt_of_le_of_lt hle hlt⟩, And.left⟩

theorem erasedAfter_truncate (k c : ℕ) (L : List (LogEntry P)) :
    erasedAfter k (L.filter fun e => e.index < c) =
      (erasedAfter k L).filter fun e => e.index < c := by
  unfold erasedAfter
  rw [List.filter_map, List.filter_filter, List.filter_filter]
  refine congrArg (List.map _) (List.filter_congr fun e _ => ?_)
  exact Bool.and_comm _ _

theorem map_erased_insertOrReplace (e : LogEntry P) (rows : List (LogEntry P)) :
    (insertOrReplace e rows).map LogEntry.erased =
      insertOrReplace e.erased (rows.map LogEntry.erased) := by
  induction rows with
  | nil => rfl
  | cons row rows ih =>
      have hrow : row.erased.index = row.index := rfl
      have he : e.erased.index = e.index := rfl
      rw [insertOrReplace, List.map_cons, insertOrReplace, hrow, he]
      split_ifs
      · rw [List.map_cons, ih]
      · rfl
      · rfl

/-- Rows that a snapshot includes do not matter to the others. -/
theorem filter_insertOrReplace (k : ℕ) (e : LogEntry P) (rows : List (LogEntry P)) :
    (insertOrReplace e rows).filter (fun row => decide (k < row.index)) =
      if k < e.index then insertOrReplace e (rows.filter fun row => decide (k < row.index))
      else rows.filter fun row => decide (k < row.index) := by
  induction rows with
  | nil =>
      by_cases hk : k < e.index <;> simp [insertOrReplace, hk]
  | cons row rows ih =>
      rcases lt_trichotomy row.index e.index with hlt | heq | hgt
      · rw [insertOrReplace, if_pos hlt]
        by_cases hrow : k < row.index
        · have hk : k < e.index := hrow.trans hlt
          rw [List.filter_cons_of_pos (by simpa using hrow), ih, if_pos hk, if_pos hk,
            List.filter_cons_of_pos (by simpa using hrow), insertOrReplace, if_pos hlt]
        · rw [List.filter_cons_of_neg (by simpa using hrow), ih,
            List.filter_cons_of_neg (by simpa using hrow)]
      · rw [insertOrReplace, if_neg heq.not_lt, if_pos heq]
        by_cases hk : k < e.index
        · rw [List.filter_cons_of_pos (by simpa using hk), if_pos hk,
            List.filter_cons_of_pos (by simpa [heq] using hk), insertOrReplace, if_neg heq.not_lt,
            if_pos heq]
        · rw [List.filter_cons_of_neg (by simpa using hk), if_neg hk,
            List.filter_cons_of_neg (by simpa [heq] using hk)]
      · rw [insertOrReplace, if_neg hgt.not_gt, if_neg hgt.ne']
        by_cases hk : k < e.index
        · rw [List.filter_cons_of_pos (by simpa using hk), if_pos hk,
            List.filter_cons_of_pos (by simpa using hk.trans hgt), insertOrReplace,
            if_neg hgt.not_gt, if_neg hgt.ne']
        · rw [List.filter_cons_of_neg (by simpa using hk), if_neg hk]

/-- What `append_entries` makes of the rows after a snapshot. -/
theorem erasedAfter_foldl (k : ℕ) (entries rows : List (LogEntry P)) :
    erasedAfter k (entries.foldl (fun rows e => insertOrReplace e rows) rows) =
      (erasedAfter k entries).foldl (fun rows e => insertOrReplace e rows) (erasedAfter k rows) := by
  induction entries generalizing rows with
  | nil => rfl
  | cons e entries ih =>
      rw [List.foldl_cons, ih]
      unfold erasedAfter
      rw [filter_insertOrReplace]
      by_cases hk : k < e.index
      · rw [if_pos hk, List.filter_cons_of_pos (by simpa using hk), List.map_cons, List.foldl_cons,
          map_erased_insertOrReplace]
      · rw [if_neg hk, List.filter_cons_of_neg (by simpa using hk)]

/-- Entries of which the first ones are stored and the others go on from the stored ones. -/
theorem erasedAfter_foldl_append (hrows : erasedAfter k rows = L.map LogEntry.erased)
    (hheld : ∀ e ∈ pre, k < e.index → e.erased ∈ L.map LogEntry.erased)
    (hlog : Contiguous k (L ++ post)) :
    erasedAfter k ((pre ++ post).foldl (fun rows e => insertOrReplace e rows) rows) =
      (L ++ post).map LogEntry.erased := by
  have hL : Contiguous k L := fun i a ha => hlog i a (getElem?_mono (List.prefix_append _ _) ha)
  have hpost : erasedAfter k post = post.map LogEntry.erased := by
    unfold erasedAfter
    rw [List.filter_eq_self.mpr fun e he => ?_]
    exact decide_eq_true (hlog.index_le (List.mem_append_right L he)).1
  have hpre : (erasedAfter k pre).foldl (fun rows e => insertOrReplace e rows)
      (L.map LogEntry.erased) = L.map LogEntry.erased := by
    refine (contiguous_map_erased.mpr hL).foldl_insertOrReplace_mem fun e he => ?_
    unfold erasedAfter at he
    obtain ⟨e', he', rfl⟩ := List.mem_map.mp he
    rw [List.mem_filter, decide_eq_true_iff] at he'
    exact hheld e' he'.1 he'.2
  rw [erasedAfter_foldl, erasedAfter_append, List.foldl_append, hrows, hpre, hpost, List.map_append]
  refine foldl_insertOrReplace_next (k := k) ?_
  rw [← List.map_append]
  exact contiguous_map_erased.mpr hlog

theorem mem_insertOrReplace {e row : LogEntry P} : ∀ {rows : List (LogEntry P)},
    row ∈ insertOrReplace e rows → row = e ∨ row ∈ rows
  | [], h => Or.inl (List.mem_singleton.mp h)
  | r :: rows, h => by
      rw [insertOrReplace] at h
      split_ifs at h
      · rcases List.mem_cons.mp h with rfl | h
        · exact Or.inr List.mem_cons_self
        · exact (mem_insertOrReplace h).imp_right (List.mem_cons_of_mem _)
      · rcases List.mem_cons.mp h with rfl | h
        · exact Or.inl rfl
        · exact Or.inr (List.mem_cons_of_mem _ h)
      · exact (List.mem_cons.mp h)

theorem mem_foldl_insertOrReplace {row : LogEntry P} {entries rows : List (LogEntry P)}
    (h : row ∈ entries.foldl (fun rows e => insertOrReplace e rows) rows) :
    row ∈ entries ∨ row ∈ rows := by
  induction entries generalizing rows with
  | nil => exact Or.inr h
  | cons e entries ih =>
      rcases ih h with hmem | hmem
      · exact Or.inl (List.mem_cons_of_mem _ hmem)
      · rcases mem_insertOrReplace hmem with rfl | hmem
        · exact Or.inl List.mem_cons_self
        · exact Or.inr hmem

end erased

/-- An entry that the log has at its position is, up to its command, the entry of the log with its
index. -/
theorem erased_getElem? {s : ℕ} {L : List (LogEntry P)} {e : LogEntry P} (hL : Contiguous s L)
    (hterms : s = 0 ∨ (∀ a ∈ L, a.term = 0) ∧ e.term = 0) (hnot : ¬ Conflicts L e)
    (hpos : s < e.index) (hle : e.index ≤ L.length) :
    ∃ a, L[e.index - s - 1]? = some a ∧ a.erased = e.erased := by
  have hget : L[e.index - s - 1]? = some L[e.index - s - 1] := List.getElem?_eq_getElem (by omega)
  refine ⟨_, hget, ?_⟩
  have hindex : L[e.index - s - 1].index = e.index := by
    rw [hL _ _ hget]
    omega
  have hterm : L[e.index - s - 1].term = e.term := by
    rcases hterms with rfl | ⟨hblank, hzero⟩
    · obtain ⟨a, ha, hterm⟩ := exists_mem_of_not_conflicts hnot hpos hle
      rw [← hterm]
      exact congrArg LogEntry.term (Option.some.inj (hget.symm.trans ha))
    · rw [hblank _ (List.mem_of_getElem? hget), hzero]
  unfold LogEntry.erased
  rw [hindex, hterm]

/-- The loop and the insertion after it leave the rows after the snapshot as they leave the log, if the
request fits. -/
theorem erasedAfter_appendLoop {s k : ℕ} {L entries : List (LogEntry P)} {d : RaftStorage N P}
    (hL : Contiguous s L) (hblank : s = 0 ∨ ∀ e ∈ L, e.term = 0) (hk : Contiguous k entries)
    (hnext : ∀ e ∈ (beyond L entries).head?, e.index = s + L.length + 1)
    (hterms : s = 0 ∨ ∀ e ∈ entries, e.term = 0)
    (hrows : erasedAfter s d.raftLog = L.map LogEntry.erased) :
    erasedAfter s (((RaftNode.appendLoop (N := N) L entries).2 ++
        RaftNode.storeEntries entries).foldl RaftStorage.perform d).raftLog =
      (RaftNode.appendLoop (N := N) L entries).1.map LogEntry.erased := by
  have hlog := ((contiguous_appendLoop (N := N) hL hblank hk).mpr ⟨hnext, hterms⟩).1
  have hzero : ∀ e ∈ entries, s = 0 ∨ (∀ a ∈ L, a.term = 0) ∧ e.term = 0 := by
    intro e he
    by_cases hs : s = 0
    · exact Or.inl hs
    · exact Or.inr ⟨hblank.resolve_left hs, hterms.resolve_left hs e he⟩
  rw [List.foldl_append, perform_storeEntries]
  by_cases hconflict : ∃ e ∈ entries, Conflicts L e
  · obtain ⟨pre, e, post, rfl, hpre, hc, hloop⟩ := appendLoop_of_conflict (N := N) hk hconflict
    have hindex := hk pre.length e (by simp)
    have hle := hc.1
    -- after a snapshot there are no conflicts
    obtain rfl : s = 0 := by
      rcases hzero e (List.mem_append_right _ List.mem_cons_self) with hs | ⟨hall, hterm⟩
      · exact hs
      · obtain ⟨a, ha, hne⟩ := hc.exists_mem (by omega)
        exact absurd ((hall a ha).trans hterm.symm) hne
    rw [hloop] at hlog ⊢
    simp only [List.foldl_cons, List.foldl_nil, RaftStorage.perform]
    refine erasedAfter_foldl_append ?_ (fun e' he' hpos => ?_) hlog
    · rw [erasedAfter_truncate, hrows]
      have hfilter := (contiguous_zero.mp (contiguous_map_erased.mpr hL)).filter_index_lt
        (e.index - 1)
      rw [Nat.sub_add_cancel (by omega)] at hfilter
      rw [hfilter, List.map_take]
    · -- what comes before the conflict is kept
      obtain ⟨i, hi⟩ := List.mem_iff_getElem?.mp he'
      have hlt := (List.getElem?_eq_some_iff.mp hi).1
      have hindex' := hk i e' (getElem?_mono (List.prefix_append _ _) hi)
      obtain ⟨a, ha, heq⟩ := erased_getElem? hL (Or.inl rfl) (hpre e' he') hpos (by omega)
      refine List.mem_map.mpr ⟨a, List.mem_of_getElem? (i := e'.index - 0 - 1) ?_, heq⟩
      rw [List.getElem?_take_of_lt (by omega)]
      exact ha
  · have hagree : ∀ e ∈ entries, ¬ Conflicts L e := fun e he hc => hconflict ⟨e, he, hc⟩
    have hsplit : entries.take (L.length - k) ++ beyond L entries = entries := by
      rw [hk.beyond, List.take_append_drop]
    have hheld : ∀ e ∈ entries.take (L.length - k), s < e.index →
        e.erased ∈ L.map LogEntry.erased := by
      intro e he hpos
      obtain ⟨i, hi⟩ := List.mem_iff_getElem?.mp he
      have hlt := (List.getElem?_eq_some_iff.mp hi).1
      rw [List.length_take] at hlt
      have hindex := hk i e (getElem?_mono (List.take_prefix _ _) hi)
      have hmem := List.mem_of_mem_take he
      obtain ⟨a, ha, heq⟩ := erased_getElem? hL (hzero e hmem) (hagree e hmem) hpos (by omega)
      exact List.mem_map.mpr ⟨a, List.mem_of_getElem? ha, heq⟩
    rw [appendLoop_of_agree hk hagree] at hlog ⊢
    have hstored := erasedAfter_foldl_append hrows hheld hlog
    rw [hsplit] at hstored
    exact hstored

/-- A request stores its entries, and leaves the stored snapshot. -/
theorem frame_appendLoop {k : ℕ} {L entries : List (LogEntry P)} (hk : Contiguous k entries)
    (d : RaftStorage N P) :
    (((RaftNode.appendLoop (N := N) L entries).2 ++ RaftNode.storeEntries entries).foldl
        RaftStorage.perform d).lastIncludedIndex = d.lastIncludedIndex ∧
      (((RaftNode.appendLoop (N := N) L entries).2 ++ RaftNode.storeEntries entries).foldl
        RaftStorage.perform d).lastIncludedTerm = d.lastIncludedTerm ∧
      ∀ row ∈ (((RaftNode.appendLoop (N := N) L entries).2 ++
        RaftNode.storeEntries entries).foldl RaftStorage.perform d).raftLog,
          row ∈ entries ∨ row ∈ d.raftLog := by
  rw [List.foldl_append, perform_storeEntries]
  by_cases hconflict : ∃ e ∈ entries, Conflicts L e
  · obtain ⟨pre, e, post, -, -, -, hloop⟩ := appendLoop_of_conflict (N := N) hk hconflict
    rw [hloop]
    exact ⟨rfl, rfl, fun row hrow =>
      (mem_foldl_insertOrReplace hrow).imp_right List.mem_of_mem_filter⟩
  · rw [appendLoop_of_agree hk fun e he hc => hconflict ⟨e, he, hc⟩]
    exact ⟨rfl, rfl, fun row hrow => mem_foldl_insertOrReplace hrow⟩

/-! ## Runs -/

/-- An operation whose request, if it is one, is what a leader sends. -/
def LogEvent.FromLeader : LogEvent N P → Prop
  | .handleAppendEntries req => req.FromLeader
  | _ => True

/-- The operations that a node can see. -/
def SentEvent (N P : Type) := { ev : LogEvent N P // ev.FromLeader }

namespace Durable

/-- One operation that a node can see. -/
def sentStep (s : Durable N P) (ev : SentEvent N P) : Option (Durable N P) := s.step ev.1

/-- The condition. A local append comes before the first snapshot, or has no term; a request that is
taken fits; and no snapshot is taken, or nothing from the last entry it includes on has a term. -/
def KeepsTogether (s : Durable N P) (ev : SentEvent N P) : Prop :=
  match ev.1 with
  | .appendLocalEntry _ _ => s.node.snapshotIndex = 0 ∨ s.node.currentTerm = 0
  | .handleAppendEntries req =>
      s.node.currentTerm ≤ req.term → s.node.prevMatches req = true → s.node.Fits req
  | .maybeSnapshot threshold =>
      threshold ≤ s.node.log.length → s.node.snapshotIndex < s.node.lastApplied →
        ∀ e ∈ s.node.log, s.node.lastApplied ≤ e.index → e.term = 0
  | .restart => True

/-- The fields of the node belong together, and what is stored is what the node has, up to commands and
payloads. -/
structure Intact (s : Durable N P) : Prop where
  represented : s.node.Represented
  included : s.disk.lastIncludedIndex = s.node.snapshotIndex
  includedTerm : s.node.snapshotIndex = 0 ∨ s.disk.lastIncludedTerm = s.node.snapshotTerm
  positive : ∀ row ∈ s.disk.raftLog, 0 < row.index
  stored : erasedAfter s.node.snapshotIndex s.disk.raftLog = s.node.log.map LogEntry.erased

variable {s s' : Durable N P}

theorem intact_init : (init : Durable N P).Intact := by
  refine ⟨?_, ?_, ?_, fun row hrow => absurd hrow List.not_mem_nil, ?_⟩
  · have hnil : Contiguous (P := P) 0 [] := fun i e he => by
      rw [List.getElem?_nil] at he
      cases he
    simp only [init, RaftNode.boot_eq, RaftNode.represented_iff]
    exact ⟨hnil, Or.inl trivial, le_rfl, le_rfl⟩
  · simp only [init, RaftNode.boot_eq]
  · simp only [init, RaftNode.boot_eq]
    exact Or.inl trivial
  · simp only [init, RaftNode.boot_eq]
    rfl

theorem Intact.appendLocalEntry (h : s.Intact) {command : CommandType} {payload : P}
    (hrep : (s.node.appendLocalEntry command payload).1.Represented) :
    Intact ⟨(s.node.appendLocalEntry command payload).1,
      (s.node.appendLocalEntry command payload).2.1.foldl RaftStorage.perform s.disk⟩ := by
  have hindex := index_appendLocalEntry h.represented.index command payload
  set e := (s.node.appendLocalEntry command payload).2.2 with he
  have hlog : (s.node.appendLocalEntry command payload).1.log = s.node.log ++ [e] := rfl
  refine ⟨hrep, h.included, h.includedTerm, fun row hrow => ?_, ?_⟩
  · have hrow' : row ∈ [e].foldl (fun rows e => insertOrReplace e rows) s.disk.raftLog := hrow
    rcases mem_foldl_insertOrReplace hrow' with hmem | hmem
    · rw [List.mem_singleton.mp hmem]
      omega
    · exact h.positive row hmem
  · have hcontiguous : Contiguous s.node.snapshotIndex (s.node.log ++ [e]) := hlog ▸ hrep.index
    have hnone : ∀ e' ∈ ([] : List (LogEntry P)), s.node.snapshotIndex < e'.index →
        e'.erased ∈ s.node.log.map LogEntry.erased := nofun
    rw [hlog]
    exact erasedAfter_foldl_append h.stored hnone hcontiguous

theorem Intact.maybeSnapshot (h : s.Intact) {threshold : ℕ}
    (hrep : (s.node.maybeSnapshot threshold).1.Represented) :
    Intact ⟨(s.node.maybeSnapshot threshold).1,
      (s.node.maybeSnapshot threshold).2.foldl RaftStorage.perform s.disk⟩ := by
  unfold RaftNode.maybeSnapshot at hrep ⊢
  split_ifs at hrep ⊢ with hlen hle
  · exact h
  · exact h
  · have hle := (not_le.mp hle).le
    refine ⟨hrep, rfl, Or.inr rfl, fun row hrow => ?_, ?_⟩
    · exact h.positive row (List.mem_of_mem_filter hrow)
    · have hstored : erasedAfter s.node.lastApplied s.disk.raftLog =
          erasedAfter s.node.lastApplied s.node.log := by
        rw [erasedAfter_filter hle, h.stored, ← h.represented.index.erasedAfter,
          ← erasedAfter_filter hle]
      have hkeep : ∀ L : List (LogEntry P), erasedAfter s.node.lastApplied
          (L.filter fun e => s.node.lastApplied < e.index) = erasedAfter s.node.lastApplied L := by
        intro L
        unfold erasedAfter
        rw [List.filter_filter]
        simp only [Bool.and_self]
      show erasedAfter s.node.lastApplied (s.disk.raftLog.filter _) = _
      rw [hkeep, hstored]
      rfl

/-- A restart finds what the node had. -/
theorem Intact.boot (h : s.Intact) : Intact ⟨.boot s.disk, s.disk⟩ := by
  obtain ⟨hlog, hblank, happlied, hcommitted⟩ := RaftNode.represented_iff.mp h.represented
  have hread : (if s.node.snapshotIndex = 0 then s.disk.raftLog
      else s.disk.raftLog.filter fun e => s.node.snapshotIndex < e.index) =
        s.disk.raftLog.filter fun e => s.node.snapshotIndex < e.index := by
    split_ifs with hs
    · rw [hs, eq_comm, List.filter_eq_self]
      exact fun row hrow => decide_eq_true (h.positive row hrow)
    · rfl
  have hstored : (s.disk.raftLog.filter fun e => s.node.snapshotIndex < e.index).map
      LogEntry.erased = s.node.log.map LogEntry.erased := h.stored
  rw [RaftNode.boot_eq, h.included]
  simp only [hread]
  refine ⟨RaftNode.represented_iff.mpr ⟨?_, ?_, le_rfl, Nat.le_add_right _ _⟩, h.included, ?_,
    h.positive, rfl⟩
  · rw [← contiguous_map_erased, hstored]
    exact contiguous_map_erased.mpr hlog
  · rcases hblank with hs | hblank
    · exact Or.inl hs
    · refine Or.inr ⟨?_, fun e he => ?_⟩
      · simp only
        split_ifs with hs
        · rfl
        · rw [h.includedTerm.resolve_left hs, hblank.snapshotTerm]
      · have hmem : e.erased ∈ s.node.log.map LogEntry.erased := by
          rw [← hstored]
          exact List.mem_map_of_mem he
        obtain ⟨e', he', heq⟩ := List.mem_map.mp hmem
        have hterm : e.term = e'.term := congrArg (fun a : LogEntry Unit => a.term) heq.symm
        rw [hterm, hblank.term e' he']
  · simp only
    split_ifs with hs
    · exact Or.inl hs
    · exact Or.inr rfl

/-- A request that is refused leaves the fields that belong together, and the rows. -/
theorem Intact.refused (h : s.Intact) {req : AppendEntriesRequest N P}
    (hrefused : ¬ (s.node.currentTerm ≤ req.term ∧ s.node.prevMatches req = true)) :
    Intact ⟨(s.node.handleAppendEntries req).1,
      (s.node.handleAppendEntries req).2.1.foldl RaftStorage.perform s.disk⟩ := by
  rcases lt_or_ge req.term s.node.currentTerm with hlt | hle
  · rw [RaftNode.handleAppendEntries_of_lt hlt]
    exact h
  · have hprev : s.node.prevMatches req = false :=
      Bool.eq_false_iff.mpr fun hprev => hrefused ⟨hle, hprev⟩
    obtain ⟨hindex, hterm, hcommit, happlied⟩ := s.node.followed_frame req
    have hlog := s.node.followed_log req
    rw [RaftNode.handleAppendEntries_of_mismatch hle hprev]
    refine ⟨h.represented.congr hlog hindex hterm hcommit happlied, h.included.trans hindex.symm, ?_,
      h.positive, ?_⟩
    · simp only [hindex, hterm]
      exact h.includedTerm
    · simp only [hindex, hlog]
      exact h.stored

theorem Intact.taken (h : s.Intact) {req : AppendEntriesRequest N P} (hreq : req.FromLeader)
    (hterm : s.node.currentTerm ≤ req.term) (hprev : s.node.prevMatches req = true)
    (hfits : s.node.Fits req) :
    Intact ⟨(s.node.handleAppendEntries req).1,
      (s.node.handleAppendEntries req).2.1.foldl RaftStorage.perform s.disk⟩ := by
  have hrep := (RaftNode.represented_handleAppendEntries h.represented hreq hterm hprev).mpr hfits
  obtain ⟨k, -, hk⟩ := hreq
  obtain ⟨hlog, hblank, -⟩ := RaftNode.represented_iff.mp h.represented
  have hstored := erasedAfter_appendLoop (N := N)
    (d := s.disk.perform (s.node.followed req).persistState) hlog
    (hblank.imp_right RaftNode.Blank.term) hk hfits.next hfits.terms h.stored
  have hdisk : (s.node.handleAppendEntries req).2.1.foldl RaftStorage.perform s.disk =
      ((RaftNode.appendLoop (N := N) s.node.log req.entries).2 ++
        RaftNode.storeEntries req.entries).foldl RaftStorage.perform
          (s.disk.perform (s.node.followed req).persistState) := by
    rw [RaftNode.handleAppendEntries_of_match hterm hprev]
    simp only [List.foldl_append, RaftNode.foldl_followCommit, List.foldl_cons, List.foldl_nil]
  obtain ⟨hindex, hsnapshot, -⟩ := s.node.followed_frame req
  obtain ⟨-, hlog', hindex', hsnapshot', -⟩ :=
    (s.node.taken req).followCommit_frame req.leaderCommit
  rw [← RaftNode.handleAppendEntries_taken hterm hprev] at hindex' hsnapshot' hlog'
  obtain ⟨hincluded, hincludedTerm, hrows⟩ := frame_appendLoop (N := N) (L := s.node.log) hk
    (s.disk.perform (s.node.followed req).persistState)
  rw [← hdisk] at hincluded hincludedTerm hrows hstored
  refine ⟨hrep, ?_, ?_, fun row hrow => ?_, ?_⟩
  · exact hincluded.trans (h.included.trans (hindex'.trans hindex).symm)
  · simp only [hindex'.trans hindex, hsnapshot'.trans hsnapshot, hincludedTerm]
    exact h.includedTerm
  · rcases hrows row hrow with hmem | hmem
    · exact Nat.zero_lt_of_lt (hk.index_le hmem).1
    · exact h.positive row hmem
  · simp only [hindex'.trans hindex, hlog']
    exact hstored

/-- An operation after which the fields of the node belong together leaves what is stored as it leaves
the node. -/
theorem Intact.step {ev : SentEvent N P} (h : s.Intact) (hkeeps : s.KeepsTogether ev)
    (hstep : s.sentStep ev = some s') : s'.Intact := by
  obtain ⟨ev, hsent⟩ := ev
  cases ev with
  | appendLocalEntry command payload =>
      obtain rfl := Option.some.inj hstep
      exact h.appendLocalEntry
        ((RaftNode.represented_appendLocalEntry h.represented command payload).mpr hkeeps)
  | handleAppendEntries req =>
      obtain rfl := Option.some.inj hstep
      by_cases htaken : s.node.currentTerm ≤ req.term ∧ s.node.prevMatches req = true
      · exact h.taken hsent htaken.1 htaken.2 (hkeeps htaken.1 htaken.2)
      · exact h.refused htaken
  | maybeSnapshot threshold =>
      obtain rfl := Option.some.inj hstep
      refine h.maybeSnapshot ?_
      unfold RaftNode.maybeSnapshot
      split_ifs with hlen hle
      · exact h.represented
      · exact h.represented
      · exact (RaftNode.represented_onSnapshotCreated h.represented (not_le.mp hle)).mpr
          (hkeeps (not_lt.mp hlen) (not_le.mp hle))
  | restart =>
      obtain rfl := Option.some.inj hstep
      exact h.boot

/-- Every other operation leaves a node whose fields do not belong together. -/
theorem Intact.not_represented {ev : SentEvent N P} (h : s.Intact) (hkeeps : ¬ s.KeepsTogether ev)
    (hstep : s.sentStep ev = some s') : ¬ s'.node.Represented := by
  obtain ⟨ev, hsent⟩ := ev
  refine fun hrep => hkeeps ?_
  cases ev with
  | appendLocalEntry command payload =>
      obtain rfl := Option.some.inj hstep
      exact (RaftNode.represented_appendLocalEntry h.represented command payload).mp hrep
  | handleAppendEntries req =>
      obtain rfl := Option.some.inj hstep
      exact fun hterm hprev =>
        (RaftNode.represented_handleAppendEntries h.represented hsent hterm hprev).mp hrep
  | maybeSnapshot threshold =>
      obtain rfl := Option.some.inj hstep
      intro hlen hlt
      have hsnap : (s.node.maybeSnapshot threshold).1 =
          s.node.onSnapshotCreated s.node.lastApplied := by
        unfold RaftNode.maybeSnapshot
        rw [if_neg (not_lt.mpr hlen), if_neg (not_le.mpr hlt)]
      have hrep' : (s.node.maybeSnapshot threshold).1.Represented := hrep
      rw [hsnap] at hrep'
      exact (RaftNode.represented_onSnapshotCreated h.represented hlt).mp hrep'
  | restart => exact trivial

/-- The fields belong together throughout a run just when its operations keep them together: before
the first snapshot, each request that is taken starts within the log and reaches what is committed,
and no snapshot is taken of a log that has terms. -/
theorem represented_iff_stepsMeet (evs : List (SentEvent N P)) :
    Throughout sentStep (fun s => s.node.Represented) init evs ↔
      StepsMeet sentStep KeepsTogether init evs :=
  throughout_iff_stepsMeet (fun _ h => h.represented) (fun _ _ _ h hkeeps => h.step hkeeps)
    (fun _ _ _ h hkeeps => h.not_represented hkeeps) intact_init

/-- A follower takes and applies two entries of a leader that has compacted nothing, and makes a
snapshot of them: the code finds no term for the last index of the snapshot. -/
theorem represented_counterexample : ¬ ∀ evs : List (SentEvent String Unit),
    Throughout sentStep (fun s => s.node.Represented) init evs := by
  intro h
  have hfrom : AppendEntriesRequest.FromLeader { firstEntries with leaderCommit := 2 } :=
    ⟨0, le_rfl, (consistent_firstEntries (L := []) nofun).consecutive⟩
  have hrun := (h [⟨.handleAppendEntries _, hfrom⟩, ⟨.maybeSnapshot 1, trivial⟩]).of_run rfl
  have hterm := hrun.snapshotTerm
  revert hterm
  decide

end Durable

end NanoFabric.Raft
