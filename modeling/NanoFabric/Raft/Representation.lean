import NanoFabric.Raft.StoredLog

/-!
# The fields of a node with a snapshot

What the fields of a node say together when its snapshot holds the entries up to `snapshot_index` and
its log those after it, and which local appends, requests of leaders and snapshots leave them so. The
code reads the log at the position of an index, which is right before the first snapshot.

* `RaftNode.represented_iff` — after a snapshot the fields belong together only if all terms are zero.
* `appendLoop_of_agree`, `appendLoop_of_conflict` — the loop of `handle_append_entries` on any log.
* `RaftNode.represented_handleAppendEntries` — the requests after which they still do.
* `RaftNode.represented_appendLocalEntry`, `RaftNode.represented_onSnapshotCreated` — the local appends
  and the snapshots.
-/

namespace NanoFabric.Raft

variable {N P : Type}

namespace RaftNode

/-! ## The representation -/

/-- The log counts on from the snapshot, terms are found by index, and what is applied is committed
and in the log or the snapshot. -/
structure Represented (nd : RaftNode N P) : Prop where
  index : Contiguous nd.snapshotIndex nd.log
  term : ∀ j, nd.snapshotIndex < j → j ≤ nd.lastLogInfo.1 →
    ∃ e ∈ nd.log, e.index = j ∧ nd.logTermAt j = e.term
  snapshotTerm : nd.logTermAt nd.snapshotIndex = nd.snapshotTerm
  applied : nd.lastApplied ≤ nd.commitIndex
  committed : nd.commitIndex ≤ nd.lastLogInfo.1

/-- All terms are zero, which no leader's are. -/
structure Blank (nd : RaftNode N P) : Prop where
  snapshotTerm : nd.snapshotTerm = 0
  term : ∀ e ∈ nd.log, e.term = 0

section representation

variable {nd : RaftNode N P}

theorem lastLogInfo_fst (h : Contiguous nd.snapshotIndex nd.log) :
    nd.lastLogInfo.1 = nd.snapshotIndex + nd.log.length := by
  unfold lastLogInfo
  rcases hlast : nd.log.getLast? with _ | e
  · rw [List.getLast?_eq_none_iff] at hlast
    rw [hlast]
    rfl
  · exact h.index_of_getLast? hlast

theorem logTermAt_of_getElem? {i : ℕ} {e : LogEntry P} (h : nd.log[i]? = some e) :
    nd.logTermAt (i + 1) = e.term := by
  unfold logTermAt
  rw [if_neg (Nat.succ_ne_zero i), Nat.add_sub_cancel, h]

theorem logTermAt_of_length_lt {i : ℕ} (h : nd.log.length < i) : nd.logTermAt i = 0 := by
  unfold logTermAt
  rw [if_neg (by omega), List.getElem?_eq_none (by omega)]

theorem Blank.logTermAt (h : nd.Blank) (i : ℕ) : nd.logTermAt i = 0 := by
  unfold RaftNode.logTermAt
  split_ifs
  · exact h.snapshotTerm
  · rcases hget : nd.log[i - 1]? with _ | e
    · rfl
    · exact h.term e (List.mem_of_getElem? hget)

/-- After a snapshot the code reads the term of an entry at a later position, where at the end there
is none. -/
theorem Represented.blank (h : nd.Represented) (hs : 0 < nd.snapshotIndex) : nd.Blank := by
  have hterm : ∀ k i e, nd.log.length ≤ i + k → nd.log[i]? = some e → e.term = 0 := by
    -- from the end of the log to its start
    intro k
    induction k using Nat.strong_induction_on with
    | _ k ih =>
        intro i e hk he
        have hi := (List.getElem?_eq_some_iff.mp he).1
        have hindex := h.index i e he
        obtain ⟨e', he', hindex', hat⟩ := h.term e.index (by omega) (by
          rw [lastLogInfo_fst h.index]
          omega)
        obtain ⟨i', hi'⟩ := List.mem_iff_getElem?.mp he'
        obtain rfl : i' = i := by
          have := h.index i' e' hi'
          omega
        obtain rfl : e' = e := Option.some.inj (hi'.symm.trans he)
        rw [← hat]
        rcases Nat.lt_or_ge nd.log.length e'.index with hlt | hle
        · exact logTermAt_of_length_lt hlt
        · have hget : nd.log[e'.index - 1]? = some nd.log[e'.index - 1] :=
            List.getElem?_eq_getElem (by omega)
          have hat' := logTermAt_of_getElem? hget
          rw [Nat.sub_add_cancel (by omega)] at hat'
          rw [hat']
          exact ih (k - nd.snapshotIndex) (by omega) _ _ (by omega) hget
  have hlog : ∀ e ∈ nd.log, e.term = 0 := by
    intro e he
    obtain ⟨i, hi⟩ := List.mem_iff_getElem?.mp he
    exact hterm nd.log.length i e (by omega) hi
  refine ⟨?_, hlog⟩
  rw [← h.snapshotTerm]
  unfold RaftNode.logTermAt
  rw [if_neg (by omega)]
  rcases hget : nd.log[nd.snapshotIndex - 1]? with _ | e
  · rfl
  · exact hlog e (List.mem_of_getElem? hget)

/-- The fields belong together just when the log counts on, the indexes are in order, and either no
snapshot has been taken or no term is needed to tell. -/
theorem represented_iff : nd.Represented ↔ Contiguous nd.snapshotIndex nd.log ∧
    (nd.snapshotIndex = 0 ∨ nd.Blank) ∧ nd.lastApplied ≤ nd.commitIndex ∧
      nd.commitIndex ≤ nd.snapshotIndex + nd.log.length := by
  constructor
  · intro h
    refine ⟨h.index, ?_, h.applied, ?_⟩
    · rcases Nat.eq_zero_or_pos nd.snapshotIndex with hs | hs
      · exact Or.inl hs
      · exact Or.inr (h.blank hs)
    · rw [← lastLogInfo_fst h.index]
      exact h.committed
  · rintro ⟨hindex, hterms, happlied, hcommitted⟩
    have hlast := lastLogInfo_fst hindex
    refine ⟨hindex, fun j hj hj' => ?_, ?_, happlied, hlast ▸ hcommitted⟩
    · rw [hlast] at hj'
      have hget : nd.log[j - nd.snapshotIndex - 1]? = some nd.log[j - nd.snapshotIndex - 1] :=
        List.getElem?_eq_getElem (by omega)
      refine ⟨_, List.mem_of_getElem? hget, by rw [hindex _ _ hget]; omega, ?_⟩
      rcases hterms with hs | hblank
      · rw [← logTermAt_of_getElem? hget]
        congr 1
        omega
      · rw [hblank.logTermAt, hblank.term _ (List.mem_of_getElem? hget)]
    · rcases hterms with hs | hblank
      · unfold RaftNode.logTermAt
        rw [if_pos hs]
      · rw [hblank.logTermAt, hblank.snapshotTerm]

end representation

end RaftNode

/-! ## The loop of `handle_append_entries` on any log -/

/-- The test of the loop: the log has another term at the position of the entry. -/
def Conflicts (L : List (LogEntry P)) (e : LogEntry P) : Prop :=
  e.index ≤ L.length ∧ L[e.index - 1]?.map LogEntry.term ≠ some e.term

instance (L : List (LogEntry P)) (e : LogEntry P) : Decidable (Conflicts L e) :=
  inferInstanceAs (Decidable (_ ∧ _))

/-- The entries for which the log has no position. -/
def beyond (L entries : List (LogEntry P)) : List (LogEntry P) :=
  entries.filter fun e => L.length < e.index

/-- The length of the log after the loop: from a conflict on, all is as in the request. -/
def lengthAfter (L entries : List (LogEntry P)) : ℕ :=
  if ∃ e ∈ entries, Conflicts L e then (entries.getLast?.map LogEntry.index).getD 0
  else L.length + (beyond L entries).length

section loop

variable {k : ℕ} {L entries : List (LogEntry P)}

/-- The entries beyond the log are the last ones. -/
theorem Contiguous.beyond (h : Contiguous k entries) :
    beyond L entries = entries.drop (L.length - k) := by
  rcases Nat.le_total k L.length with hle | hle
  · exact h.filter_lt hle
  · rw [Nat.sub_eq_zero_of_le hle, List.drop_zero]
    refine List.filter_eq_self.mpr fun e he => ?_
    have := (h.index_le he).1
    simp only [decide_eq_true_eq]
    omega

/-- Without a conflict the log keeps what it has. -/
theorem appendLoop_of_agree (h : Contiguous k entries) (hagree : ∀ e ∈ entries, ¬ Conflicts L e) :
    RaftNode.appendLoop (N := N) L entries = (L ++ beyond L entries, []) := by
  induction entries generalizing k with
  | nil => rw [RaftNode.appendLoop, beyond, List.filter_nil, List.append_nil]
  | cons e entries ih =>
      obtain ⟨hindex, htail⟩ := h.tail
      rcases Nat.lt_or_ge L.length e.index with hlt | hle
      · rw [h.beyond, Nat.sub_eq_zero_of_le (by omega), List.drop_zero]
        exact appendLoop_of_le h (by omega)
      · have hnot := hagree e List.mem_cons_self
        have hfilter : beyond L (e :: entries) = beyond L entries := by
          rw [beyond, List.filter_cons_of_neg (by simpa using hle)]
          rfl
        unfold Conflicts at hnot
        rw [RaftNode.appendLoop, if_neg hnot, if_neg (by omega), hfilter]
        exact ih htail fun e' he' => hagree e' (List.mem_cons_of_mem _ he')

/-- From the first conflict on, the entries take the place of those of the log. -/
theorem appendLoop_of_conflict (h : Contiguous k entries) (hconflict : ∃ e ∈ entries, Conflicts L e) :
    ∃ pre e post, entries = pre ++ e :: post ∧ (∀ e' ∈ pre, ¬ Conflicts L e') ∧ Conflicts L e ∧
      RaftNode.appendLoop (N := N) L entries =
        (L.take (e.index - 1) ++ e :: post, [.truncateLogFrom e.index]) := by
  induction entries generalizing k with
  | nil =>
      obtain ⟨e, he, -⟩ := hconflict
      cases he
  | cons e entries ih =>
      obtain ⟨hindex, htail⟩ := h.tail
      by_cases he : Conflicts L e
      · refine ⟨[], e, entries, rfl, nofun, he, ?_⟩
        have hlen : (L.take (e.index - 1)).length = k := by
          rw [List.length_take_of_le (by have := he.1; omega)]
          omega
        have hcond := he
        unfold Conflicts at hcond
        have hlt : (L.take (e.index - 1)).length < e.index := by omega
        have hle : (L.take (e.index - 1) ++ [e]).length ≤ k + 1 := by
          rw [List.length_append, hlen, List.length_singleton]
        rw [RaftNode.appendLoop, if_pos hcond]
        simp only [if_pos hlt, appendLoop_of_le htail hle, List.append_assoc, List.singleton_append]
      · have hrest : ∃ e' ∈ entries, Conflicts L e' := by
          obtain ⟨e', he', hc⟩ := hconflict
          rcases List.mem_cons.mp he' with rfl | he'
          · exact absurd hc he
          · exact ⟨e', he', hc⟩
        obtain ⟨pre, e', post, rfl, hpre, hc, hloop⟩ := ih htail hrest
        refine ⟨e :: pre, e', post, rfl, ?_, hc, ?_⟩
        · intro e'' he''
          rcases List.mem_cons.mp he'' with rfl | he''
          · exact he
          · exact hpre e'' he''
        · -- the conflict is at a later position, so that the log has one for this entry
          have hle := (htail.index_le (List.mem_append_right pre List.mem_cons_self)).1
          have hc' := hc.1
          have hcond := he
          unfold Conflicts at hcond
          rw [RaftNode.appendLoop, if_neg hcond, if_neg (by omega), hloop]

theorem length_appendLoop (h : Contiguous k entries) :
    (RaftNode.appendLoop (N := N) L entries).1.length = lengthAfter L entries := by
  unfold lengthAfter
  split_ifs with hconflict
  · obtain ⟨pre, e, post, rfl, -, hc, hloop⟩ := appendLoop_of_conflict (N := N) h hconflict
    have hindex := h pre.length e (by simp)
    have hlast := List.getLast?_eq_some_getLast (List.append_ne_nil_of_right_ne_nil pre
      (List.cons_ne_nil e post))
    rw [hlast, Option.map_some, h.index_of_getLast? hlast, hloop]
    simp only [List.length_append, List.length_cons, Option.getD_some,
      List.length_take_of_le (show e.index - 1 ≤ L.length by have := hc.1; omega)]
    omega
  · rw [appendLoop_of_agree h fun e he hc => hconflict ⟨e, he, hc⟩, List.length_append]

/-- An entry in conflict has another term than an entry of the log. -/
theorem Conflicts.exists_mem {e : LogEntry P} (h : Conflicts L e) (hpos : 0 < e.index) :
    ∃ a ∈ L, a.term ≠ e.term := by
  have hle := h.1
  have hget : L[e.index - 1]? = some L[e.index - 1] := List.getElem?_eq_getElem (by omega)
  refine ⟨_, List.mem_of_getElem? hget, fun hterm => h.2 ?_⟩
  rw [hget, Option.map_some, hterm]

theorem exists_mem_of_not_conflicts {e : LogEntry P} (h : ¬ Conflicts L e) (hpos : 0 < e.index)
    (hle : e.index ≤ L.length) : ∃ a, L[e.index - 1]? = some a ∧ a.term = e.term := by
  have hget : L[e.index - 1]? = some L[e.index - 1] := List.getElem?_eq_getElem (by omega)
  refine ⟨_, hget, ?_⟩
  by_contra hterm
  refine h ⟨hle, fun hsome => hterm ?_⟩
  rw [hget, Option.map_some] at hsome
  exact Option.some.inj hsome

/-- The loop leaves a log that counts on, and that has no terms after a snapshot, just when what it
appends has the next index and, after a snapshot, no terms. -/
theorem contiguous_appendLoop {s : ℕ} (hL : Contiguous s L) (hblank : s = 0 ∨ ∀ e ∈ L, e.term = 0)
    (h : Contiguous k entries) :
    (Contiguous s (RaftNode.appendLoop (N := N) L entries).1 ∧
        (s = 0 ∨ ∀ e ∈ (RaftNode.appendLoop (N := N) L entries).1, e.term = 0)) ↔
      (∀ e ∈ (beyond L entries).head?, e.index = s + L.length + 1) ∧
        (s = 0 ∨ ∀ e ∈ entries, e.term = 0) := by
  by_cases hconflict : ∃ e ∈ entries, Conflicts L e
  · obtain ⟨pre, e, post, rfl, -, hc, hloop⟩ := appendLoop_of_conflict (N := N) h hconflict
    have hindex := h pre.length e (by simp)
    have hle := hc.1
    rw [hloop]
    rcases Nat.eq_zero_or_pos s with rfl | hs
    · -- positions are indexes
      refine iff_of_true ⟨?_, Or.inl rfl⟩ ⟨?_, Or.inl rfl⟩
      · have htake : Contiguous 0 (L.take (e.index - 1)) :=
          fun i a ha => hL i a (getElem?_mono (List.take_prefix _ _) ha)
        have hpost : Contiguous (k + pre.length) (e :: post) := by
          have hdrop := h.drop pre.length
          rwa [List.drop_left] at hdrop
        refine (htake.append_iff hpost).mpr fun e' he' => ?_
        obtain rfl := Option.some.inj he'
        rw [List.length_take_of_le (by omega)]
        omega
      · intro e' he'
        rw [h.beyond, List.head?_eq_getElem?] at he'
        have := h.drop (L.length - k) 0 e' he'
        omega
    · obtain ⟨a, ha, hterm⟩ := hc.exists_mem (by omega)
      rw [hblank.resolve_left hs.ne' a ha] at hterm
      rw [or_iff_right hs.ne', or_iff_right hs.ne']
      refine iff_of_false (fun hall => ?_) (fun hall => ?_)
      · exact hterm (hall.2 e (List.mem_append_right _ List.mem_cons_self)).symm
      · exact hterm (hall.2 e (List.mem_append_right _ List.mem_cons_self)).symm
  · have hagree : ∀ e ∈ entries, ¬ Conflicts L e := fun e he hc => hconflict ⟨e, he, hc⟩
    have hbeyond : Contiguous (k + (L.length - k)) (beyond L entries) := by
      rw [h.beyond]
      exact h.drop _
    rw [appendLoop_of_agree h hagree, hL.append_iff hbeyond]
    refine and_congr_right fun _ => ?_
    rcases hblank with rfl | hblank
    · exact iff_of_true (Or.inl rfl) (Or.inl rfl)
    · refine or_congr_right ⟨fun hall e he => ?_, fun hall e he => ?_⟩
      · rcases Nat.lt_or_ge L.length e.index with hlt | hle
        · refine hall e (List.mem_append_right _ (List.mem_filter.mpr ⟨he, ?_⟩))
          exact decide_eq_true hlt
        · have hpos := (h.index_le he).1
          obtain ⟨a, ha, hterm⟩ := exists_mem_of_not_conflicts (hagree e he) (by omega) hle
          rw [← hterm]
          exact hblank a (List.mem_of_getElem? ha)
      · rcases List.mem_append.mp he with he | he
        · exact hblank e he
        · exact hall e (List.mem_of_mem_filter he)

end loop

/-! ## Requests -/

/-- What a leader sends, whether it has compacted its log or not: entries that follow one by one,
and none that the previous index includes. -/
def AppendEntriesRequest.FromLeader (req : AppendEntriesRequest N P) : Prop :=
  ∃ k, req.prevLogIndex ≤ k ∧ Contiguous k req.entries

/-- The entries of a leader that has compacted its log past the next index of the peer begin after its
snapshot. -/
theorem fromLeader_buildAppendEntries {ld : RaftNode N P} (h : Contiguous ld.snapshotIndex ld.log)
    (self peer : N) : (ld.buildAppendEntries self peer).FromLeader := by
  set prev := (ld.buildAppendEntries self peer).prevLogIndex with hprev
  have hentries : (ld.buildAppendEntries self peer).entries =
      ld.log.filter (fun e => decide (prev < e.index)) := by
    refine List.filter_congr fun e he => ?_
    have hpos := (h.index_le he).1
    rw [decide_eq_decide, hprev]
    unfold RaftNode.buildAppendEntries
    simp only
    omega
  unfold AppendEntriesRequest.FromLeader
  rw [hentries]
  rcases Nat.le_total ld.snapshotIndex prev with hle | hle
  · have hdrop := h.drop (prev - ld.snapshotIndex)
    rw [Nat.add_sub_cancel' hle, ← h.filter_lt hle] at hdrop
    exact ⟨prev, le_rfl, hdrop⟩
  · refine ⟨ld.snapshotIndex, hle, ?_⟩
    rw [List.filter_eq_self.mpr]
    · exact h
    · intro e he
      have := (h.index_le he).1
      simp only [decide_eq_true_eq]
      omega

namespace RaftNode

/-- The requests that keep the fields of a node together: what they append has the next index, after a
snapshot they have no terms, and what was applied and committed stays in reach. -/
structure Fits (nd : RaftNode N P) (req : AppendEntriesRequest N P) : Prop where
  next : ∀ e ∈ (beyond nd.log req.entries).head?, e.index = nd.snapshotIndex + nd.log.length + 1
  terms : nd.snapshotIndex = 0 ∨ ∀ e ∈ req.entries, e.term = 0
  kept : if nd.commitIndex < req.leaderCommit then
      nd.lastApplied ≤ lengthAfter nd.log req.entries
    else nd.commitIndex ≤ nd.snapshotIndex + lengthAfter nd.log req.entries

section handle

variable {nd : RaftNode N P} {req : AppendEntriesRequest N P}

/-- Nodes with the same log, snapshot and indexes. -/
theorem Represented.congr {nd' : RaftNode N P} (h : nd.Represented) (hlog : nd'.log = nd.log)
    (hindex : nd'.snapshotIndex = nd.snapshotIndex) (hterm : nd'.snapshotTerm = nd.snapshotTerm)
    (hcommit : nd'.commitIndex = nd.commitIndex) (happlied : nd'.lastApplied = nd.lastApplied) :
    nd'.Represented := by
  rw [represented_iff] at h ⊢
  rw [hlog, hindex, hcommit, happlied]
  refine ⟨h.1, h.2.1.imp_right fun hblank => ⟨hterm.trans hblank.snapshotTerm, ?_⟩, h.2.2⟩
  rw [hlog]
  exact hblank.term

/-- The node that has taken the entries of a request. -/
def taken (nd : RaftNode N P) (req : AppendEntriesRequest N P) : RaftNode N P :=
  { nd.followed req with log := (appendLoop (N := N) nd.log req.entries).1 }

theorem followed_frame (nd : RaftNode N P) (req : AppendEntriesRequest N P) :
    (nd.followed req).snapshotIndex = nd.snapshotIndex ∧
      (nd.followed req).snapshotTerm = nd.snapshotTerm ∧
      (nd.followed req).commitIndex = nd.commitIndex ∧
      (nd.followed req).lastApplied = nd.lastApplied := by
  unfold followed becomeFollower
  split_ifs <;> exact ⟨rfl, rfl, rfl, rfl⟩

theorem handleAppendEntries_taken (hterm : nd.currentTerm ≤ req.term)
    (hprev : nd.prevMatches req = true) :
    (nd.handleAppendEntries req).1 = ((nd.taken req).followCommit req.leaderCommit).1 := by
  rw [handleAppendEntries_of_match hterm hprev]
  rfl

/-- Following the commit index of a leader. -/
theorem represented_followCommit {c : ℕ} (happlied : nd.lastApplied ≤ nd.commitIndex) :
    (nd.followCommit c).1.Represented ↔ Contiguous nd.snapshotIndex nd.log ∧
      (nd.snapshotIndex = 0 ∨ nd.Blank) ∧
      if nd.commitIndex < c then nd.lastApplied ≤ nd.log.length
      else nd.commitIndex ≤ nd.snapshotIndex + nd.log.length := by
  rw [represented_iff]
  unfold followCommit
  split_ifs with hlt
  · rw [applyPendingCommits_eq]
    have hblank : (caughtUp { nd with commitIndex := min c nd.log.length }).Blank ↔ nd.Blank :=
      ⟨fun h => ⟨h.snapshotTerm, h.term⟩, fun h => ⟨h.snapshotTerm, h.term⟩⟩
    simp only [hblank]
    simp only [caughtUp]
    constructor
    · rintro ⟨hindex, hterms, happly, -⟩
      exact ⟨hindex, hterms, by omega⟩
    · rintro ⟨hindex, hterms, hkept⟩
      exact ⟨hindex, hterms, by omega, by omega⟩
  · constructor
    · rintro ⟨hindex, hterms, -, hkept⟩
      exact ⟨hindex, hterms, hkept⟩
    · rintro ⟨hindex, hterms, hkept⟩
      exact ⟨hindex, hterms, happlied, hkept⟩

/-- The log after a request that is taken keeps the fields together just when the request fits. -/
theorem represented_handleAppendEntries (h : nd.Represented) (hreq : req.FromLeader)
    (hterm : nd.currentTerm ≤ req.term) (hprev : nd.prevMatches req = true) :
    (nd.handleAppendEntries req).1.Represented ↔ nd.Fits req := by
  obtain ⟨k, -, hk⟩ := hreq
  obtain ⟨hindex, hsnapshot, hcommit, happlied⟩ :
      (nd.taken req).snapshotIndex = nd.snapshotIndex ∧
        (nd.taken req).snapshotTerm = nd.snapshotTerm ∧
        (nd.taken req).commitIndex = nd.commitIndex ∧
        (nd.taken req).lastApplied = nd.lastApplied := nd.followed_frame req
  have htaken : (nd.taken req).log = (appendLoop (N := N) nd.log req.entries).1 := rfl
  obtain ⟨hlog, hblank, hle, -⟩ := represented_iff.mp h
  have hloop := contiguous_appendLoop (N := N) hlog (hblank.imp_right Blank.term) hk
  have hblank' : (nd.snapshotIndex = 0 ∨ (nd.taken req).Blank) ↔
      nd.snapshotIndex = 0 ∨ ∀ e ∈ (nd.taken req).log, e.term = 0 := by
    refine ⟨fun hor => hor.imp_right Blank.term, fun hor => ?_⟩
    rcases hor with hs | hall
    · exact Or.inl hs
    · exact hblank.imp_right fun hblank => ⟨hsnapshot.trans hblank.snapshotTerm, hall⟩
  rw [handleAppendEntries_taken hterm hprev, represented_followCommit (by omega), hindex, hcommit,
    happlied, hblank', htaken, length_appendLoop hk, ← and_assoc, hloop, and_assoc]
  exact ⟨fun ⟨hnext, hterms, hkept⟩ => ⟨hnext, hterms, hkept⟩,
    fun hfits => ⟨hfits.next, hfits.terms, hfits.kept⟩⟩

end handle

/-! ## Local appends and snapshots -/

section operations

variable {nd : RaftNode N P}

/-- A local append keeps the fields together just when no term is needed or there is none. -/
theorem represented_appendLocalEntry (h : nd.Represented) (command : CommandType) (payload : P) :
    (nd.appendLocalEntry command payload).1.Represented ↔
      nd.snapshotIndex = 0 ∨ nd.currentTerm = 0 := by
  obtain ⟨hlog, hblank, happlied, hcommitted⟩ := represented_iff.mp h
  have hindex := index_appendLocalEntry hlog command payload
  set e := (nd.appendLocalEntry command payload).2.2 with he
  have heq : (nd.appendLocalEntry command payload).1 = { nd with log := nd.log ++ [e] } := rfl
  have hterm : e.term = nd.currentTerm := rfl
  rw [heq, represented_iff]
  simp only [List.length_append, List.length_singleton]
  constructor
  · rintro ⟨-, hs | hblank, -⟩
    · exact Or.inl hs
    · exact Or.inr (hterm ▸ hblank.term e (List.mem_append_right _ List.mem_cons_self))
  · intro hor
    refine ⟨hlog.concat hindex, ?_, happlied, by omega⟩
    rcases hor with hs | hzero
    · exact Or.inl hs
    · refine hblank.imp_right fun hblank => ⟨hblank.snapshotTerm, fun e' he' => ?_⟩
      rcases List.mem_append.mp he' with he' | he'
      · exact hblank.term e' he'
      · rw [List.mem_singleton.mp he', hterm, hzero]

/-- A snapshot keeps the fields together just when nothing from the last entry that it includes on has
a term. -/
theorem represented_onSnapshotCreated (h : nd.Represented) (hlt : nd.snapshotIndex < nd.lastApplied) :
    (nd.onSnapshotCreated nd.lastApplied).Represented ↔
      ∀ e ∈ nd.log, nd.lastApplied ≤ e.index → e.term = 0 := by
  have hlast := lastLogInfo_fst h.index
  have hcommitted := h.committed
  have happlied := h.applied
  have hlog : (nd.onSnapshotCreated nd.lastApplied).log =
      nd.log.drop (nd.lastApplied - nd.snapshotIndex) := h.index.filter_lt hlt.le
  have hcontiguous : Contiguous nd.lastApplied (nd.onSnapshotCreated nd.lastApplied).log := by
    have hdrop := h.index.drop (nd.lastApplied - nd.snapshotIndex)
    rw [hlog]
    rwa [Nat.add_sub_cancel' hlt.le] at hdrop
  have hmem : ∀ e, e ∈ (nd.onSnapshotCreated nd.lastApplied).log ↔
      e ∈ nd.log ∧ nd.lastApplied < e.index := by
    intro e
    unfold onSnapshotCreated
    simp only [List.mem_filter, decide_eq_true_eq]
  have hblank : (nd.onSnapshotCreated nd.lastApplied).Blank ↔
      ∀ e ∈ nd.log, nd.lastApplied ≤ e.index → e.term = 0 := by
    -- the term of the snapshot is that of the last entry it includes
    obtain ⟨e₀, he₀, hindex₀, hterm₀⟩ := h.term nd.lastApplied hlt (by omega)
    have hsnapshot : (nd.onSnapshotCreated nd.lastApplied).snapshotTerm = e₀.term := hterm₀
    constructor
    · intro hblank e he hle
      rcases hle.eq_or_lt with heq | hlt'
      · obtain ⟨i, hi⟩ := List.mem_iff_getElem?.mp he
        obtain ⟨i₀, hi₀⟩ := List.mem_iff_getElem?.mp he₀
        obtain rfl : i = i₀ := by
          have := h.index i e hi
          have := h.index i₀ e₀ hi₀
          omega
        rw [Option.some.inj (hi.symm.trans hi₀), ← hsnapshot]
        exact hblank.snapshotTerm
      · exact hblank.term e ((hmem e).mpr ⟨he, hlt'⟩)
    · intro hall
      exact ⟨hsnapshot.trans (hall e₀ he₀ hindex₀.ge),
        fun e he => hall e ((hmem e).mp he).1 ((hmem e).mp he).2.le⟩
  have hindex : (nd.onSnapshotCreated nd.lastApplied).snapshotIndex = nd.lastApplied := rfl
  rw [represented_iff, hindex, hblank, hlog, List.length_drop]
  refine ⟨fun ⟨_, hor, _⟩ => hor.resolve_left (by omega), fun hall => ?_⟩
  refine ⟨hlog ▸ hcontiguous, Or.inr hall, happlied, ?_⟩
  show nd.commitIndex ≤ _
  omega

end operations

end RaftNode

end NanoFabric.Raft
