import NanoFabric.Raft.LogOps

/-!
# AppendEntries on a follower

What `handle_append_entries` does to a log whose positions are its indexes, for requests that arrive
late, twice or out of order.

* `Consistent` — the entries of a request are consecutive, and agree with the log where it has an
  entry of their index and term; `appendLoop_splice` is the loop on such a request, and
  `stored_appendLoop` what it leaves of the stored log.
* `LogMatching` — two logs that have an entry of one term at one position agree up to there.
* `delivered_buildAppendEntries` — a request that a leader built from an earlier prefix of its log.
-/

namespace NanoFabric.Raft

variable {N P : Type}

/-! ## Consistent requests -/

/-- The entries follow the previous index one by one, and an entry that the log holds in their index
and term is theirs. -/
structure Consistent (L : List (LogEntry P)) (req : AppendEntriesRequest N P) : Prop where
  consecutive : ∀ i e, req.entries[i]? = some e → e.index = req.prevLogIndex + i + 1
  same : ∀ a ∈ L, ∀ e ∈ req.entries, a.index = e.index → a.term = e.term → a = e

/-- The log that a request describes: that of the follower up to the previous index, and then the
entries. -/
def AppendEntriesRequest.spliced (req : AppendEntriesRequest N P) (L : List (LogEntry P)) :
    List (LogEntry P) :=
  L.take req.prevLogIndex ++ req.entries

section splice

variable {L : List (LogEntry P)} {req : AppendEntriesRequest N P}

theorem Consistent.aligned_spliced (h : Consistent L req) (hal : Aligned L)
    (hle : req.prevLogIndex ≤ L.length) : Aligned (req.spliced L) := by
  intro i e he
  unfold AppendEntriesRequest.spliced at he
  have hlen : (L.take req.prevLogIndex).length = req.prevLogIndex := List.length_take_of_le hle
  rcases Nat.lt_or_ge i req.prevLogIndex with hi | hi
  · rw [List.getElem?_append_left (by omega)] at he
    exact hal i e (getElem?_mono (List.take_prefix _ _) he)
  · rw [List.getElem?_append_right (by omega), hlen] at he
    have := h.consecutive _ e he
    omega

/-- Where the terms agree, so do the entries. -/
theorem Consistent.eq_of_term_eq (h : Consistent L req) (hal : Aligned L)
    (hle : req.prevLogIndex ≤ L.length) {i : ℕ} {a e : LogEntry P} (ha : L[i]? = some a)
    (he : (req.spliced L)[i]? = some e) (hterm : a.term = e.term) : a = e := by
  have hindex : a.index = e.index :=
    (hal i a ha).trans (h.aligned_spliced hal hle i e he).symm
  unfold AppendEntriesRequest.spliced at he
  have hlen : (L.take req.prevLogIndex).length = req.prevLogIndex := List.length_take_of_le hle
  rcases Nat.lt_or_ge i req.prevLogIndex with hi | hi
  · rw [List.getElem?_append_left (by omega)] at he
    exact Option.some.inj (ha.symm.trans (getElem?_mono (List.take_prefix _ _) he))
  · rw [List.getElem?_append_right (by omega)] at he
    exact h.same a (List.mem_of_getElem? ha) e (List.mem_of_getElem? he) hindex hterm

/-- The loop leaves the log, if it holds what the request describes, or makes it what the request
describes. What the log shares with a log that continues the request stays. -/
theorem appendLoop_splice (h : Consistent L req) (hal : Aligned L)
    (hle : req.prevLogIndex ≤ L.length) :
    ((req.spliced L <+: L ∧ (RaftNode.appendLoop (N := N) L req.entries).1 = L) ∨
        (RaftNode.appendLoop (N := N) L req.entries).1 = req.spliced L) ∧
      ∀ X G, X <+: L → X <+: G → req.spliced L <+: G →
        X <+: (RaftNode.appendLoop (N := N) L req.entries).1 := by
  rcases appendLoop_cases (N := N) (h.aligned_spliced hal hle) (List.take_prefix _ L)
    (fun i a b => h.eq_of_term_eq hal hle) with
    ⟨hin, heq⟩ | ⟨hext, heq⟩ | ⟨k, a, b, ha, hb, hab, htake, -, heq⟩
  · rw [heq]
    exact ⟨Or.inl ⟨hin, rfl⟩, fun X G hX _ _ => hX⟩
  · rw [heq]
    exact ⟨Or.inr rfl, fun X G hX _ _ => hX.trans hext⟩
  · rw [heq]
    refine ⟨Or.inr rfl, fun X G hX hXG hG => ?_⟩
    -- a prefix of both logs ends before the conflict
    have hlen : X.length ≤ k := by
      by_contra hk
      have hget : X[k]? = some X[k] := List.getElem?_eq_getElem (not_le.mp hk)
      have hx := (getElem?_mono hX hget).symm.trans ha
      have hy := (getElem?_mono hXG hget).symm.trans (getElem?_mono hG hb)
      exact hab (Option.some.inj (hx.symm.trans hy))
    exact (List.prefix_take_iff.mpr ⟨hX, hlen⟩).trans htake

theorem holds_appendLoop (h : Consistent L req) (hal : Aligned L)
    (hle : req.prevLogIndex ≤ L.length) :
    req.spliced L <+: (RaftNode.appendLoop (N := N) L req.entries).1 := by
  rcases (appendLoop_splice h hal hle).1 with ⟨hin, heq⟩ | heq
  · rw [heq]
    exact hin
  · rw [heq]

/-- What is left of a log is as the request describes it where the log was. -/
theorem Consistent.appendLoop (h : Consistent L req) (hal : Aligned L)
    (hle : req.prevLogIndex ≤ L.length) :
    Consistent (RaftNode.appendLoop (N := N) L req.entries).1 req ∧
      Aligned (RaftNode.appendLoop (N := N) L req.entries).1 := by
  rcases (appendLoop_splice h hal hle).1 with ⟨-, heq⟩ | heq
  · rw [heq]
    exact ⟨h, hal⟩
  · rw [heq]
    refine ⟨⟨h.consecutive, fun a ha e he hindex hterm => ?_⟩, h.aligned_spliced hal hle⟩
    unfold AppendEntriesRequest.spliced at ha
    rcases List.mem_append.mp ha with ha | ha
    · exact h.same a (List.mem_of_mem_take ha) e he hindex hterm
    · obtain ⟨i, hi⟩ := List.mem_iff_getElem?.mp ha
      obtain ⟨j, hj⟩ := List.mem_iff_getElem?.mp he
      have hij : i = j := by
        have := h.consecutive i a hi
        have := h.consecutive j e hj
        omega
      exact Option.some.inj (hi.symm.trans (hij ▸ hj))

/-- The stored entries. -/
theorem perform_storeEntries (d : RaftStorage N P) (entries : List (LogEntry P)) :
    (RaftNode.storeEntries entries).foldl RaftStorage.perform d =
      { d with raftLog := entries.foldl (fun rows e => insertOrReplace e rows) d.raftLog } := by
  unfold RaftNode.storeEntries
  split_ifs with hnil
  · rw [hnil]
    rfl
  · rfl

/-- The loop and the insertion after it leave the stored log as they leave the log. -/
theorem stored_appendLoop (h : Consistent L req) (hal : Aligned L)
    (hle : req.prevLogIndex ≤ L.length) {d : RaftStorage N P} (hd : d.raftLog = L) :
    ((RaftNode.appendLoop (N := N) L req.entries).2 ++ RaftNode.storeEntries req.entries).foldl
        RaftStorage.perform d =
      { d with raftLog := (RaftNode.appendLoop (N := N) L req.entries).1 } := by
  have hal' := h.aligned_spliced hal hle
  rw [List.foldl_append, perform_storeEntries]
  rcases appendLoop_cases (N := N) hal' (List.take_prefix _ L)
    (fun i a b => h.eq_of_term_eq hal hle) with
    ⟨hin, heq⟩ | ⟨hext, heq⟩ | ⟨k, a, b, ha, hb, hab, htake, hpre, heq⟩
  · rw [heq]
    simp only [List.foldl_nil, hd]
    rw [foldl_insertOrReplace_held hal hin]
  · rw [heq]
    simp only [List.foldl_nil, hd]
    rw [foldl_insertOrReplace hal' (List.take_prefix _ L) hext]
  · rw [heq]
    simp only [List.foldl_cons, List.foldl_nil, RaftStorage.perform, hd, hal.filter_index_lt]
    rw [foldl_insertOrReplace hal' hpre htake]

/-- A log that holds what the request describes stays as it is. -/
theorem appendLoop_held {Pre entries : List (LogEntry P)} (hal : Aligned (Pre ++ entries))
    (hL : Pre ++ entries <+: L) : RaftNode.appendLoop (N := N) L entries = (L, []) := by
  rcases appendLoop_cases (N := N) hal ((List.prefix_append _ _).trans hL)
    (fun i a b ha hb _ => Option.some.inj (ha.symm.trans (getElem?_mono hL hb))) with
    ⟨-, heq⟩ | ⟨hext, heq⟩ | ⟨k, a, b, ha, hb, hab, -, -, -⟩
  · exact heq
  · rw [heq, hL.eq_of_length_le hext.length_le]
  · exact absurd (Option.some.inj (ha.symm.trans (getElem?_mono hL hb))) hab

end splice

/-! ## One delivery, and the same again -/

namespace RaftNode

/-- A node that has caught up has nothing to apply. -/
theorem caughtUp_of_le {nd : RaftNode N P} (h : nd.commitIndex ≤ nd.lastApplied) :
    nd.caughtUp = nd ∧ nd.uncaught = [] := by
  unfold caughtUp uncaught
  simp [Nat.sub_eq_zero_of_le h, entriesFrom]

/-- A node that has committed and applied what it can follows no further. -/
theorem followCommit_self {nd : RaftNode N P} {c : ℕ} (h : nd.commitIndex < c →
    min c nd.log.length = nd.commitIndex ∧ nd.commitIndex ≤ nd.lastApplied) :
    nd.followCommit c = (nd, []) := by
  unfold followCommit
  split_ifs with hlt
  · obtain ⟨hmin, hle⟩ := h hlt
    obtain ⟨hcaught, huncaught⟩ := caughtUp_of_le hle
    rw [hmin, applyPendingCommits_eq, hcaught, huncaught]
    rfl
  · rfl

/-- A commit index that was followed once is followed. -/
theorem followCommit_followCommit (nd : RaftNode N P) (c : ℕ) :
    (nd.followCommit c).1.followCommit c = ((nd.followCommit c).1, []) := by
  apply followCommit_self
  by_cases hlt : nd.commitIndex < c
  · have heq : nd.followCommit c = ({ nd with commitIndex := min c nd.log.length }.caughtUp,
        applyEffects { nd with commitIndex := min c nd.log.length }.uncaught) := by
      unfold followCommit
      rw [if_pos hlt, applyPendingCommits_eq]
    rw [heq]
    refine fun _ => ⟨rfl, ?_⟩
    show min c nd.log.length ≤ nd.lastApplied + (min c nd.log.length - nd.lastApplied)
    omega
  · have heq : nd.followCommit c = (nd, []) := if_neg hlt
    rw [heq]
    exact fun h => absurd h hlt

theorem becomeFollower_self {nd : RaftNode N P} {term : ℕ} {leader : N} (hterm : term ≤ nd.currentTerm)
    (hrole : nd.role = .follower) (hleader : nd.leaderId = some leader) :
    nd.becomeFollower term (some leader) = (nd, [nd.persistState]) := by
  unfold becomeFollower
  rw [if_neg (not_lt.mpr hterm)]
  cases nd
  simp_all

/-- A commit index moves up, to no more than is followed. -/
theorem followCommit_commitIndex (nd : RaftNode N P) (c : ℕ) :
    (nd.followCommit c).1.commitIndex =
      if nd.commitIndex < c then min c nd.log.length else nd.commitIndex := by
  unfold followCommit
  split_ifs
  · rw [applyPendingCommits_eq]
    rfl
  · rfl

/-- The node that follows the leader of a request. -/
def followed (nd : RaftNode N P) (req : AppendEntriesRequest N P) : RaftNode N P :=
  (nd.becomeFollower req.term (some req.leaderId)).1

section handle

variable {nd : RaftNode N P} {req : AppendEntriesRequest N P}

theorem followed_log (nd : RaftNode N P) (req : AppendEntriesRequest N P) :
    (nd.followed req).log = nd.log := by
  unfold followed becomeFollower
  split_ifs <;> rfl

theorem followed_commitIndex : (nd.followed req).commitIndex = nd.commitIndex := by
  unfold followed becomeFollower
  split_ifs <;> rfl

theorem followed_currentTerm (h : nd.currentTerm ≤ req.term) :
    (nd.followed req).currentTerm = req.term := by
  unfold followed
  rw [becomeFollower_currentTerm, max_eq_right h]

theorem prevMatches_followed : (nd.followed req).prevMatches req = nd.prevMatches req := by
  simp only [prevMatches, followed_log]

theorem handleAppendEntries_of_lt (h : req.term < nd.currentTerm) :
    nd.handleAppendEntries req = (nd, [], ⟨nd.currentTerm, false, 0⟩) := if_pos h

theorem handleAppendEntries_of_mismatch (h : nd.currentTerm ≤ req.term)
    (hprev : nd.prevMatches req = false) : nd.handleAppendEntries req =
      (nd.followed req, [(nd.followed req).persistState], ⟨req.term, false, 0⟩) := by
  have hterm := followed_currentTerm h
  rw [← prevMatches_followed] at hprev
  unfold handleAppendEntries
  rw [if_neg (not_lt.mpr h)]
  unfold followed at hterm hprev ⊢
  simp only [hprev, hterm, becomeFollower_effects]
  rfl

theorem handleAppendEntries_of_match (h : nd.currentTerm ≤ req.term)
    (hprev : nd.prevMatches req = true) : nd.handleAppendEntries req =
      ((followCommit { nd.followed req with log := (appendLoop (N := N) nd.log req.entries).1 }
          req.leaderCommit).1,
        [(nd.followed req).persistState] ++ (appendLoop (N := N) nd.log req.entries).2 ++
            storeEntries req.entries ++
          (followCommit { nd.followed req with log := (appendLoop (N := N) nd.log req.entries).1 }
            req.leaderCommit).2,
        ⟨req.term, true, req.prevLogIndex + req.entries.length⟩) := by
  have hlog := nd.followed_log req
  have hterm : (followCommit { nd.followed req with
      log := (appendLoop (N := N) nd.log req.entries).1 } req.leaderCommit).1.currentTerm =
      req.term := (quiet_followCommit _ _).term.trans (followed_currentTerm h)
  rw [← prevMatches_followed] at hprev
  unfold handleAppendEntries
  rw [if_neg (not_lt.mpr h)]
  unfold followed at hterm hprev hlog ⊢
  simp only [hprev, hlog, if_true, becomeFollower_effects, hterm]

theorem prevLogIndex_le (h : nd.prevMatches req = true) : req.prevLogIndex ≤ nd.log.length := by
  unfold prevMatches at h
  rw [Bool.or_eq_true, decide_eq_true_iff, decide_eq_true_iff] at h
  rcases h with hzero | hterm
  · omega
  · obtain ⟨e, he, -⟩ := Option.map_eq_some_iff.mp hterm
    have := (List.getElem?_eq_some_iff.mp he).1
    omega

theorem foldl_followCommit (nd : RaftNode N P) (c : ℕ) (d : RaftStorage N P) :
    (nd.followCommit c).2.foldl RaftStorage.perform d = d := by
  unfold followCommit
  split_ifs
  · rw [applyPendingCommits_eq]
    exact foldl_applyEffects _ d
  · rfl

/-- What the node has in memory of its term, its vote and its log. -/
def inMemory (nd : RaftNode N P) (d : RaftStorage N P) : RaftStorage N P :=
  { d with currentTerm := nd.currentTerm, votedFor := nd.votedFor, raftLog := nd.log }

/-- A delivery that follows the leader leaves the database as the memory. -/
theorem stored_handleAppendEntries (h : Consistent nd.log req) (hal : Aligned nd.log)
    {d : RaftStorage N P} (hd : d.raftLog = nd.log) :
    (nd.handleAppendEntries req).2.1.foldl RaftStorage.perform d =
      if req.term < nd.currentTerm then d else (nd.handleAppendEntries req).1.inMemory d := by
  by_cases hlt : req.term < nd.currentTerm
  · rw [handleAppendEntries_of_lt hlt, if_pos hlt]
    rfl
  · rw [if_neg hlt]
    rcases hprev : nd.prevMatches req with _ | _
    · rw [handleAppendEntries_of_mismatch (not_lt.mp hlt) hprev]
      simp only [inMemory, List.foldl_cons, List.foldl_nil, persistState, RaftStorage.perform,
        followed_log, ← hd]
    · rw [handleAppendEntries_of_match (not_lt.mp hlt) hprev]
      have hquiet := quiet_followCommit { nd.followed req with
        log := (appendLoop (N := N) nd.log req.entries).1 } req.leaderCommit
      simp only [List.foldl_append, foldl_followCommit]
      rw [← List.foldl_append, stored_appendLoop h hal (prevLogIndex_le hprev)]
      · simp only [inMemory, hquiet.term, hquiet.votedFor, (followCommit_frame _ _).log]
        rfl
      · exact hd

theorem followed_self (hterm : nd.currentTerm = req.term) (hrole : nd.role = .follower)
    (hleader : nd.leaderId = some req.leaderId) : nd.followed req = nd :=
  congrArg Prod.fst (becomeFollower_self hterm.ge hrole hleader)

/-- A node that was given a request stays as it is when it is given it again. -/
theorem handleAppendEntries_again (h : Consistent nd.log req) (hal : Aligned nd.log) :
    ((nd.handleAppendEntries req).1.handleAppendEntries req).1 = (nd.handleAppendEntries req).1 ∧
      ((nd.handleAppendEntries req).1.handleAppendEntries req).2.2 =
        (nd.handleAppendEntries req).2.2 := by
  by_cases hlt : req.term < nd.currentTerm
  · rw [handleAppendEntries_of_lt hlt]
    simp only [handleAppendEntries_of_lt hlt, and_self]
  · have hterm := followed_currentTerm (not_lt.mp hlt)
    rcases hprev : nd.prevMatches req with _ | _
    · rw [handleAppendEntries_of_mismatch (not_lt.mp hlt) hprev]
      rw [← prevMatches_followed] at hprev
      simp only [handleAppendEntries_of_mismatch hterm.le hprev, and_true]
      exact followed_self hterm rfl rfl
    · rw [handleAppendEntries_of_match (not_lt.mp hlt) hprev]
      have hle := prevLogIndex_le hprev
      have hholds := holds_appendLoop (N := N) h hal hle
      generalize (appendLoop (N := N) nd.log req.entries).1 = L' at hholds ⊢
      have hquiet := quiet_followCommit { nd.followed req with log := L' } req.leaderCommit
      obtain ⟨hleader, hlog, -⟩ := followCommit_frame { nd.followed req with log := L' } req.leaderCommit
      have hagain := followCommit_followCommit { nd.followed req with log := L' } req.leaderCommit
      generalize (followCommit { nd.followed req with log := L' } req.leaderCommit).1 = nd' at *
      have hterm' : nd'.currentTerm = req.term := hquiet.term.trans hterm
      have hfollow : nd'.followed req = nd' := followed_self hterm' hquiet.role hleader
      have hprev' : nd'.prevMatches req = true := by
        unfold prevMatches at hprev ⊢
        rw [Bool.or_eq_true, decide_eq_true_iff, decide_eq_true_iff] at hprev ⊢
        by_cases hzero : req.prevLogIndex = 0
        · exact Or.inl hzero
        · obtain ⟨e, he, heterm⟩ := Option.map_eq_some_iff.mp (hprev.resolve_left hzero)
          have htake : (nd.log.take req.prevLogIndex)[req.prevLogIndex - 1]? = some e := by
            rw [List.getElem?_take_of_lt (by omega)]
            exact he
          have hget := getElem?_mono ((List.prefix_append _ _).trans hholds) htake
          exact Or.inr (by rw [hlog, hget, Option.map_some, heterm])
      have heq : { nd' with log := L' } = nd' := by
        rw [← show nd'.log = L' from hlog]
      rw [handleAppendEntries_of_match hterm'.le hprev', hfollow, hlog,
        appendLoop_held (h.aligned_spliced hal hle) hholds, heq, hagain]
      exact ⟨rfl, rfl⟩

/-- The log of a delivery is what the loop leaves, or as it was. -/
theorem log_handleAppendEntries (nd : RaftNode N P) (req : AppendEntriesRequest N P) :
    (nd.handleAppendEntries req).1.log = nd.log ∨
    (nd.prevMatches req = true ∧
      (nd.handleAppendEntries req).1.log = (appendLoop (N := N) nd.log req.entries).1) := by
  by_cases hlt : req.term < nd.currentTerm
  · exact Or.inl (by rw [handleAppendEntries_of_lt hlt])
  · rcases hprev : nd.prevMatches req with _ | _
    · rw [handleAppendEntries_of_mismatch (not_lt.mp hlt) hprev]
      exact Or.inl (nd.followed_log req)
    · rw [handleAppendEntries_of_match (not_lt.mp hlt) hprev]
      exact Or.inr ⟨rfl, (followCommit_frame _ _).log⟩

theorem consistent_handleAppendEntries (h : Consistent nd.log req) (hal : Aligned nd.log) :
    Consistent (nd.handleAppendEntries req).1.log req ∧
      Aligned (nd.handleAppendEntries req).1.log := by
  rcases nd.log_handleAppendEntries req with hlog | ⟨hprev, hlog⟩
  · rw [hlog]
    exact ⟨h, hal⟩
  · rw [hlog]
    exact h.appendLoop hal (prevLogIndex_le hprev)

/-- A database that holds the log stays as it is, too. -/
theorem stored_handleAppendEntries_again (h : Consistent nd.log req) (hal : Aligned nd.log)
    {d : RaftStorage N P} (hd : d.raftLog = nd.log) :
    ((nd.handleAppendEntries req).1.handleAppendEntries req).2.1.foldl RaftStorage.perform
        ((nd.handleAppendEntries req).2.1.foldl RaftStorage.perform d) =
      (nd.handleAppendEntries req).2.1.foldl RaftStorage.perform d := by
  have hfirst := stored_handleAppendEntries h hal hd
  obtain ⟨hagain, -⟩ := handleAppendEntries_again h hal
  by_cases hlt : req.term < nd.currentTerm
  · simp only [handleAppendEntries_of_lt hlt, List.foldl_nil]
  · obtain ⟨hcons, hal'⟩ := consistent_handleAppendEntries h hal
    rw [hfirst, if_neg hlt, stored_handleAppendEntries hcons hal' rfl, hagain]
    split_ifs <;> rfl

end handle

end RaftNode

/-! ## The requests of a leader -/

/-- Two logs that have entries of one term at one position are the same up to there. -/
def LogMatching (F G : List (LogEntry P)) : Prop :=
  ∀ (i : ℕ) (a b : LogEntry P), F[i]? = some a → G[i]? = some b → a.term = b.term →
    F.take (i + 1) = G.take (i + 1)

/-- What a delivery does to a follower of a leader with the log `G`. An answer of success says that
the logs agree up to the match index, an answer of failure that the log is as it was; what agreed
stays; the commit index moves up within what matches; and the same request changes nothing more in
the node, its answer or its database. -/
structure Delivered (G : List (LogEntry P)) (nd : RaftNode N P) (req : AppendEntriesRequest N P) :
    Prop where
  agrees : (nd.handleAppendEntries req).2.2.success = true →
    (nd.handleAppendEntries req).2.2.matchIndex ≤ G.length ∧
      (nd.handleAppendEntries req).1.log.take (nd.handleAppendEntries req).2.2.matchIndex =
        G.take (nd.handleAppendEntries req).2.2.matchIndex
  kept : ∀ (i : ℕ) (e : LogEntry P), nd.log[i]? = some e → G[i]? = some e →
    (nd.handleAppendEntries req).1.log[i]? = some e
  commit_le : nd.commitIndex ≤ (nd.handleAppendEntries req).1.commitIndex
  raised : nd.commitIndex < (nd.handleAppendEntries req).1.commitIndex →
    (nd.handleAppendEntries req).2.2.success = true ∧
      (nd.handleAppendEntries req).1.commitIndex ≤ (nd.handleAppendEntries req).2.2.matchIndex
  refused : (nd.handleAppendEntries req).2.2.success = false →
    (nd.handleAppendEntries req).1.log = nd.log
  again : ((nd.handleAppendEntries req).1.handleAppendEntries req).1 =
      (nd.handleAppendEntries req).1 ∧
    ((nd.handleAppendEntries req).1.handleAppendEntries req).2.2 = (nd.handleAppendEntries req).2.2
  stored : ∀ d : RaftStorage N P, d.raftLog = nd.log →
    ((nd.handleAppendEntries req).1.handleAppendEntries req).2.1.foldl RaftStorage.perform
        ((nd.handleAppendEntries req).2.1.foldl RaftStorage.perform d) =
      (nd.handleAppendEntries req).2.1.foldl RaftStorage.perform d

section leader

variable {nd ld : RaftNode N P} {G : List (LogEntry P)} (self peer : N)

/-- A leader sends the entries of its log from the next index on. -/
theorem entries_buildAppendEntries (hal : Aligned ld.log) :
    (ld.buildAppendEntries self peer).entries =
      ld.log.drop (ld.buildAppendEntries self peer).prevLogIndex :=
  hal.filter_le_index _

theorem consistent_buildAppendEntries (hF : Aligned nd.log) (hG : Aligned G)
    (hmatch : LogMatching nd.log G) (hld : ld.log <+: G) :
    Consistent nd.log (ld.buildAppendEntries self peer) where
  consecutive i e he := by
    rw [entries_buildAppendEntries self peer (hG.mono hld), List.getElem?_drop] at he
    exact hG.mono hld _ e he
  same a ha e he hindex hterm := by
    rw [entries_buildAppendEntries self peer (hG.mono hld)] at he
    obtain ⟨-, hgeta⟩ := hF.mem_iff.mp ha
    obtain ⟨-, hgete⟩ := hG.mem_iff.mp (hld.subset (List.mem_of_mem_drop he))
    rw [hindex] at hgeta
    have htake := hmatch _ a e hgeta hgete hterm
    have hget : (nd.log.take (e.index - 1 + 1))[e.index - 1]? = some a := by
      rw [List.getElem?_take_of_lt (Nat.lt_succ_self _)]
      exact hgeta
    rw [htake, List.getElem?_take_of_lt (Nat.lt_succ_self _), hgete] at hget
    exact (Option.some.inj hget).symm

/-- A follower that accepts a previous entry from the leader's log has the leader's log up to it. -/
theorem spliced_of_prevLogIndex_le (hG : Aligned G) (hmatch : LogMatching nd.log G)
    (hld : ld.log <+: G)
    (hle : (ld.buildAppendEntries self peer).prevLogIndex ≤ ld.log.length)
    (hprev : nd.prevMatches (ld.buildAppendEntries self peer) = true) :
    (ld.buildAppendEntries self peer).spliced nd.log = ld.log := by
  unfold AppendEntriesRequest.spliced
  rw [entries_buildAppendEntries self peer (hG.mono hld)]
  have hterm : (ld.buildAppendEntries self peer).prevLogTerm =
    ld.logTermAt (ld.buildAppendEntries self peer).prevLogIndex := rfl
  generalize ld.buildAppendEntries self peer = req at hle hprev hterm ⊢
  unfold RaftNode.prevMatches at hprev
  rw [Bool.or_eq_true, decide_eq_true_iff, decide_eq_true_iff] at hprev
  by_cases hzero : req.prevLogIndex = 0
  · rw [hzero]
    rfl
  · obtain ⟨a, ha, haterm⟩ := Option.map_eq_some_iff.mp (hprev.resolve_left hzero)
    have hb : ld.log[req.prevLogIndex - 1]? = some ld.log[req.prevLogIndex - 1] :=
      List.getElem?_eq_getElem (by omega)
    unfold RaftNode.logTermAt at hterm
    rw [if_neg hzero, hb] at hterm
    have htake := hmatch _ a _ ha (getElem?_mono hld hb) (haterm.trans hterm)
    rw [Nat.sub_add_cancel (Nat.pos_of_ne_zero hzero)] at htake
    have htake' : G.take req.prevLogIndex = ld.log.take req.prevLogIndex := by
      obtain ⟨Y, rfl⟩ := hld
      exact List.take_append_of_le_length hle
    rw [htake, htake', List.take_append_drop]

/-- A follower whose entries have terms accepts no previous entry past the leader's log. -/
theorem spliced_buildAppendEntries (hG : Aligned G) (hmatch : LogMatching nd.log G)
    (hpos : ∀ e ∈ nd.log, 0 < e.term) (hld : ld.log <+: G)
    (hprev : nd.prevMatches (ld.buildAppendEntries self peer) = true) :
    (ld.buildAppendEntries self peer).prevLogIndex ≤ ld.log.length ∧
      (ld.buildAppendEntries self peer).spliced nd.log = ld.log := by
  have hle : (ld.buildAppendEntries self peer).prevLogIndex ≤ ld.log.length := by
    by_contra hlt
    have hterm : (ld.buildAppendEntries self peer).prevLogTerm =
      ld.logTermAt (ld.buildAppendEntries self peer).prevLogIndex := rfl
    generalize ld.buildAppendEntries self peer = req at hlt hprev hterm
    unfold RaftNode.prevMatches at hprev
    rw [Bool.or_eq_true, decide_eq_true_iff, decide_eq_true_iff] at hprev
    obtain ⟨a, ha, haterm⟩ := Option.map_eq_some_iff.mp (hprev.resolve_left (by omega))
    -- past the end of the leader's log the term is 0, which no entry has
    unfold RaftNode.logTermAt at hterm
    rw [if_neg (by omega), List.getElem?_eq_none (by omega)] at hterm
    have := hpos a (List.mem_of_getElem? ha)
    simp only at hterm
    omega
  exact ⟨hle, spliced_of_prevLogIndex_le self peer hG hmatch hld hle hprev⟩

/-- A request that a leader built from an earlier prefix of its log, with any next index, is delivered
to a follower whose log matches the leader's. -/
theorem delivered_buildAppendEntries (hF : Aligned nd.log) (hG : Aligned G)
    (hmatch : LogMatching nd.log G) (hpos : ∀ e ∈ nd.log, 0 < e.term) (hld : ld.log <+: G)
    (hcommit : ld.commitIndex ≤ ld.log.length) :
    Delivered G nd (ld.buildAppendEntries self peer) := by
  have hcons := consistent_buildAppendEntries self peer hF hG hmatch hld
  have hspliced := spliced_buildAppendEntries self peer hG hmatch hpos hld
  have hentries := entries_buildAppendEntries self peer (hG.mono hld)
  have hlc : (ld.buildAppendEntries self peer).leaderCommit = ld.commitIndex := rfl
  generalize ld.buildAppendEntries self peer = req at *
  have hagain := RaftNode.handleAppendEntries_again hcons hF
  have hstored : ∀ d : RaftStorage N P, d.raftLog = nd.log → _ :=
    fun d => RaftNode.stored_handleAppendEntries_again hcons hF
  by_cases hlt : req.term < nd.currentTerm
  · have heq := RaftNode.handleAppendEntries_of_lt hlt
    refine ⟨?_, ?_, ?_, ?_, ?_, hagain, hstored⟩
    all_goals rw [heq]
    · nofun
    · exact fun i e he _ => he
    · exact fun h => absurd h (lt_irrefl _)
    · exact fun _ => rfl
  · rcases hprev : nd.prevMatches req with _ | _
    · have heq := RaftNode.handleAppendEntries_of_mismatch (not_lt.mp hlt) hprev
      refine ⟨?_, ?_, ?_, ?_, ?_, hagain, hstored⟩
      all_goals rw [heq]
      · nofun
      · exact fun i e he _ => by rwa [RaftNode.followed_log]
      · exact RaftNode.followed_commitIndex.ge
      · exact fun h => absurd h (RaftNode.followed_commitIndex.le.not_gt)
      · exact fun _ => nd.followed_log req
    · obtain ⟨hle, hspl⟩ := hspliced hprev
      have heq := RaftNode.handleAppendEntries_of_match (not_lt.mp hlt) hprev
      have hholds := holds_appendLoop (N := N) hcons hF (RaftNode.prevLogIndex_le hprev)
      have hkept := (appendLoop_splice (N := N) hcons hF (RaftNode.prevLogIndex_le hprev)).2
      rw [hspl] at hholds hkept
      have hindex : req.prevLogIndex + req.entries.length = ld.log.length := by
        rw [hentries, List.length_drop]
        omega
      generalize (RaftNode.appendLoop (N := N) nd.log req.entries).1 = L' at heq hholds hkept
      have hci : (nd.handleAppendEntries req).1.commitIndex =
          if nd.commitIndex < ld.commitIndex then ld.commitIndex else nd.commitIndex := by
        rw [heq, RaftNode.followCommit_commitIndex, hlc]
        show (if (nd.followed req).commitIndex < _ then _ else (nd.followed req).commitIndex) = _
        rw [RaftNode.followed_commitIndex, min_eq_left (hcommit.trans hholds.length_le)]
      have hlog : (nd.handleAppendEntries req).1.log = L' := by
        rw [heq]
        exact (RaftNode.followCommit_frame _ _).log
      refine ⟨?_, ?_, ?_, ?_, ?_, hagain, hstored⟩
      · rw [hlog, heq]
        refine fun _ => ⟨hindex.le.trans hld.length_le, ?_⟩
        show L'.take (req.prevLogIndex + req.entries.length) =
          G.take (req.prevLogIndex + req.entries.length)
        rw [hindex, ← List.prefix_iff_eq_take.mp hholds, ← List.prefix_iff_eq_take.mp hld]
      · intro i e he heG
        have htake := hmatch i e e he heG rfl
        rw [hlog]
        refine getElem?_mono (hkept (nd.log.take (i + 1)) G (List.take_prefix _ _)
          (htake ▸ List.take_prefix _ _) hld) ?_
        rw [List.getElem?_take_of_lt (Nat.lt_succ_self i)]
        exact he
      · rw [hci]
        split_ifs with hraise
        · exact hraise.le
        · exact le_rfl
      · rw [hci, heq]
        split_ifs with hraise
        · refine fun _ => ⟨rfl, ?_⟩
          show ld.commitIndex ≤ req.prevLogIndex + req.entries.length
          rw [hindex]
          exact hcommit
        · exact fun h => absurd h (lt_irrefl _)
      · rw [heq]
        nofun

end leader

/-- An entry without a payload. -/
def bare (index term : ℕ) : LogEntry Unit := ⟨index, term, .registerNode, ()⟩

/-- A follower with an entry of an old term, which a stale request of the leader replaces. -/
theorem delivered_buildAppendEntries_conflict : Delivered [bare 1 1, bare 2 2, bare 3 2]
    { currentTerm := 1, log := [bare 1 1, bare 2 1] }
    (RaftNode.buildAppendEntries "node1"
      { currentTerm := 2
        role := .leader
        log := [bare 1 1, bare 2 2]
        commitIndex := 1
        nextIndex := fun _ => some 2 } "node2") := by
  refine delivered_buildAppendEntries _ _ ?_ ?_ ?_ ?_ ?_ ?_
  · rintro (_ | _ | i) e he
    all_goals simp at he
    all_goals subst he; rfl
  · rintro (_ | _ | _ | i) e he
    all_goals simp at he
    all_goals subst he; rfl
  · rintro (_ | _ | i) a b ha hb hterm
    · rfl
    · simp only [List.getElem?_cons_succ, List.getElem?_cons_zero, Option.some.injEq] at ha hb
      subst ha hb
      cases hterm
    · simp at ha
  · decide
  · exact ⟨[bare 3 2], rfl⟩
  · decide

end NanoFabric.Raft
