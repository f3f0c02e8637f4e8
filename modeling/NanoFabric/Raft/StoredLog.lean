import NanoFabric.Found.Runs
import NanoFabric.Raft.AppendSafety

/-!
# The stored log

One node with its database, under local appends, requests of leaders, snapshots and restarts.

* `Durable.InStep` — the rows of `raft_log` are the entries of the log, which is contiguous.
* `Durable.stored_eq_log` — so it is after every run in which no entries are taken while the log is
  compacted: the loop of `handle_append_entries` reads the log by position, and the positions of a
  compacted log are not its indexes.
-/

namespace NanoFabric.Raft

open NanoFabric.Found

variable {N P : Type}

/-- An entry that is appended has the next index. -/
theorem index_appendLocalEntry {nd : RaftNode N P} (h : Contiguous nd.snapshotIndex nd.log)
    (command : CommandType) (payload : P) :
    (nd.appendLocalEntry command payload).2.2.index = nd.snapshotIndex + nd.log.length + 1 := by
  unfold RaftNode.appendLocalEntry
  simp only
  rcases hlast : nd.log.getLast? with _ | e
  · rw [List.getLast?_eq_none_iff] at hlast
    rw [hlast]
    rfl
  · simp only [h.index_of_getLast? hlast]

/-! ## A node and its database -/

/-- A running node and its database. -/
structure Durable (N P : Type) where
  node : RaftNode N P
  disk : RaftStorage N P

/-- An operation on the log. -/
inductive LogEvent (N P : Type)
  | appendLocalEntry (command : CommandType) (payload : P)
  | handleAppendEntries (req : AppendEntriesRequest N P)
  | maybeSnapshot (threshold : ℕ)
  | restart

namespace Durable

/-- A node that starts for the first time. -/
def init : Durable N P := ⟨.boot {}, {}⟩

/-- One operation, with what it stores. -/
def step (s : Durable N P) : LogEvent N P → Option (Durable N P)
  | .appendLocalEntry command payload =>
      let (nd, effs, _) := s.node.appendLocalEntry command payload
      some ⟨nd, effs.foldl RaftStorage.perform s.disk⟩
  | .handleAppendEntries req =>
      let (nd, effs, _) := s.node.handleAppendEntries req
      some ⟨nd, effs.foldl RaftStorage.perform s.disk⟩
  | .maybeSnapshot threshold =>
      let (nd, effs) := s.node.maybeSnapshot threshold
      some ⟨nd, effs.foldl RaftStorage.perform s.disk⟩
  | .restart => some ⟨.boot s.disk, s.disk⟩

/-- Requests are consistent with the log that they find. -/
def Arrives (s : Durable N P) : LogEvent N P → Prop
  | .handleAppendEntries req => Consistent s.node.log req
  | _ => True

/-- The condition: a request with entries that is not refused finds a log that is not compacted. -/
def KeepsPositions (s : Durable N P) : LogEvent N P → Prop
  | .handleAppendEntries req =>
      req.entries = [] ∨ req.term < s.node.currentTerm ∨ s.node.prevMatches req = false ∨
        s.node.snapshotIndex = 0
  | _ => True

/-- The stored entries are those of the log, which counts on from the snapshot. -/
structure InStep (s : Durable N P) : Prop where
  stored : s.disk.raftLog = s.node.log
  included : s.disk.lastIncludedIndex = s.node.snapshotIndex
  contiguous : Contiguous s.node.snapshotIndex s.node.log

variable {s s' : Durable N P} {ev : LogEvent N P}

theorem inStep_init : (init : Durable N P).InStep := by
  refine ⟨?_, ?_, ?_⟩
  · simp only [init, RaftNode.boot_eq, if_true]
  · simp only [init, RaftNode.boot_eq]
  · intro i e he
    simp only [init, RaftNode.boot_eq, if_true] at he
    cases he

theorem InStep.appendLocalEntry (h : s.InStep) (command : CommandType) (payload : P) :
    InStep ⟨(s.node.appendLocalEntry command payload).1,
      (s.node.appendLocalEntry command payload).2.1.foldl RaftStorage.perform s.disk⟩ := by
  have hindex := index_appendLocalEntry h.contiguous command payload
  refine ⟨?_, h.included, h.contiguous.concat hindex⟩
  show [_].foldl (fun rows e => insertOrReplace e rows) s.disk.raftLog = s.node.log ++ [_]
  rw [List.foldl_cons, List.foldl_nil, h.stored, insertOrReplace_of_lt]
  intro r hr
  refine (h.contiguous.index_le hr).2.trans_lt (lt_of_lt_of_eq ?_ hindex.symm)
  exact Nat.lt_succ_self _

theorem InStep.maybeSnapshot (h : s.InStep) (threshold : ℕ) :
    InStep ⟨(s.node.maybeSnapshot threshold).1,
      (s.node.maybeSnapshot threshold).2.foldl RaftStorage.perform s.disk⟩ := by
  by_cases hle : s.node.lastApplied ≤ s.node.snapshotIndex
  · have heq : s.node.maybeSnapshot threshold = (s.node, []) := by
      unfold RaftNode.maybeSnapshot
      rw [if_pos hle, ite_self]
    rw [heq]
    exact h
  · rcases RaftNode.maybeSnapshot_cases threshold s.node with heq | heq
    · rw [heq]
      exact h
    · rw [heq]
      have hle := (not_le.mp hle).le
      refine ⟨?_, rfl, ?_⟩
      · show s.disk.raftLog.filter _ = s.node.log.filter _
        rw [h.stored]
      · show Contiguous s.node.lastApplied (s.node.log.filter _)
        have hdrop := h.contiguous.drop (s.node.lastApplied - s.node.snapshotIndex)
        rw [h.contiguous.filter_lt hle]
        rwa [Nat.add_sub_cancel' hle] at hdrop

/-- A restart reads back the log that the node had. -/
theorem InStep.boot (h : s.InStep) : (RaftNode.boot s.disk).log = s.node.log ∧
    (RaftNode.boot s.disk).snapshotIndex = s.node.snapshotIndex := by
  rw [RaftNode.boot_eq]
  refine ⟨?_, h.included⟩
  simp only
  split_ifs
  · exact h.stored
  · rw [h.stored, h.included, h.contiguous.filter_lt le_rfl, Nat.sub_self, List.drop_zero]

/-- A request leaves the snapshot of the node alone. -/
theorem snapshotIndex_handleAppendEntries (nd : RaftNode N P) (req : AppendEntriesRequest N P) :
    (nd.handleAppendEntries req).1.snapshotIndex = nd.snapshotIndex := by
  have hfollowed : (nd.followed req).snapshotIndex = nd.snapshotIndex := by
    unfold RaftNode.followed RaftNode.becomeFollower
    split_ifs <;> rfl
  by_cases hlt : req.term < nd.currentTerm
  · rw [RaftNode.handleAppendEntries_of_lt hlt]
  · rcases hprev : nd.prevMatches req with _ | _
    · rw [RaftNode.handleAppendEntries_of_mismatch (not_lt.mp hlt) hprev]
      exact hfollowed
    · rw [RaftNode.handleAppendEntries_of_match (not_lt.mp hlt) hprev]
      unfold RaftNode.followCommit
      split_ifs
      · rw [RaftNode.applyPendingCommits_eq]
        exact hfollowed
      · exact hfollowed

/-- A request that is refused, or has no entries, leaves the log, the stored log and the snapshot. -/
theorem handleAppendEntries_of_no_entries {nd : RaftNode N P} {req : AppendEntriesRequest N P}
    (h : req.entries = [] ∨ req.term < nd.currentTerm ∨ nd.prevMatches req = false)
    (d : RaftStorage N P) : (nd.handleAppendEntries req).1.log = nd.log ∧
      ((nd.handleAppendEntries req).2.1.foldl RaftStorage.perform d).raftLog = d.raftLog ∧
      ((nd.handleAppendEntries req).2.1.foldl RaftStorage.perform d).lastIncludedIndex =
        d.lastIncludedIndex := by
  by_cases hlt : req.term < nd.currentTerm
  · rw [RaftNode.handleAppendEntries_of_lt hlt]
    exact ⟨rfl, rfl, rfl⟩
  · rcases hprev : nd.prevMatches req with _ | _
    · rw [RaftNode.handleAppendEntries_of_mismatch (not_lt.mp hlt) hprev]
      exact ⟨nd.followed_log req, rfl, rfl⟩
    · have hnil : req.entries = [] := by simpa [hlt, hprev] using h
      rw [RaftNode.handleAppendEntries_of_match (not_lt.mp hlt) hprev, hnil]
      simp only [List.foldl_append, RaftNode.foldl_followCommit]
      exact ⟨(RaftNode.followCommit_frame _ _).log, rfl, rfl⟩

theorem InStep.handleAppendEntries (h : s.InStep) {req : AppendEntriesRequest N P}
    (hcons : Consistent s.node.log req)
    (hkeeps : s.KeepsPositions (.handleAppendEntries req)) :
    InStep ⟨(s.node.handleAppendEntries req).1,
      (s.node.handleAppendEntries req).2.1.foldl RaftStorage.perform s.disk⟩ := by
  have hsnap := snapshotIndex_handleAppendEntries s.node req
  by_cases hno : req.entries = [] ∨ req.term < s.node.currentTerm ∨ s.node.prevMatches req = false
  · obtain ⟨hlog, hstored, hincl⟩ := handleAppendEntries_of_no_entries hno s.disk
    refine ⟨?_, ?_, ?_⟩
    · exact hstored.trans (h.stored.trans hlog.symm)
    · exact hincl.trans (h.included.trans hsnap.symm)
    · show Contiguous _ _
      rw [hsnap, hlog]
      exact h.contiguous
  · -- positions are indexes
    have hzero : s.node.snapshotIndex = 0 := by
      unfold KeepsPositions at hkeeps
      tauto
    have hlt : ¬ req.term < s.node.currentTerm := fun hlt => hno (Or.inr (Or.inl hlt))
    have hal : Aligned s.node.log := contiguous_zero.mp (hzero ▸ h.contiguous)
    have hstored := RaftNode.stored_handleAppendEntries hcons hal h.stored
    rw [if_neg hlt] at hstored
    rw [hstored]
    refine ⟨rfl, h.included.trans hsnap.symm, ?_⟩
    show Contiguous _ _
    rw [hsnap, hzero]
    exact contiguous_zero.mpr (RaftNode.consistent_handleAppendEntries hcons hal).2

theorem InStep.step (h : s.InStep) (harr : s.Arrives ev) (hkeeps : s.KeepsPositions ev)
    (hstep : s.step ev = some s') : s'.InStep := by
  cases ev with
  | appendLocalEntry command payload =>
      obtain rfl := Option.some.inj hstep
      exact h.appendLocalEntry command payload
  | handleAppendEntries req =>
      obtain rfl := Option.some.inj hstep
      exact h.handleAppendEntries harr hkeeps
  | maybeSnapshot threshold =>
      obtain rfl := Option.some.inj hstep
      exact h.maybeSnapshot threshold
  | restart =>
      obtain rfl := Option.some.inj hstep
      obtain ⟨hlog, hsnap⟩ := h.boot
      refine ⟨h.stored.trans hlog.symm, h.included.trans hsnap.symm, ?_⟩
      show Contiguous _ _
      rw [hlog, hsnap]
      exact h.contiguous

/-- After every run in which the log is not compacted when entries are taken, the stored entries are
those of the log, and a restart reads them back. -/
theorem stored_eq_log {evs : List (LogEvent N P)}
    (h : Reaches step (fun s ev => Arrives s ev ∧ KeepsPositions s ev) init evs s) :
    s.disk.raftLog = s.node.log ∧ (RaftNode.boot s.disk).log = s.node.log := by
  have hin : s.InStep :=
    h.induction (fun s ev s' hs hC hstep => hs.step hC.1 hC.2 hstep) inStep_init
  exact ⟨hin.stored, hin.boot.1⟩

/-- The first entries of a leader that has committed one of them. -/
def firstEntries : AppendEntriesRequest String Unit where
  term := 1
  leaderId := "node2"
  prevLogIndex := 0
  prevLogTerm := 0
  entries := [bare 1 1, bare 2 1]
  leaderCommit := 1

/-- The request that is the first of all is consistent with every log that has none but its entries. -/
theorem consistent_firstEntries {L : List (LogEntry Unit)} (h : ∀ e ∈ L, e ∈ firstEntries.entries) :
    Consistent L firstEntries where
  consecutive := by
    rintro (_ | _ | i) e he
    all_goals simp [firstEntries] at he
    all_goals subst he; rfl
  same a ha e he hindex _ := by
    have ha := h a ha
    simp only [firstEntries, List.mem_cons, List.not_mem_nil, or_false] at ha he
    rcases ha with rfl | rfl <;> rcases he with rfl | rfl <;> first | rfl | cases hindex

/-- Entries are taken, compacted and read back. -/
theorem stored_eq_log_compacted : ∃ s : Durable String Unit,
    s.disk.raftLog = s.node.log ∧ (RaftNode.boot s.disk).log = s.node.log ∧
      s.node.log = [bare 2 1] := by
  have hrun : Reaches step (fun s ev => Arrives s ev ∧ KeepsPositions s ev) init
      [.handleAppendEntries firstEntries, .maybeSnapshot 1, .restart] _ :=
    .cons ⟨consistent_firstEntries (by decide), Or.inr (Or.inr (Or.inr rfl))⟩ rfl
      (.cons ⟨trivial, trivial⟩ rfl (.cons ⟨trivial, trivial⟩ rfl (.nil _)))
  obtain ⟨hstored, hboot⟩ := stored_eq_log hrun
  exact ⟨_, hstored, hboot, by decide⟩

/-- A request that a leader sends again, after the follower has compacted its log: the entry that is
left is at the first position, so that it is appended a second time, and the compacted one is stored
again. -/
theorem stored_counterexample : ¬ ∀ (evs : List (LogEvent String Unit)) (s : Durable String Unit),
    Reaches step Arrives init evs s → s.disk.raftLog = s.node.log := by
  intro h
  have hrun : Reaches step Arrives init [.handleAppendEntries firstEntries, .maybeSnapshot 1,
      .handleAppendEntries firstEntries] _ :=
    .cons (consistent_firstEntries (by decide)) rfl (.cons trivial rfl
      (.cons (consistent_firstEntries (by decide)) rfl (.nil _)))
  have hlog := h _ _ hrun
  revert hlog
  decide

end Durable

end NanoFabric.Raft
