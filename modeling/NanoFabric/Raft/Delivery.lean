import NanoFabric.Raft.LogRefinement

/-!
# What a block hands to the state machine

`Delivers`: the entries a block hands to `apply` and the snapshot it takes, against the abstract
log its node has then, and that what the node counts as committed is.

* `Idle` — blocks that hand nothing on.
* `Delivers.of_idle`, `delivers_advanceCommitIndex`, `delivers_followCommit` — the kinds of blocks.
* `chosen_of_commits` — what `_advance_commit_index` counts replicas for is chosen.
-/

namespace NanoFabric.Raft

open Found Found.ReplicatedLog

variable {N P : Type} [DecidableEq N]

/-! ## Blocks that hand nothing on -/

/-- The block leaves what its node has committed, applied, compacted and counted of its peers. -/
structure Idle (nd nd' : RaftNode N P) (effs : List (Effect N P)) : Prop where
  commitIndex : nd'.commitIndex = nd.commitIndex
  lastApplied : nd'.lastApplied = nd.lastApplied
  snapshotIndex : nd'.snapshotIndex = nd.snapshotIndex
  stateMachine : nd'.stateMachine = nd.stateMachine
  matchIndex : nd'.matchIndex = nd.matchIndex
  noOutput : ∀ e ∈ effs, e.isOutput = false

namespace RaftNode

omit [DecidableEq N] in
theorem idle_becomeFollower (nd : RaftNode N P) (term : ℕ) (leader : Option N) :
    Idle nd (nd.becomeFollower term leader).1 (nd.becomeFollower term leader).2 := by
  unfold becomeFollower
  split_ifs <;> exact ⟨rfl, rfl, rfl, rfl, rfl, by simp [persistState, Effect.isOutput]⟩

theorem idle_handleRequestVote (nd : RaftNode N P) (req : RequestVoteRequest N) :
    Idle nd (nd.handleRequestVote req).1 (nd.handleRequestVote req).2.1 := by
  rcases handleRequestVote_cases nd req with ⟨-, heq⟩ | ⟨nd', effs, -, hnd', heq⟩
  · rw [heq]
    exact ⟨rfl, rfl, rfl, rfl, rfl, by simp⟩
  have hidle : Idle nd nd' effs := by
    rcases hnd' with ⟨rfl, rfl, -⟩ | ⟨-, rfl, rfl⟩
    · exact ⟨rfl, rfl, rfl, rfl, rfl, by simp⟩
    · exact nd.idle_becomeFollower req.term none
  rcases heq with heq | ⟨-, -, heq⟩
  · rw [heq]
    exact hidle
  · rw [heq]
    refine ⟨hidle.commitIndex, hidle.lastApplied, hidle.snapshotIndex, hidle.stateMachine,
      hidle.matchIndex, fun e he => ?_⟩
    rcases List.mem_append.mp he with he | he
    · exact hidle.noOutput e he
    · rw [List.mem_singleton.mp he]
      rfl

omit [DecidableEq N] in
theorem idle_handleVoteResponse (nd : RaftNode N P) (resp : RequestVoteResponse) :
    Idle nd (nd.handleVoteResponse resp).1 (nd.handleVoteResponse resp).2.1 := by
  rcases handleVoteResponse_cases nd resp with ⟨-, heq⟩ | ⟨-, heq⟩ | heq
  · rw [heq]
    exact nd.idle_becomeFollower resp.term none
  · rw [heq]
    exact ⟨rfl, rfl, rfl, rfl, rfl, by simp⟩
  · rw [heq]
    exact ⟨rfl, rfl, rfl, rfl, rfl, by simp⟩

omit [DecidableEq N] in
theorem isOutput_appendLoop : ∀ (entries log : List (LogEntry P)),
    ∀ e ∈ (appendLoop (N := N) log entries).2, e.isOutput = false
  | [], _, _, he => by simp [appendLoop] at he
  | entry :: entries, log, e, he => by
      unfold appendLoop at he
      dsimp only at he
      split at he
      · rcases List.mem_cons.mp he with rfl | he
        · rfl
        · exact isOutput_appendLoop entries _ e he
      · exact isOutput_appendLoop entries _ e he

omit [DecidableEq N] in
theorem isOutput_storeEntries (entries : List (LogEntry P)) :
    ∀ e ∈ storeEntries (N := N) entries, e.isOutput = false := by
  unfold storeEntries
  split_ifs <;> simp [Effect.isOutput]

end RaftNode

/-! ## Delivering -/

/-- The entries a node hands on when it moves from `applied` applied entries to `applied'`. -/
abbrev delivered (s' : AbstractLog N P) (n : N) (nd nd' : RaftNode N P) : Applied P :=
  entriesFrom (s'.log n) nd.lastApplied (nd'.lastApplied - nd.lastApplied)

/-- The snapshot at the end of a block: none, or one of all the node has applied. -/
def Saves (nd nd' : RaftNode N P) (saved : List (Effect N P)) : Prop :=
  saved = [] ∧ nd'.snapshotIndex = nd.snapshotIndex ∨
    nd'.snapshotIndex = nd'.lastApplied ∧ ∃ term, saved = [.saveSnapshot nd'.lastApplied term nd'.stateMachine]

/-- **What a block hands on**, from a node that has applied all it has committed: the entries of
the abstract log up to its new commit index, which is committed, and then perhaps a snapshot. -/
structure Delivers (cfg : Config N) (s' : AbstractLog N P) (n : N) (nd nd' : RaftNode N P)
    (effs : List (Effect N P)) : Prop where
  split : ∃ changes saved, effs = changes ++ (applyEffects (delivered s' n nd nd') ++ saved) ∧
    (∀ e ∈ changes, e.isOutput = false) ∧ Saves nd nd' saved
  stateMachine : nd'.stateMachine = nd.stateMachine ++ delivered s' n nd nd'
  caught : nd'.lastApplied = nd'.commitIndex
  le : nd.lastApplied ≤ nd'.lastApplied
  committed : CommittedUpTo LogEntry.term cfg.quorums s' (s'.term n) (s'.log n) nd'.commitIndex

variable {cfg : Config N} {s s' : AbstractLog N P} {n : N} {nd nd₁ nd' : RaftNode N P}
  {effs changes : List (Effect N P)}

theorem Delivers.of_idle (h : Idle nd nd' effs) (hcaught : nd.lastApplied = nd.commitIndex)
    (hcommit : CommittedUpTo LogEntry.term cfg.quorums s' (s'.term n) (s'.log n) nd.commitIndex) :
    Delivers cfg s' n nd nd' effs := by
  have hnone : delivered s' n nd nd' = [] := by
    rw [delivered, h.lastApplied, Nat.sub_self]
    rfl
  refine ⟨⟨effs, [], ?_, h.noOutput, Or.inl ⟨rfl, h.snapshotIndex⟩⟩, ?_, ?_, h.lastApplied.ge, ?_⟩
  · rw [hnone]
    simp [applyEffects]
  · rw [hnone, List.append_nil, h.stateMachine]
  · rw [h.lastApplied, h.commitIndex, hcaught]
  · rw [h.commitIndex]
    exact hcommit

/-- The part of a block before it hands anything on. -/
theorem Delivers.of_idle_append (h : Idle nd nd₁ changes) (hd : Delivers cfg s' n nd₁ nd' effs) :
    Delivers cfg s' n nd nd' (changes ++ effs) := by
  have hsame : delivered s' n nd nd' = delivered s' n nd₁ nd' := by
    rw [delivered, delivered, h.lastApplied]
  obtain ⟨changes', saved, rfl, hno, hsaved⟩ := hd.split
  refine ⟨⟨changes ++ changes', saved, ?_, fun e he => ?_, ?_⟩, ?_, hd.caught, ?_, hd.committed⟩
  · rw [hsame, List.append_assoc]
  · exact (List.mem_append.mp he).elim (h.noOutput e) (hno e)
  · rw [Saves, ← h.snapshotIndex]
    exact hsaved
  · rw [hsame, ← h.stateMachine]
    exact hd.stateMachine
  · rw [← h.lastApplied]
    exact hd.le

/-- Applying what has been committed, with the log the abstract one, and then a snapshot or none. -/
theorem delivers_caughtUp (cfg : Config N) (nd : RaftNode N P) (hlog : nd.log = s'.log n) (hcaught : nd.lastApplied ≤ nd.commitIndex)
    (hcommit : CommittedUpTo LogEntry.term cfg.quorums s' (s'.term n) (s'.log n) nd.commitIndex)
    {saved : List (Effect N P)} (hmachine : nd'.stateMachine = nd.caughtUp.stateMachine)
    (hlast : nd'.lastApplied = nd.caughtUp.lastApplied) (hidx : nd'.commitIndex = nd.commitIndex)
    (hsaves : Saves nd nd' saved) :
    Delivers cfg s' n nd nd' (applyEffects nd.uncaught ++ saved) := by
  have hsame : delivered s' n nd nd' = nd.uncaught := by
    rw [delivered, hlast, ← hlog]
    show entriesFrom _ _ (nd.lastApplied + (nd.commitIndex - nd.lastApplied) - nd.lastApplied) = _
    rw [Nat.add_sub_cancel_left]
    rfl
  have happlied : nd'.lastApplied = nd.lastApplied + (nd.commitIndex - nd.lastApplied) := hlast
  refine ⟨⟨[], saved, ?_, by simp, hsaves⟩, ?_, ?_, ?_, ?_⟩
  · rw [hsame, List.nil_append]
  · rw [hsame, hmachine]
    rfl
  · omega
  · omega
  · rw [hidx]
    exact hcommit

/-- What a leader of its term counts replicas for in `_advance_commit_index` is chosen: its own log
counts, and each match index is acknowledged. -/
theorem chosen_of_commits (hs : Sound cfg s') (hlog : nd.log = s'.log n)
    (hnterm : s'.term n = nd.currentTerm) (hl : s'.leader nd.currentTerm = some n)
    (hmem : n ∈ cfg.members)
    (hmatch : ∀ p ∈ cfg.peers n, (nd.matchIndex p).getD 0 ≤ s'.acked nd.currentTerm p) {k : ℕ}
    (hpos : 0 < k) (hk : k ≤ nd.log.length) (hc : nd.commits (cfg.peers n) k = true) :
    CommittedUpTo LogEntry.term cfg.quorums s' (s'.term n) (s'.log n) k := by
  have hchain : s'.log n = s'.chain nd.currentTerm := by
    rw [← hnterm] at hl ⊢
    exact hs.inv.leader_log hl
  rw [hlog] at hk
  simp only [RaftNode.commits, hlog, Bool.and_eq_true, decide_eq_true_eq] at hc
  obtain ⟨hterm, hcount⟩ := hc
  obtain ⟨e, he, het⟩ := Option.map_eq_some_iff.mp hterm
  have hlen : ((s'.log n).take k).length = k := by rw [List.length_take, min_eq_left hk]
  have hown : Own LogEntry.term s' nd.currentTerm ((s'.log n).take k) := by
    refine ⟨hchain ▸ List.take_prefix _ _, (s'.log n).take (k - 1), e, ?_, het⟩
    have hlt : k - 1 < (s'.log n).length := by omega
    rw [← (List.getElem?_eq_some_iff.mp he).2, List.take_append_getElem hlt, Nat.sub_add_cancel hpos]
  -- the node itself, and the peers whose match index has reached `k`
  set R : Finset N := insert n ((cfg.peers n).filter fun p =>
    decide (k ≤ (nd.matchIndex p).getD 0)).toFinset with hR
  have hnotin : n ∉ ((cfg.peers n).filter fun p =>
      decide (k ≤ (nd.matchIndex p).getD 0)).toFinset := by
    simp [mem_peers]
  have hcard : R.card = nd.replicaCount (cfg.peers n) k := by
    have hnodup : ((cfg.peers n).filter fun p => decide (k ≤ (nd.matchIndex p).getD 0)).Nodup :=
      (cfg.nodup.filter _).filter _
    rw [hR, Finset.card_insert_of_notMem hnotin, List.toFinset_card_of_nodup hnodup, Nat.add_comm]
    rfl
  refine Or.inr ⟨nd.currentTerm, _, ⟨hown, R, ?_, fun m hm => ?_⟩, hnterm.ge, hlen.ge, ?_⟩
  · refine isQuorum_of_majorityCount hmem (fun m hm => ?_) (hcard ▸ hcount)
    rcases Finset.mem_insert.mp hm with rfl | hm
    · exact hmem
    · exact (mem_peers.mp (List.mem_of_mem_filter (List.mem_toFinset.mp hm))).1
  · rw [hlen]
    rcases Finset.mem_insert.mp hm with rfl | hm
    · exact (hk.trans (hchain ▸ le_rfl)).trans (hs.self_acked hl)
    · obtain ⟨hp, hreach⟩ := List.mem_filter.mp (List.mem_toFinset.mp hm)
      exact (of_decide_eq_true hreach).trans (hmatch m hp)
  · exact (List.take_prefix _ _).trans (List.take_prefix _ _)

/-- `_advance_commit_index`, on a node elected in its term. -/
theorem delivers_advanceCommitIndex (nd : RaftNode N P) (hs : Sound cfg s') (hlog : nd.log = s'.log n)
    (hnterm : s'.term n = nd.currentTerm) (hl : s'.leader nd.currentTerm = some n)
    (hmem : n ∈ cfg.members)
    (hmatch : ∀ p ∈ cfg.peers n, (nd.matchIndex p).getD 0 ≤ s'.acked nd.currentTerm p)
    (hcaught : nd.lastApplied = nd.commitIndex)
    (hcommit : CommittedUpTo LogEntry.term cfg.quorums s' (s'.term n) (s'.log n) nd.commitIndex)
    (threshold : ℕ) :
    Delivers cfg s' n nd (nd.advanceCommitIndex threshold (cfg.peers n)).1
      (nd.advanceCommitIndex threshold (cfg.peers n)).2 := by
  rcases RaftNode.advanceCommitIndex_cases threshold (cfg.peers n) nd with
    heq | ⟨k, hlt, hle, hcount, heq⟩
  · rw [heq]
    exact .of_idle ⟨rfl, rfl, rfl, rfl, rfl, by simp⟩ hcaught hcommit
  have hk := chosen_of_commits hs hlog hnterm hl hmem hmatch (Nat.zero_lt_of_lt hlt) hle hcount
  have hlast : nd.lastApplied ≤ k := hcaught.le.trans hlt.le
  have hraise : Idle nd { nd with commitIndex := nd.commitIndex } [] :=
    ⟨rfl, rfl, rfl, rfl, rfl, by simp⟩
  rw [heq]
  have hdel : ∀ nd' saved, nd'.stateMachine = { nd with commitIndex := k }.caughtUp.stateMachine →
      nd'.lastApplied = { nd with commitIndex := k }.caughtUp.lastApplied →
      nd'.commitIndex = k → Saves { nd with commitIndex := k } nd' saved →
      Delivers cfg s' n nd nd'
        (applyEffects { nd with commitIndex := k }.uncaught ++ saved) := by
    intro nd' saved hmachine happlied hidx hsaves
    have hd := delivers_caughtUp cfg { nd with commitIndex := k }
      hlog hlast hk hmachine happlied hidx hsaves
    exact ⟨hd.split, hd.stateMachine, hd.caught, hd.le, hd.committed⟩
  rcases RaftNode.maybeSnapshot_cases threshold { nd with commitIndex := k }.caughtUp with
    hs | hs
  · rw [hs]
    exact hdel _ _ rfl rfl rfl (Or.inl ⟨rfl, rfl⟩)
  · rw [hs]
    exact hdel _ _ rfl rfl rfl (Or.inr ⟨rfl, _, rfl⟩)

/-- The last part of `handle_append_entries`, when the log holds what the leader has committed. -/
theorem delivers_followCommit (hlog : nd.log = s'.log n) (hcaught : nd.lastApplied = nd.commitIndex)
    (hcommit : CommittedUpTo LogEntry.term cfg.quorums s' (s'.term n) (s'.log n) nd.commitIndex)
    {leaderCommit : ℕ}
    (hleader : CommittedUpTo LogEntry.term cfg.quorums s' (s'.term n) (s'.log n) leaderCommit) :
    Delivers cfg s' n nd (nd.followCommit leaderCommit).1 (nd.followCommit leaderCommit).2 := by
  unfold RaftNode.followCommit
  split_ifs with hlt
  · rw [RaftNode.applyPendingCommits_eq]
    have hmin : min leaderCommit nd.log.length = leaderCommit :=
      min_eq_left (hlog ▸ hleader.le_length)
    have hd := delivers_caughtUp cfg { nd with commitIndex := min leaderCommit nd.log.length } hlog
      (by rw [hmin, hcaught]; exact hlt.le) (by rw [hmin]; exact hleader) rfl rfl rfl
      (Or.inl ⟨rfl, rfl⟩)
    rw [List.append_nil] at hd
    exact ⟨hd.split, hd.stateMachine, hd.caught, hd.le, hd.committed⟩
  · exact .of_idle ⟨rfl, rfl, rfl, rfl, rfl, by simp⟩ hcaught hcommit

end NanoFabric.Raft
