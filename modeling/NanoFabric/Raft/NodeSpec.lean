import Mathlib.Order.MinMax
import NanoFabric.Raft.Node

/-!
# What the blocks of a node do

One lemma for each block of `NanoFabric.Raft.RaftNode` that later proofs cite in its place.

* `applyPendingCommits_eq` — the entries handed to `apply`, in closed form.
* `advanceCommitIndex_cases` — nothing, or one new commit index, perhaps with a snapshot after it.
* `Quiet` — blocks that leave the term, the vote and the role alone.
* `Forwards` — the stored term and vote only ever move forward (`Forward`).
-/

namespace NanoFabric.Raft

variable {N P : Type}

/-- The entries at the positions from `k + 1` to `k + fuel` of a log, each with its position. -/
def entriesFrom (log : List (LogEntry P)) (k fuel : ℕ) : Applied P :=
  (List.range' (k + 1) fuel).filterMap fun i => (log[i - 1]?).map fun e => (i, e)

/-- The calls of `apply` for a list of entries with their positions. -/
def applyEffects (es : Applied P) : List (Effect N P) := es.map fun p => .apply p.1 p.2

theorem mem_entriesFrom {log : List (LogEntry P)} {k fuel i : ℕ} {e : LogEntry P} :
    (i, e) ∈ entriesFrom log k fuel ↔ k < i ∧ i ≤ k + fuel ∧ log[i - 1]? = some e := by
  simp only [entriesFrom, List.mem_filterMap, List.mem_range'_1, Option.map_eq_some_iff,
    Prod.mk.injEq]
  constructor
  · rintro ⟨j, hj, a, ha, rfl, rfl⟩
    exact ⟨by omega, by omega, ha⟩
  · rintro ⟨hk, hi, he⟩
    exact ⟨i, by omega, e, he, rfl, rfl⟩

theorem mem_applyEffects {es : Applied P} {k : ℕ} {e : LogEntry P} :
    (Effect.apply k e : Effect N P) ∈ applyEffects es ↔ (k, e) ∈ es := by
  simp only [applyEffects, List.mem_map, Effect.apply.injEq]
  constructor
  · rintro ⟨⟨k', e'⟩, h, rfl, rfl⟩
    exact h
  · exact fun h => ⟨(k, e), h, rfl, rfl⟩

/-- The calls of `apply` leave the database alone. -/
theorem foldl_applyEffects (es : Applied P) (d : RaftStorage N P) :
    (applyEffects es).foldl RaftStorage.perform d = d := by
  induction es with
  | nil => rfl
  | cons e es ih => exact ih

/-- Positions that the log has are all handed over. -/
theorem entriesFrom_fst {log : List (LogEntry P)} {k : ℕ} :
    ∀ {fuel : ℕ}, k + fuel ≤ log.length →
      (entriesFrom log k fuel).map Prod.fst = List.range' (k + 1) fuel := by
  intro fuel h
  have hall : ∀ i ∈ List.range' (k + 1) fuel, ∃ e, log[i - 1]? = some e := by
    intro i hi
    rw [List.mem_range'_1] at hi
    exact ⟨log[i - 1], List.getElem?_eq_getElem (by omega)⟩
  rw [entriesFrom, List.map_filterMap]
  calc (List.range' (k + 1) fuel).filterMap (fun i => Option.map Prod.fst
          ((log[i - 1]?).map fun e => (i, e)))
      = (List.range' (k + 1) fuel).filterMap some := by
        refine List.filterMap_congr fun i hi => ?_
        obtain ⟨e, he⟩ := hall i hi
        simp [he]
    _ = List.range' (k + 1) fuel := List.filterMap_some

namespace RaftNode

/-! ## Applying and committing -/

/-- The loop of `_apply_pending_commits` hands over the entries at the next positions. -/
theorem applyLoop_eq : ∀ (fuel : ℕ) (nd : RaftNode N P), applyLoop fuel nd =
    ({ nd with
        lastApplied := nd.lastApplied + fuel
        stateMachine := nd.stateMachine ++ entriesFrom nd.log nd.lastApplied fuel },
      applyEffects (entriesFrom nd.log nd.lastApplied fuel))
  | 0, nd => by simp [applyLoop, entriesFrom, applyEffects]
  | fuel + 1, nd => by
      have hnext : entriesFrom nd.log nd.lastApplied (fuel + 1) =
          ((nd.log[nd.lastApplied]?).map fun e => (nd.lastApplied + 1, e)).toList ++
            entriesFrom nd.log (nd.lastApplied + 1) fuel := by
        rw [entriesFrom, List.range'_succ, List.filterMap_cons]
        cases h : nd.log[nd.lastApplied]? <;> simp [h, entriesFrom]
      rw [applyLoop, hnext]
      cases h : nd.log[nd.lastApplied]? with
      | none =>
          simp only [Nat.add_sub_cancel, h, Option.map_none, Option.toList_none, List.nil_append]
          rw [applyLoop_eq fuel]
          simp only [Nat.add_assoc, Nat.add_comm 1 fuel]
      | some e =>
          simp only [Nat.add_sub_cancel, h, Option.map_some, Option.toList_some]
          rw [applyLoop_eq fuel]
          simp only [Nat.add_assoc, Nat.add_comm 1 fuel, List.append_assoc, List.singleton_append,
            applyEffects, List.map_cons]

/-- The node once it has applied what it has committed. -/
def caughtUp (nd : RaftNode N P) : RaftNode N P :=
  { nd with
    lastApplied := nd.lastApplied + (nd.commitIndex - nd.lastApplied)
    stateMachine := nd.stateMachine ++
      entriesFrom nd.log nd.lastApplied (nd.commitIndex - nd.lastApplied) }

/-- The entries the node has committed and not applied yet. -/
def uncaught (nd : RaftNode N P) : Applied P :=
  entriesFrom nd.log nd.lastApplied (nd.commitIndex - nd.lastApplied)

theorem applyPendingCommits_eq (nd : RaftNode N P) :
    nd.applyPendingCommits = (nd.caughtUp, applyEffects nd.uncaught) :=
  applyLoop_eq _ nd

/-- A snapshot is of what has been applied, and leaves the rest of the log. -/
theorem maybeSnapshot_cases (threshold : ℕ) (nd : RaftNode N P) :
    nd.maybeSnapshot threshold = (nd, []) ∨
      nd.maybeSnapshot threshold = (nd.onSnapshotCreated nd.lastApplied,
        [.saveSnapshot nd.lastApplied (nd.logTermAt nd.lastApplied) nd.stateMachine]) := by
  unfold maybeSnapshot
  split_ifs
  · exact Or.inl rfl
  · exact Or.inl rfl
  · exact Or.inr rfl

theorem mem_commitCandidates {nd : RaftNode N P} {n : ℕ} :
    n ∈ nd.commitCandidates ↔ nd.commitIndex < n ∧ n ≤ nd.log.length := by
  simp only [commitCandidates, List.mem_reverse, List.mem_range'_1]
  omega

/-- `_advance_commit_index` does nothing, or commits one position of the log it has counted
replicas for, applies up to it and perhaps takes a snapshot. -/
theorem advanceCommitIndex_cases (threshold : ℕ) (peers : List N) (nd : RaftNode N P) :
    nd.advanceCommitIndex threshold peers = (nd, []) ∨
      ∃ n, nd.commitIndex < n ∧ n ≤ nd.log.length ∧ nd.commits peers n = true ∧
        nd.advanceCommitIndex threshold peers =
          ((maybeSnapshot threshold { nd with commitIndex := n }.caughtUp).1,
            applyEffects { nd with commitIndex := n }.uncaught ++
              (maybeSnapshot threshold { nd with commitIndex := n }.caughtUp).2) := by
  cases hfind : nd.commitCandidates.find? (nd.commits peers) with
  | none =>
      refine Or.inl ?_
      unfold advanceCommitIndex
      rw [hfind]
  | some n =>
      obtain ⟨hlt, hle⟩ := mem_commitCandidates.mp (List.mem_of_find?_eq_some hfind)
      refine Or.inr ⟨n, hlt, hle, List.find?_some hfind, ?_⟩
      unfold advanceCommitIndex
      rw [hfind]
      simp only [applyPendingCommits_eq]

/-! ## Blocks that leave the term, the vote and the role alone -/

/-- The block stored no term or vote and left those of the node, and its role, as they were. -/
structure Quiet (nd nd' : RaftNode N P) (effs : List (Effect N P)) : Prop where
  term : nd'.currentTerm = nd.currentTerm
  votedFor : nd'.votedFor = nd.votedFor
  role : nd'.role = nd.role
  votesReceived : nd'.votesReceived = nd.votesReceived
  effects : ∀ t v, Effect.setState t v ∉ effs

theorem Quiet.rfl {nd : RaftNode N P} : Quiet nd nd [] :=
  ⟨Eq.refl _, Eq.refl _, Eq.refl _, Eq.refl _, fun _ _ => List.not_mem_nil⟩

theorem Quiet.trans {nd nd' nd'' : RaftNode N P} {effs effs' : List (Effect N P)}
    (h : Quiet nd nd' effs) (h' : Quiet nd' nd'' effs') : Quiet nd nd'' (effs ++ effs') :=
  ⟨h'.term.trans h.term, h'.votedFor.trans h.votedFor, h'.role.trans h.role,
    h'.votesReceived.trans h.votesReceived, fun t v he => (List.mem_append.mp he).elim
      (h.effects t v) (h'.effects t v)⟩

theorem setState_not_mem_applyEffects (es : Applied P) (t : ℕ) (v : Option N) :
    Effect.setState t v ∉ applyEffects es := by
  simp [applyEffects]

theorem quiet_caughtUp (nd : RaftNode N P) : Quiet nd nd.caughtUp (applyEffects nd.uncaught) :=
  ⟨rfl, rfl, rfl, rfl, setState_not_mem_applyEffects _⟩

theorem quiet_maybeSnapshot (threshold : ℕ) (nd : RaftNode N P) :
    Quiet nd (nd.maybeSnapshot threshold).1 (nd.maybeSnapshot threshold).2 := by
  rcases maybeSnapshot_cases threshold nd with h | h
  · rw [h]
    exact .rfl
  · rw [h]
    exact ⟨rfl, rfl, rfl, rfl, by simp⟩

theorem quiet_advanceCommitIndex (threshold : ℕ) (peers : List N) (nd : RaftNode N P) :
    Quiet nd (nd.advanceCommitIndex threshold peers).1
      (nd.advanceCommitIndex threshold peers).2 := by
  rcases advanceCommitIndex_cases threshold peers nd with h | ⟨n, -, -, -, h⟩
  · rw [h]
    exact .rfl
  · rw [h]
    have hcommit : Quiet nd { nd with commitIndex := n } [] :=
      ⟨rfl, rfl, rfl, rfl, fun _ _ => List.not_mem_nil⟩
    exact hcommit.trans ((quiet_caughtUp _).trans (quiet_maybeSnapshot threshold _))

/-- What a leader counts of its peers changes with their responses only. -/
theorem advanceCommitIndex_peers (threshold : ℕ) (peers : List N) (nd : RaftNode N P) :
    (nd.advanceCommitIndex threshold peers).1.nextIndex = nd.nextIndex ∧
      (nd.advanceCommitIndex threshold peers).1.matchIndex = nd.matchIndex := by
  rcases advanceCommitIndex_cases threshold peers nd with heq | ⟨k, -, -, -, heq⟩
  · rw [heq]
    exact ⟨rfl, rfl⟩
  · rw [heq]
    rcases maybeSnapshot_cases threshold { nd with commitIndex := k }.caughtUp with hs | hs
    · rw [hs]
      exact ⟨rfl, rfl⟩
    · rw [hs]
      exact ⟨rfl, rfl⟩

theorem quiet_followCommit (nd : RaftNode N P) (leaderCommit : ℕ) :
    Quiet nd (nd.followCommit leaderCommit).1 (nd.followCommit leaderCommit).2 := by
  unfold followCommit
  split_ifs
  · rw [applyPendingCommits_eq]
    exact ⟨rfl, rfl, rfl, rfl, setState_not_mem_applyEffects _⟩
  · exact .rfl

/-- The nodes have the same leader, log, snapshot and match indexes, as when they differ in what is
committed and applied. -/
structure UpToCommit (nd nd' : RaftNode N P) : Prop where
  leaderId : nd'.leaderId = nd.leaderId
  log : nd'.log = nd.log
  snapshotIndex : nd'.snapshotIndex = nd.snapshotIndex
  snapshotTerm : nd'.snapshotTerm = nd.snapshotTerm
  matchIndex : nd'.matchIndex = nd.matchIndex

theorem followCommit_frame (nd : RaftNode N P) (leaderCommit : ℕ) :
    UpToCommit nd (nd.followCommit leaderCommit).1 := by
  unfold followCommit
  split_ifs
  · rw [applyPendingCommits_eq]
    exact ⟨rfl, rfl, rfl, rfl, rfl⟩
  · exact ⟨rfl, rfl, rfl, rfl, rfl⟩

/-- The locked append of `propose` appends, and commits at once if there are no peers. -/
theorem proposeLocked_cases (threshold : ℕ) (peers : List N) (nd : RaftNode N P)
    (command : CommandType) (payload : P) :
    (peers ≠ [] ∧ nd.proposeLocked threshold peers command payload =
      nd.appendLocalEntry command payload) ∨
    (peers = [] ∧ nd.proposeLocked threshold peers command payload =
      (((nd.appendLocalEntry command payload).1.advanceCommitIndex threshold peers).1,
        (nd.appendLocalEntry command payload).2.1 ++
          ((nd.appendLocalEntry command payload).1.advanceCommitIndex threshold peers).2,
        (nd.appendLocalEntry command payload).2.2)) := by
  unfold proposeLocked
  split_ifs with hpeers
  · exact Or.inr ⟨hpeers, rfl⟩
  · exact Or.inl ⟨hpeers, rfl⟩

theorem quiet_proposeLocked (threshold : ℕ) (peers : List N) (nd : RaftNode N P)
    (command : CommandType) (payload : P) :
    Quiet nd (nd.proposeLocked threshold peers command payload).1
      (nd.proposeLocked threshold peers command payload).2.1 := by
  have happend : Quiet nd (nd.appendLocalEntry command payload).1
      (nd.appendLocalEntry command payload).2.1 := ⟨rfl, rfl, rfl, rfl, by simp [appendLocalEntry]⟩
  rcases proposeLocked_cases threshold peers nd command payload with ⟨-, h⟩ | ⟨-, h⟩
  · rw [h]
    exact happend
  · rw [h]
    exact happend.trans (quiet_advanceCommitIndex threshold peers _)

theorem setState_not_mem_appendLoop (t : ℕ) (v : Option N) : ∀ (entries log : List (LogEntry P)),
    Effect.setState t v ∉ (appendLoop (N := N) log entries).2
  | [], _ => List.not_mem_nil
  | entry :: entries, log => by
      unfold appendLoop
      dsimp only
      split
      · rw [List.mem_cons, not_or]
        exact ⟨nofun, setState_not_mem_appendLoop t v entries _⟩
      · exact setState_not_mem_appendLoop t v entries _

/-! ## The stored term and vote -/

end RaftNode

/-- The term and vote in storage after an effect. -/
def Effect.stored (s : ℕ × Option N) : Effect N P → ℕ × Option N
  | .setState currentTerm votedFor => (currentTerm, votedFor)
  | _ => s

/-- A later term, or the same term with the vote given or as it was. -/
def Forward (s s' : ℕ × Option N) : Prop := s.1 < s'.1 ∨ s.1 = s'.1 ∧ (s.2 = none ∨ s'.2 = s.2)

/-- The effects move the stored term and vote forward one after the other, from `s` to `s'`. -/
def Forwards : ℕ × Option N → List (Effect N P) → ℕ × Option N → Prop
  | s, [], s' => s = s'
  | s, e :: effs, s' => Forward s (e.stored s) ∧ Forwards (e.stored s) effs s'

theorem Forward.refl (s : ℕ × Option N) : Forward s s := Or.inr ⟨rfl, Or.inr rfl⟩

theorem Forwards.append : ∀ {effs effs' : List (Effect N P)} {s s' s'' : ℕ × Option N},
    Forwards s effs s' → Forwards s' effs' s'' → Forwards s (effs ++ effs') s''
  | [], _, _, _, _, h, h' => by
      obtain rfl := h
      exact h'
  | _ :: _, _, _, _, _, h, h' => ⟨h.1, h.2.append h'⟩

theorem Forwards.take : ∀ {effs : List (Effect N P)} {s s' : ℕ × Option N} (k : ℕ),
    Forwards s effs s' → ∃ s'', Forwards s (effs.take k) s''
  | [], s, _, k, _ => ⟨s, by rw [List.take_nil]; exact rfl⟩
  | _ :: _, s, _, 0, _ => ⟨s, rfl⟩
  | _ :: _, _, _, k + 1, h => (h.2.take k).imp fun _ h' => ⟨h.1, h'⟩

theorem forwards_of_no_setState : ∀ {effs : List (Effect N P)} (s : ℕ × Option N),
    (∀ t v, Effect.setState t v ∉ effs) → Forwards s effs s
  | [], _, _ => rfl
  | e :: effs, s, h => by
      have he : e.stored s = s := by
        cases e with
        | setState t v => exact absurd List.mem_cons_self (h t v)
        | _ => rfl
      refine ⟨he.symm ▸ Forward.refl s, ?_⟩
      rw [he]
      exact forwards_of_no_setState s fun t v hmem => h t v (List.mem_cons_of_mem _ hmem)

namespace RaftNode

/-- The term and vote of a node, as it stores them. -/
def stored (nd : RaftNode N P) : ℕ × Option N := (nd.currentTerm, nd.votedFor)

theorem Quiet.forwards {nd nd' : RaftNode N P} {effs : List (Effect N P)}
    (h : Quiet nd nd' effs) : Forwards nd.stored effs nd'.stored := by
  have hs : nd'.stored = nd.stored := Prod.ext h.term h.votedFor
  exact hs ▸ forwards_of_no_setState nd.stored h.effects

theorem becomeFollower_currentTerm (nd : RaftNode N P) (term : ℕ) (leader : Option N) :
    (nd.becomeFollower term leader).1.currentTerm = max nd.currentTerm term := by
  unfold becomeFollower
  split_ifs with h
  · exact (max_eq_right h.le).symm
  · exact (max_eq_left (not_lt.mp h)).symm

theorem becomeFollower_votedFor (nd : RaftNode N P) (term : ℕ) (leader : Option N) :
    (nd.becomeFollower term leader).1.votedFor =
      if nd.currentTerm < term then none else nd.votedFor := by
  unfold becomeFollower
  split_ifs <;> rfl

@[simp] theorem becomeFollower_role (nd : RaftNode N P) (term : ℕ) (leader : Option N) :
    (nd.becomeFollower term leader).1.role = .follower := rfl

theorem becomeFollower_effects (nd : RaftNode N P) (term : ℕ) (leader : Option N) :
    (nd.becomeFollower term leader).2 = [(nd.becomeFollower term leader).1.persistState] := rfl

theorem forwards_becomeFollower (nd : RaftNode N P) (term : ℕ) (leader : Option N) :
    Forwards nd.stored (nd.becomeFollower term leader).2
      (nd.becomeFollower term leader).1.stored := by
  refine ⟨?_, rfl⟩
  show Forward nd.stored (nd.becomeFollower term leader).1.stored
  by_cases h : nd.currentTerm < term
  · refine Or.inl ?_
    show nd.currentTerm < (nd.becomeFollower term leader).1.currentTerm
    rw [becomeFollower_currentTerm]
    exact lt_max_of_lt_right h
  · refine Or.inr ⟨?_, Or.inr ?_⟩
    · show nd.currentTerm = (nd.becomeFollower term leader).1.currentTerm
      rw [becomeFollower_currentTerm, max_eq_left (not_lt.mp h)]
    · show (nd.becomeFollower term leader).1.votedFor = nd.votedFor
      rw [becomeFollower_votedFor, if_neg h]

theorem forwards_startElection (self : N) (nd : RaftNode N P) :
    Forwards nd.stored (nd.startElection self).2 (nd.startElection self).1.stored :=
  ⟨Or.inl (Nat.lt_succ_self nd.currentTerm), rfl⟩

/-- A vote response ends the election by its term, or is counted, or is not. -/
theorem handleVoteResponse_cases (nd : RaftNode N P) (resp : RequestVoteResponse) :
    (nd.currentTerm < resp.term ∧ nd.handleVoteResponse resp =
      ((nd.becomeFollower resp.term none).1, (nd.becomeFollower resp.term none).2, false)) ∨
    (resp.voteGranted = true ∧ nd.handleVoteResponse resp =
      ({ nd with votesReceived := nd.votesReceived + 1 }, [], true)) ∨
    nd.handleVoteResponse resp = (nd, [], true) := by
  unfold handleVoteResponse
  split_ifs with hterm hgrant
  · exact Or.inl ⟨hterm, rfl⟩
  · exact Or.inr (Or.inl ⟨hgrant, rfl⟩)
  · exact Or.inr (Or.inr rfl)

theorem forwards_handleVoteResponse (nd : RaftNode N P) (resp : RequestVoteResponse) :
    Forwards nd.stored (nd.handleVoteResponse resp).2.1 (nd.handleVoteResponse resp).1.stored := by
  rcases handleVoteResponse_cases nd resp with ⟨-, h⟩ | ⟨-, h⟩ | h
  · rw [h]
    exact nd.forwards_becomeFollower resp.term none
  · rw [h]
    exact rfl
  · rw [h]
    exact rfl

section requests

variable [DecidableEq N]

/-- `handle_request_vote` refuses, after it has followed a later term, or votes for the candidate
of its term whose log is up to date. -/
theorem handleRequestVote_cases (nd : RaftNode N P) (req : RequestVoteRequest N) :
    (req.term < nd.currentTerm ∧ nd.handleRequestVote req = (nd, [], ⟨nd.currentTerm, false⟩)) ∨
    ∃ nd' effs, nd.currentTerm ≤ req.term ∧
      (nd' = nd ∧ effs = [] ∧ nd.currentTerm = req.term ∨
        nd.currentTerm < req.term ∧ nd' = (nd.becomeFollower req.term none).1 ∧
          effs = (nd.becomeFollower req.term none).2) ∧
      (nd.handleRequestVote req = (nd', effs, ⟨nd'.currentTerm, false⟩) ∨
        (nd'.votedFor = none ∨ nd'.votedFor = some req.candidateId) ∧
        isLogUpToDate req.lastLogIndex req.lastLogTerm nd'.lastLogInfo.1 nd'.lastLogInfo.2 = true ∧
        nd.handleRequestVote req = ({ nd' with votedFor := some req.candidateId },
          effs ++ [.setState nd'.currentTerm (some req.candidateId)], ⟨nd'.currentTerm, true⟩)) := by
  by_cases hlt : req.term < nd.currentTerm
  · refine Or.inl ⟨hlt, ?_⟩
    unfold handleRequestVote
    rw [if_pos hlt]
  · refine Or.inr ?_
    by_cases hnew : nd.currentTerm < req.term
    · refine ⟨(nd.becomeFollower req.term none).1, (nd.becomeFollower req.term none).2,
        not_lt.mp hlt, Or.inr ⟨hnew, rfl, rfl⟩, ?_⟩
      unfold handleRequestVote
      rw [if_neg hlt, if_pos hnew]
      dsimp only
      split_ifs with hgrant
      · exact Or.inr ⟨hgrant.1, hgrant.2, rfl⟩
      · exact Or.inl rfl
    · refine ⟨nd, [], not_lt.mp hlt, Or.inl ⟨rfl, rfl, by omega⟩, ?_⟩
      unfold handleRequestVote
      rw [if_neg hlt, if_neg hnew]
      dsimp only
      split_ifs with hgrant
      · exact Or.inr ⟨hgrant.1, hgrant.2, rfl⟩
      · exact Or.inl rfl

theorem forwards_handleRequestVote (nd : RaftNode N P) (req : RequestVoteRequest N) :
    Forwards nd.stored (nd.handleRequestVote req).2.1 (nd.handleRequestVote req).1.stored := by
  rcases handleRequestVote_cases nd req with ⟨-, h⟩ | ⟨nd', effs, -, hnd', h⟩
  · rw [h]
    exact rfl
  have hfollow : Forwards nd.stored effs nd'.stored := by
    rcases hnd' with ⟨rfl, rfl, -⟩ | ⟨-, rfl, rfl⟩
    · exact rfl
    · exact nd.forwards_becomeFollower req.term none
  rcases h with h | ⟨hfree, -, h⟩
  · rw [h]
    exact hfollow
  · rw [h]
    refine hfollow.append ⟨Or.inr ⟨rfl, ?_⟩, rfl⟩
    exact hfree.imp_right fun hv => hv.symm

/-- A granted vote is stored, for the term and the candidate of the request. -/
theorem handleRequestVote_granted {nd : RaftNode N P} {req : RequestVoteRequest N}
    (h : (nd.handleRequestVote req).2.2.voteGranted = true) :
    Effect.setState req.term (some req.candidateId) ∈ (nd.handleRequestVote req).2.1 := by
  rcases handleRequestVote_cases nd req with ⟨-, heq⟩ | ⟨nd', effs, hle, hnd', heq⟩
  · rw [heq] at h
    cases h
  have hterm : nd'.currentTerm = req.term := by
    rcases hnd' with ⟨rfl, -, ht⟩ | ⟨-, rfl, -⟩
    · exact ht
    · rw [becomeFollower_currentTerm, max_eq_right hle]
  rcases heq with heq | ⟨-, -, heq⟩
  · rw [heq] at h
    cases h
  · rw [heq, ← hterm]
    simp

/-- A node that handles a vote request stays in its role or follows. -/
theorem handleRequestVote_role (nd : RaftNode N P) (req : RequestVoteRequest N) :
    (nd.handleRequestVote req).1.role = .follower ∨
      (nd.handleRequestVote req).1.role = nd.role ∧
        (nd.handleRequestVote req).1.currentTerm = nd.currentTerm ∧
        (nd.handleRequestVote req).1.votesReceived = nd.votesReceived := by
  rcases handleRequestVote_cases nd req with ⟨-, heq⟩ | ⟨nd', effs, -, hnd', heq⟩
  · rw [heq]
    exact Or.inr ⟨rfl, rfl, rfl⟩
  rcases hnd' with ⟨rfl, rfl, -⟩ | ⟨-, rfl, rfl⟩
  · refine Or.inr ?_
    rcases heq with heq | ⟨-, -, heq⟩
    · rw [heq]
      exact ⟨rfl, rfl, rfl⟩
    · rw [heq]
      exact ⟨rfl, rfl, rfl⟩
  · refine Or.inl ?_
    rcases heq with heq | ⟨-, -, heq⟩
    · rw [heq]
      rfl
    · rw [heq]
      rfl

omit [DecidableEq N] in
/-- `handle_append_entries` refuses an old term; otherwise it follows the leader, and then refuses
or stores the entries, and commits as the leader has. -/
theorem handleAppendEntries_cases (nd : RaftNode N P) (req : AppendEntriesRequest N P) :
    (req.term < nd.currentTerm ∧
      nd.handleAppendEntries req = (nd, [], ⟨nd.currentTerm, false, 0⟩)) ∨
    ∃ nd' effs, nd.currentTerm ≤ req.term ∧
      nd' = (nd.becomeFollower req.term (some req.leaderId)).1 ∧
      effs = (nd.becomeFollower req.term (some req.leaderId)).2 ∧
      (nd.handleAppendEntries req = (nd', effs, ⟨nd'.currentTerm, false, 0⟩) ∨
        nd.prevMatches req = true ∧
        nd.handleAppendEntries req =
          ((followCommit { nd' with log := (appendLoop (N := N) nd.log req.entries).1 }
              req.leaderCommit).1,
            effs ++ (appendLoop (N := N) nd.log req.entries).2 ++ storeEntries req.entries ++
              (followCommit { nd' with log := (appendLoop (N := N) nd.log req.entries).1 }
                req.leaderCommit).2,
            ⟨nd'.currentTerm, true, req.prevLogIndex + req.entries.length⟩)) := by
  by_cases hlt : req.term < nd.currentTerm
  · refine Or.inl ⟨hlt, ?_⟩
    unfold handleAppendEntries
    rw [if_pos hlt]
  · refine Or.inr ⟨(nd.becomeFollower req.term (some req.leaderId)).1,
      (nd.becomeFollower req.term (some req.leaderId)).2, not_lt.mp hlt, rfl, rfl, ?_⟩
    have hlog : (nd.becomeFollower req.term (some req.leaderId)).1.log = nd.log := by
      unfold becomeFollower
      split_ifs <;> rfl
    have hprev : (nd.becomeFollower req.term (some req.leaderId)).1.prevMatches req =
        nd.prevMatches req := by
      simp only [prevMatches, hlog]
    have hterm := (quiet_followCommit { (nd.becomeFollower req.term (some req.leaderId)).1 with
      log := (appendLoop (N := N) nd.log req.entries).1 } req.leaderCommit).term
    unfold handleAppendEntries
    rw [if_neg hlt]
    dsimp only
    rw [hprev, hlog]
    split_ifs with hmatch
    · refine Or.inr ⟨hmatch, ?_⟩
      rw [hterm]
    · exact Or.inl rfl

omit [DecidableEq N] in
theorem setState_not_mem_storeEntries (entries : List (LogEntry P)) (t : ℕ) (v : Option N) :
    Effect.setState t v ∉ storeEntries entries := by
  unfold storeEntries
  split_ifs <;> simp

omit [DecidableEq N] in
theorem forwards_handleAppendEntries (nd : RaftNode N P) (req : AppendEntriesRequest N P) :
    Forwards nd.stored (nd.handleAppendEntries req).2.1 (nd.handleAppendEntries req).1.stored := by
  rcases handleAppendEntries_cases nd req with ⟨-, h⟩ | ⟨nd', effs, -, hnd', heffs, h⟩
  · rw [h]
    exact rfl
  have hfollow : Forwards nd.stored effs nd'.stored := by
    rw [hnd', heffs]
    exact nd.forwards_becomeFollower req.term _
  rcases h with h | ⟨-, h⟩
  · rw [h]
    exact hfollow
  · rw [h]
    have htrunc : Forwards nd'.stored (appendLoop (N := N) nd.log req.entries).2 nd'.stored :=
      forwards_of_no_setState nd'.stored fun t v => setState_not_mem_appendLoop t v _ _
    have hstore : Forwards nd'.stored (storeEntries (N := N) req.entries) nd'.stored :=
      forwards_of_no_setState nd'.stored fun t v => setState_not_mem_storeEntries _ t v
    have hcommit := (quiet_followCommit
      { nd' with log := (appendLoop (N := N) nd.log req.entries).1 } req.leaderCommit).forwards
    exact ((hfollow.append htrunc).append hstore).append hcommit

omit [DecidableEq N] in
theorem handleAppendEntries_role (nd : RaftNode N P) (req : AppendEntriesRequest N P) :
    (nd.handleAppendEntries req).1.role = .follower ∨
      (nd.handleAppendEntries req).1 = nd := by
  rcases handleAppendEntries_cases nd req with ⟨-, h⟩ | ⟨nd', effs, -, rfl, rfl, h⟩
  · rw [h]
    exact Or.inr rfl
  refine Or.inl ?_
  rcases h with h | ⟨-, h⟩
  · rw [h]
    rfl
  · rw [h]
    exact (quiet_followCommit _ _).role

/-- The block of `_replicate_to_peer` that handles a response follows a later term, or leaves the
term, the vote and the role alone. -/
theorem handleAppendResponse_cases (threshold : ℕ) (peers : List N) (peer : N)
    (req : AppendEntriesRequest N P) (nd : RaftNode N P) (resp : AppendEntriesResponse) :
    (nd.currentTerm < resp.term ∧
      handleAppendResponse threshold peers peer req nd resp = nd.becomeFollower resp.term none) ∨
    (resp.term ≤ nd.currentTerm ∧ resp.success = true ∧ ∃ next, ∃ matched,
      (∀ last, req.entries.getLast? = some last → matched = last.index) ∧
      (req.entries = [] → matched = req.prevLogIndex) ∧
      handleAppendResponse threshold peers peer req nd resp =
        advanceCommitIndex threshold peers { nd with
          nextIndex := next, matchIndex := Function.update nd.matchIndex peer (some matched) }) ∨
    (resp.term ≤ nd.currentTerm ∧ resp.success = false ∧ ∃ next,
      handleAppendResponse threshold peers peer req nd resp =
        ({ nd with nextIndex := next }, [])) := by
  unfold handleAppendResponse
  split_ifs with hterm hsucc hprev
  · exact Or.inl ⟨hterm, rfl⟩
  · refine Or.inr (Or.inl ⟨not_lt.mp hterm, hsucc, ?_⟩)
    cases hlast : req.entries.getLast? with
    | none =>
        refine ⟨nd.nextIndex, req.prevLogIndex, ?_, fun _ => rfl, rfl⟩
        intro last h
        cases h
    | some last =>
        refine ⟨_, last.index, ?_, ?_, rfl⟩
        · intro last' h
          rw [Option.some.inj h]
        · intro h
          rw [h] at hlast
          cases hlast
  · exact Or.inr (Or.inr ⟨not_lt.mp hterm, by simpa using hsucc, _, rfl⟩)
  · exact Or.inr (Or.inr ⟨not_lt.mp hterm, by simpa using hsucc, nd.nextIndex, rfl⟩)

theorem forwards_handleAppendResponse (threshold : ℕ) (peers : List N) (peer : N)
    (req : AppendEntriesRequest N P) (nd : RaftNode N P) (resp : AppendEntriesResponse) :
    Forwards nd.stored (handleAppendResponse threshold peers peer req nd resp).2
      (handleAppendResponse threshold peers peer req nd resp).1.stored := by
  rcases handleAppendResponse_cases threshold peers peer req nd resp with
    ⟨-, h⟩ | ⟨-, -, next, matched, -, -, h⟩ | ⟨-, -, next, h⟩
  · rw [h]
    exact nd.forwards_becomeFollower _ _
  · rw [h]
    exact (quiet_advanceCommitIndex threshold peers { nd with
      nextIndex := next, matchIndex := Function.update nd.matchIndex peer (some matched) }).forwards
  · rw [h]
    exact rfl

theorem handleAppendResponse_role (threshold : ℕ) (peers : List N) (peer : N)
    (req : AppendEntriesRequest N P) (nd : RaftNode N P) (resp : AppendEntriesResponse) :
    (handleAppendResponse threshold peers peer req nd resp).1.role = .follower ∨
      (handleAppendResponse threshold peers peer req nd resp).1.role = nd.role ∧
      (handleAppendResponse threshold peers peer req nd resp).1.currentTerm = nd.currentTerm ∧
      (handleAppendResponse threshold peers peer req nd resp).1.votesReceived =
        nd.votesReceived := by
  rcases handleAppendResponse_cases threshold peers peer req nd resp with
    ⟨-, h⟩ | ⟨-, -, next, matched, -, -, h⟩ | ⟨-, -, next, h⟩
  · rw [h]
    exact Or.inl rfl
  · have hq := quiet_advanceCommitIndex threshold peers { nd with
      nextIndex := next, matchIndex := Function.update nd.matchIndex peer (some matched) }
    rw [h]
    exact Or.inr ⟨hq.role, hq.term, hq.votesReceived⟩
  · rw [h]
    exact Or.inr ⟨rfl, rfl, rfl⟩

end requests

/-! ## Starting -/

/-- A node starts with what is in its storage, as a follower. -/
theorem boot_eq (d : RaftStorage N P) :
    boot d =
      { currentTerm := d.currentTerm
        votedFor := d.votedFor
        log := if d.lastIncludedIndex = 0 then d.raftLog
          else d.raftLog.filter fun e => d.lastIncludedIndex < e.index
        commitIndex := d.lastIncludedIndex
        lastApplied := d.lastIncludedIndex
        snapshotIndex := d.lastIncludedIndex
        snapshotTerm := if d.lastIncludedIndex = 0 then 0 else d.lastIncludedTerm
        stateMachine := if d.lastIncludedIndex = 0 then [] else d.data } := by
  unfold boot restore
  by_cases h : d.lastIncludedIndex = 0
  · simp [h, applyPendingCommits_eq, caughtUp, entriesFrom]
  · simp [h, Nat.pos_of_ne_zero h, applyPendingCommits_eq, caughtUp, entriesFrom,
      onSnapshotRestored]

end RaftNode

end NanoFabric.Raft
