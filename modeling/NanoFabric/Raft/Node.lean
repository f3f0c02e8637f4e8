import NanoFabric.Raft.Models

/-!
# A Raft node

`RaftNode` of `metadata/raft/node.py` with `SnapshotManager` of `metadata/raft/snapshot.py`: the
fields the consensus code reads, and one function for each locked block of the source. A block
takes the node and returns it changed, with the effects it caused, in order (`Effect`).

The log is the list the source keeps, and the source's index arithmetic is kept with it: `log[n - 1]`
is read by *position*, an entry's own `index` only where the source reads it. What the election
timer, the metrics and the logger record is left out.
-/

namespace NanoFabric.Raft

variable {N P : Type}

/-- The fields of a running node. `stateMachine` is the history of `apply` calls that its
`RaftStateMachine` embodies.
Source: `metadata/raft/node.py`, `RaftNode.__init__`. -/
structure RaftNode (N P : Type) where
  currentTerm : ℕ := 0
  votedFor : Option N := none
  role : RaftRole := .follower
  leaderId : Option N := none
  log : List (LogEntry P) := []
  commitIndex : ℕ := 0
  lastApplied : ℕ := 0
  snapshotIndex : ℕ := 0
  snapshotTerm : ℕ := 0
  nextIndex : N → Option ℕ := fun _ => none
  matchIndex : N → Option ℕ := fun _ => none
  votesReceived : ℕ := 0
  stateMachine : Applied P := []

namespace RaftNode

/-- Source: `metadata/raft/node.py`, `log_term_at`. -/
def logTermAt (nd : RaftNode N P) (index : ℕ) : ℕ :=
  if index = 0 then nd.snapshotTerm
  else match nd.log[index - 1]? with
    | some e => e.term
    | none => 0

/-- Source: `metadata/raft/node.py`, `last_log_info`. -/
def lastLogInfo (nd : RaftNode N P) : ℕ × ℕ :=
  match nd.log.getLast? with
  | none => (nd.snapshotIndex, nd.snapshotTerm)
  | some e => (e.index, e.term)

/-- Source: `metadata/raft/node.py`, `_persist_state`. -/
def persistState (nd : RaftNode N P) : Effect N P := .setState nd.currentTerm nd.votedFor

/-! ## Snapshots -/

/-- Source: `metadata/raft/node.py`, `on_snapshot_created`. -/
def onSnapshotCreated (nd : RaftNode N P) (lastIndex : ℕ) : RaftNode N P :=
  { nd with
    snapshotIndex := lastIndex
    snapshotTerm := nd.logTermAt lastIndex
    log := nd.log.filter fun e => lastIndex < e.index }

/-- Source: `metadata/raft/node.py`, `on_snapshot_restored`. -/
def onSnapshotRestored (nd : RaftNode N P) (lastIndex lastTerm : ℕ) : RaftNode N P :=
  { nd with
    snapshotIndex := lastIndex
    snapshotTerm := lastTerm
    log := nd.log.filter fun e => lastIndex < e.index }

/-- Source: `metadata/raft/snapshot.py`, `SnapshotManager.maybe_snapshot`. -/
def maybeSnapshot (threshold : ℕ) (nd : RaftNode N P) : RaftNode N P × List (Effect N P) :=
  if nd.log.length < threshold then (nd, [])
  else if nd.lastApplied ≤ nd.snapshotIndex then (nd, [])
  else
    (nd.onSnapshotCreated nd.lastApplied,
      [.saveSnapshot nd.lastApplied (nd.logTermAt nd.lastApplied) nd.stateMachine])

/-- Source: `metadata/raft/snapshot.py`, `SnapshotManager.restore`. -/
def restore (nd : RaftNode N P) (d : RaftStorage N P) : RaftNode N P × ℕ :=
  if d.lastIncludedIndex = 0 then (nd, 0)
  else
    (onSnapshotRestored { nd with stateMachine := d.data } d.lastIncludedIndex d.lastIncludedTerm,
      d.lastIncludedIndex)

/-! ## Applying and committing -/

/-- The loop of `_apply_pending_commits`, `fuel` turns of it. -/
def applyLoop : ℕ → RaftNode N P → RaftNode N P × List (Effect N P)
  | 0, nd => (nd, [])
  | fuel + 1, nd =>
      let k := nd.lastApplied + 1
      match nd.log[k - 1]? with
      | none => applyLoop fuel { nd with lastApplied := k }
      | some e =>
          let (nd', effs) :=
            applyLoop fuel
              { nd with lastApplied := k, stateMachine := nd.stateMachine ++ [(k, e)] }
          (nd', .apply k e :: effs)

/-- Source: `metadata/raft/node.py`, `_apply_pending_commits`: the loop runs until `last_applied`
has reached `commit_index`. -/
def applyPendingCommits (nd : RaftNode N P) : RaftNode N P × List (Effect N P) :=
  applyLoop (nd.commitIndex - nd.lastApplied) nd

/-- The positions `_advance_commit_index` tries, in its order: `range(len(log), commit_index, -1)`. -/
def commitCandidates (nd : RaftNode N P) : List ℕ :=
  (List.range' (nd.commitIndex + 1) (nd.log.length - nd.commitIndex)).reverse

/-- The count of `_advance_commit_index`: the node itself and each peer whose `match_index` has
reached `n`. -/
def replicaCount (nd : RaftNode N P) (peers : List N) (n : ℕ) : ℕ :=
  1 + (peers.filter fun p => decide (n ≤ (nd.matchIndex p).getD 0)).length

/-- What `_advance_commit_index` asks of a position before it commits it. -/
def commits (nd : RaftNode N P) (peers : List N) (n : ℕ) : Bool :=
  decide ((nd.log[n - 1]?.map LogEntry.term) = some nd.currentTerm) &&
    decide (majorityCount peers.length ≤ nd.replicaCount peers n)

/-- Source: `metadata/raft/node.py`, `_advance_commit_index`. -/
def advanceCommitIndex (threshold : ℕ) (peers : List N) (nd : RaftNode N P) :
    RaftNode N P × List (Effect N P) :=
  match nd.commitCandidates.find? (nd.commits peers) with
  | none => (nd, [])
  | some n =>
      let (nd, applied) := applyPendingCommits { nd with commitIndex := n }
      let (nd, saved) := maybeSnapshot threshold nd
      (nd, applied ++ saved)

/-! ## Roles -/

/-- Source: `metadata/raft/node.py`, `_become_follower`. -/
def becomeFollower (nd : RaftNode N P) (term : ℕ) (leader : Option N) :
    RaftNode N P × List (Effect N P) :=
  let nd := if nd.currentTerm < term then { nd with currentTerm := term, votedFor := none } else nd
  let nd := { nd with role := .follower, leaderId := leader <|> nd.leaderId }
  (nd, [nd.persistState])

/-- Source: `metadata/raft/node.py`, `_become_leader`, up to the heartbeats it sends. -/
def becomeLeader [DecidableEq N] (self : N) (peers : List N) (nd : RaftNode N P) : RaftNode N P :=
  let lastIdx := nd.lastLogInfo.1
  { nd with
    role := .leader
    leaderId := some self
    nextIndex := fun p => if p ∈ peers then some (lastIdx + 1) else nd.nextIndex p
    matchIndex := fun p => if p ∈ peers then some 0 else nd.matchIndex p }

/-- The first locked block of `_start_election`, for a node that is not the leader.
Source: `metadata/raft/node.py`, `_start_election`. -/
def startElection (self : N) (nd : RaftNode N P) : RaftNode N P × List (Effect N P) :=
  let nd := { nd with
    role := .candidate
    currentTerm := nd.currentTerm + 1
    votedFor := some self
    leaderId := none
    votesReceived := 1 }
  (nd, [nd.persistState])

/-- The locked block of `_start_election` that handles one response; the flag says whether the
election goes on. Source: `metadata/raft/node.py`, `_start_election`. -/
def handleVoteResponse (nd : RaftNode N P) (resp : RequestVoteResponse) :
    RaftNode N P × List (Effect N P) × Bool :=
  if nd.currentTerm < resp.term then
    let (nd, effs) := nd.becomeFollower resp.term none
    (nd, effs, false)
  else if resp.voteGranted then ({ nd with votesReceived := nd.votesReceived + 1 }, [], true)
  else (nd, [], true)

/-- What the last locked block of `_start_election` asks before it calls `_become_leader`. -/
def winsElection (nd : RaftNode N P) (peers : List N) : Bool :=
  decide (nd.role = .candidate) && decide (majorityCount peers.length ≤ nd.votesReceived)

/-- Source: `metadata/raft/node.py`, `step_down`. -/
def stepDown (nd : RaftNode N P) : RaftNode N P :=
  { nd with role := .follower, leaderId := none }

/-! ## Requests -/

/-- Source: `metadata/raft/node.py`, `handle_request_vote`. -/
def handleRequestVote [DecidableEq N] (nd : RaftNode N P) (req : RequestVoteRequest N) :
    RaftNode N P × List (Effect N P) × RequestVoteResponse :=
  if req.term < nd.currentTerm then (nd, [], ⟨nd.currentTerm, false⟩)
  else
    let (nd, effs) := if nd.currentTerm < req.term then nd.becomeFollower req.term none else (nd, [])
    let (lastIdx, lastTerm) := nd.lastLogInfo
    if (nd.votedFor = none ∨ nd.votedFor = some req.candidateId) ∧
        isLogUpToDate req.lastLogIndex req.lastLogTerm lastIdx lastTerm = true then
      let nd := { nd with votedFor := some req.candidateId }
      (nd, effs ++ [nd.persistState], ⟨nd.currentTerm, true⟩)
    else (nd, effs, ⟨nd.currentTerm, false⟩)

/-- The loop of `handle_append_entries` over the entries of the request, on the log; the rows it
deletes from storage on the way. -/
def appendLoop : List (LogEntry P) → List (LogEntry P) →
    List (LogEntry P) × List (Effect N P)
  | log, [] => (log, [])
  | log, entry :: entries =>
      let idx := entry.index
      if idx ≤ log.length ∧ (log[idx - 1]?.map LogEntry.term) ≠ some entry.term then
        -- a conflict: the log and the stored log end before it, and the entry takes its place
        let log := log.take (idx - 1)
        let (log, effs) := appendLoop (if log.length < idx then log ++ [entry] else log) entries
        (log, .truncateLogFrom idx :: effs)
      else appendLoop (if log.length < idx then log ++ [entry] else log) entries

/-- The consistency check of `handle_append_entries`: the log holds, at the position of
`prev_log_index`, an entry of term `prev_log_term`. -/
def prevMatches (nd : RaftNode N P) (req : AppendEntriesRequest N P) : Bool :=
  decide (req.prevLogIndex = 0) ||
    decide ((nd.log[req.prevLogIndex - 1]?.map LogEntry.term) = some req.prevLogTerm)

/-- The last part of `handle_append_entries`: the follower's commit index. -/
def followCommit (nd : RaftNode N P) (leaderCommit : ℕ) : RaftNode N P × List (Effect N P) :=
  if nd.commitIndex < leaderCommit then
    applyPendingCommits { nd with commitIndex := min leaderCommit nd.log.length }
  else (nd, [])

/-- The effect of `self._storage.append_entries(entries)`, which returns at once on no entries. -/
def storeEntries (entries : List (LogEntry P)) : List (Effect N P) :=
  if entries = [] then [] else [.appendEntries entries]

/-- Source: `metadata/raft/node.py`, `handle_append_entries`. -/
def handleAppendEntries (nd : RaftNode N P) (req : AppendEntriesRequest N P) :
    RaftNode N P × List (Effect N P) × AppendEntriesResponse :=
  if req.term < nd.currentTerm then (nd, [], ⟨nd.currentTerm, false, 0⟩)
  else
    let (nd, effs) := nd.becomeFollower req.term (some req.leaderId)
    if nd.prevMatches req then
      let (log, truncated) := appendLoop nd.log req.entries
      let (nd', applied) := followCommit { nd with log := log } req.leaderCommit
      (nd', effs ++ truncated ++ storeEntries req.entries ++ applied,
        ⟨nd'.currentTerm, true, req.prevLogIndex + req.entries.length⟩)
    else (nd, effs, ⟨nd.currentTerm, false, 0⟩)

/-! ## Replication -/

/-- Source: `metadata/raft/node.py`, `_append_local_entry`. -/
def appendLocalEntry (nd : RaftNode N P) (command : CommandType) (payload : P) :
    RaftNode N P × List (Effect N P) × LogEntry P :=
  let index := match nd.log.getLast? with
    | some e => e.index + 1
    | none => nd.snapshotIndex + 1
  let entry := ⟨index, nd.currentTerm, command, payload⟩
  ({ nd with log := nd.log ++ [entry] }, [.appendEntries [entry]], entry)

/-- The locked block of `propose` that appends the entry; without peers it also commits.
Source: `metadata/raft/node.py`, `propose`. -/
def proposeLocked (threshold : ℕ) (peers : List N) (nd : RaftNode N P) (command : CommandType)
    (payload : P) : RaftNode N P × List (Effect N P) × LogEntry P :=
  let (nd, effs, entry) := nd.appendLocalEntry command payload
  if peers = [] then
    let (nd, more) := nd.advanceCommitIndex threshold peers
    (nd, effs ++ more, entry)
  else (nd, effs, entry)

/-- The request of the first locked block of `_replicate_to_peer`.
Source: `metadata/raft/node.py`, `_replicate_to_peer`. -/
def buildAppendEntries (self : N) (nd : RaftNode N P) (peer : N) : AppendEntriesRequest N P :=
  let nextIdx := (nd.nextIndex peer).getD 1
  { term := nd.currentTerm
    leaderId := self
    prevLogIndex := nextIdx - 1
    prevLogTerm := nd.logTermAt (nextIdx - 1)
    entries := nd.log.filter fun e => nextIdx ≤ e.index
    leaderCommit := nd.commitIndex }

/-- The second locked block of `_replicate_to_peer`. Its local `next_idx`, `prev_index` and
`entries` are those of the request, with `next_idx = prev_index + 1`.
Source: `metadata/raft/node.py`, `_replicate_to_peer`. -/
def handleAppendResponse [DecidableEq N] (threshold : ℕ) (peers : List N) (peer : N)
    (req : AppendEntriesRequest N P) (nd : RaftNode N P) (resp : AppendEntriesResponse) :
    RaftNode N P × List (Effect N P) :=
  if nd.currentTerm < resp.term then nd.becomeFollower resp.term none
  else if resp.success then
    let nd := match req.entries.getLast? with
      | some last => { nd with
          matchIndex := Function.update nd.matchIndex peer (some last.index)
          nextIndex := Function.update nd.nextIndex peer (some (last.index + 1)) }
      | none => { nd with
          matchIndex := Function.update nd.matchIndex peer (some req.prevLogIndex) }
    nd.advanceCommitIndex threshold peers
  else if 0 < req.prevLogIndex then
    ({ nd with nextIndex := Function.update nd.nextIndex peer (some req.prevLogIndex) }, [])
  else (nd, [])

/-! ## Starting -/

/-- A node made from its storage and started.
Source: `metadata/raft/node.py`, `RaftNode.__init__`, `RaftNode.start`. -/
def boot (d : RaftStorage N P) : RaftNode N P :=
  let nd : RaftNode N P :=
    { currentTerm := d.currentTerm, votedFor := d.votedFor, log := d.raftLog }
  let (nd, restored) := nd.restore d
  let nd := if 0 < restored then { nd with commitIndex := restored, lastApplied := restored } else nd
  (applyPendingCommits nd).1

end RaftNode

end NanoFabric.Raft
