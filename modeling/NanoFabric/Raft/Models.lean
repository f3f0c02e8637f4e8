import Mathlib.Data.List.Basic

/-!
# Raft messages and durable state

The data of `metadata/raft/models.py`, `metadata/raft/election.py` and `metadata/raft/storage.py`:
log entries, the two requests and their responses, and `RaftStorage` with the statements it runs.
Node ids are of any type `N` (the source's are strings) and command payloads of any type `P` (the
source's are JSON objects, which the consensus code passes on unread).
-/

namespace NanoFabric.Raft

/-- Source: `metadata/raft/models.py`, `RaftRole`. -/
inductive RaftRole
  | follower
  | candidate
  | leader
  deriving DecidableEq, Repr

/-- Source: `metadata/raft/models.py`, `CommandType`. -/
inductive CommandType
  | registerNode
  | updateHeartbeat
  | allocateBlock
  | updatePlacement
  | createRepair
  | deleteRepair
  | addAlert
  | addPeer
  | removePeer
  | reconfigureCluster
  deriving DecidableEq, Repr

/-- Source: `metadata/raft/models.py`, `LogEntry`. -/
structure LogEntry (P : Type) where
  index : ℕ
  term : ℕ
  command : CommandType
  payload : P
  deriving DecidableEq, Repr

/-- Source: `metadata/raft/models.py`, `RequestVoteRequest`. -/
structure RequestVoteRequest (N : Type) where
  term : ℕ
  candidateId : N
  lastLogIndex : ℕ
  lastLogTerm : ℕ
  deriving DecidableEq, Repr

/-- Source: `metadata/raft/models.py`, `RequestVoteResponse`. -/
structure RequestVoteResponse where
  term : ℕ
  voteGranted : Bool
  deriving DecidableEq, Repr

/-- Source: `metadata/raft/models.py`, `AppendEntriesRequest`. -/
structure AppendEntriesRequest (N P : Type) where
  term : ℕ
  leaderId : N
  prevLogIndex : ℕ
  prevLogTerm : ℕ
  entries : List (LogEntry P)
  leaderCommit : ℕ
  deriving DecidableEq, Repr

/-- Source: `metadata/raft/models.py`, `AppendEntriesResponse`. -/
structure AppendEntriesResponse where
  term : ℕ
  success : Bool
  matchIndex : ℕ := 0
  deriving DecidableEq, Repr

/-- The texts of the errors `propose` returns. Source: `metadata/raft/node.py`, `propose`. -/
inductive ProposeError
  | notLeader
  | lostLeadership
  | commitTimeout
  deriving DecidableEq, Repr

/-- Source: `metadata/raft/node.py`, the `error` strings of `propose`. -/
def ProposeError.text : ProposeError → String
  | .notLeader => "not leader"
  | .lostLeadership => "lost leadership"
  | .commitTimeout => "commit timeout"

/-- Source: `metadata/raft/models.py`, `ProposeResult`. -/
structure ProposeResult where
  success : Bool
  index : ℕ := 0
  error : Option ProposeError := none
  deriving DecidableEq, Repr

/-! ## Elections -/

/-- Source: `metadata/raft/election.py`, `is_log_up_to_date`. -/
def isLogUpToDate (candidateLastIndex candidateLastTerm ourLastIndex ourLastTerm : ℕ) : Bool :=
  if candidateLastTerm ≠ ourLastTerm then decide (ourLastTerm < candidateLastTerm)
  else decide (ourLastIndex ≤ candidateLastIndex)

/-- Source: `metadata/raft/election.py`, `majority_count`. -/
def majorityCount (peerCount : ℕ) : ℕ := (peerCount + 1) / 2 + 1

/-! ## Durable state -/

/-- The state machine's state, as the entries `apply` was called with and the value `last_applied`
had then. What the handlers make of the entries is a function of this history. -/
abbrev Applied (P : Type) := List (ℕ × LogEntry P)

/-- The tables of `raft.db`: the row of `raft_state`, the rows of `raft_log` in `log_index` order
and the row of `raft_snapshot`.
Source: `metadata/raft/storage.py`, `_SCHEMA`, `RaftStorage`. -/
structure RaftStorage (N P : Type) where
  currentTerm : ℕ := 0
  votedFor : Option N := none
  raftLog : List (LogEntry P) := []
  lastIncludedIndex : ℕ := 0
  lastIncludedTerm : ℕ := 0
  data : Applied P := []
  deriving DecidableEq, Repr

/-- `INSERT OR REPLACE INTO raft_log`: one row per `log_index`, kept in its order.
Source: `metadata/raft/storage.py`, `append_entries`. -/
def insertOrReplace {P : Type} (e : LogEntry P) : List (LogEntry P) → List (LogEntry P)
  | [] => [e]
  | row :: rows =>
      if row.index < e.index then row :: insertOrReplace e rows
      else if row.index = e.index then e :: rows
      else e :: row :: rows

/-- The durable effects of the node's code, in the order it causes them: the statements committed
to `raft.db`, and the calls of `RaftStateMachine.apply` with the `last_applied` they belong to. -/
inductive Effect (N P : Type) where
  /-- Source: `metadata/raft/storage.py`, `set_state`. -/
  | setState (currentTerm : ℕ) (votedFor : Option N)
  /-- Source: `metadata/raft/storage.py`, `append_entries`. -/
  | appendEntries (entries : List (LogEntry P))
  /-- Source: `metadata/raft/storage.py`, `truncate_log_from`. -/
  | truncateLogFrom (startIndex : ℕ)
  /-- Source: `metadata/raft/storage.py`, `save_snapshot`. -/
  | saveSnapshot (lastIndex lastTerm : ℕ) (data : Applied P)
  /-- Source: `metadata/raft/state_machine.py`, `apply`. -/
  | apply (lastApplied : ℕ) (entry : LogEntry P)
  deriving DecidableEq, Repr

/-- What an effect does to `raft.db`. -/
def RaftStorage.perform {N P : Type} (d : RaftStorage N P) : Effect N P → RaftStorage N P
  | .setState currentTerm votedFor => { d with currentTerm := currentTerm, votedFor := votedFor }
  | .appendEntries entries =>
      { d with raftLog := entries.foldl (fun rows e => insertOrReplace e rows) d.raftLog }
  | .truncateLogFrom startIndex =>
      { d with raftLog := d.raftLog.filter fun row => row.index < startIndex }
  | .saveSnapshot lastIndex lastTerm data =>
      { d with
        lastIncludedIndex := lastIndex
        lastIncludedTerm := lastTerm
        data := data
        raftLog := d.raftLog.filter fun row => lastIndex < row.index }
  | .apply _ _ => d

end NanoFabric.Raft
