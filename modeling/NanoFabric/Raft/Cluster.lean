import Mathlib.Data.Finset.Card
import Mathlib.Logic.Function.Basic
import NanoFabric.Raft.Node

/-!
# A Raft cluster

Nodes with a fixed peer set, the calls they wait on, and the steps they take. Each
`with self._lock` block of the source is one step; between two blocks of one call any other step
may come. A request may be delivered any time after it was sent, or never; a reply may be handled
any time after it was given, or be given up (`resp is None`).

* `Config`, `Cluster` — the peer set, and the state with what has happened so far.
* `Action`, `Config.block` — the steps, and the locked block each one runs.
* `Event`, `Config.step` — an action that runs to its end, one cut short by a crash of its node
  (after any number of its durable effects), and a restart.
* `Config.runWhile`, `Config.run` — runs, with or without a condition on every step.

`_run_loop` is one thread, so a node has at most one election under way; `_replicate_to_peer` is
called by that thread and by every waiting `propose`, so any number of them may run at once.
-/

namespace NanoFabric.Raft

variable {N P : Type}

/-- The fixed part of a cluster. -/
structure Config (N : Type) where
  /-- The keys of `peer_urls`, the same on every node. -/
  members : List N
  /-- A dict has each key once. -/
  nodup : members.Nodup
  /-- `snapshot_threshold`. -/
  threshold : N → ℕ
  /-- Thresholds are at least one. -/
  threshold_pos : ∀ n, 1 ≤ threshold n

/-- Source: `metadata/raft/node.py`, `peers`. -/
def Config.peers [DecidableEq N] (cfg : Config N) (n : N) : List N :=
  cfg.members.filter fun p => p ≠ n

/-- The locals of a running `_start_election`. -/
structure ElectionCall (N : Type) where
  term : ℕ
  lastIdx : ℕ
  lastTerm : ℕ
  /-- The peers not asked yet. -/
  pending : List N
  /-- The request it waits for, by its place in `voteRpcs`. -/
  awaiting : Option ℕ
  deriving DecidableEq, Repr

/-- A `request_vote` call. -/
structure VoteRpc (N : Type) where
  candidate : N
  peer : N
  request : RequestVoteRequest N
  response : Option RequestVoteResponse
  deriving DecidableEq, Repr

/-- An `append_entries` call, with whether its sender still waits. -/
structure AppendRpc (N P : Type) where
  sender : N
  peer : N
  request : AppendEntriesRequest N P
  waiting : Bool
  response : Option AppendEntriesResponse
  deriving DecidableEq, Repr

/-- A running `propose` call: before its locked append, or after it. -/
inductive ProposeCall (P : Type) where
  | checked (command : CommandType) (payload : P)
  | waiting (entry : LogEntry P)
  deriving DecidableEq, Repr

/-- The state of a cluster. `elected`, `votes`, `applied` and `results` record what has happened. -/
structure Cluster (N P : Type) where
  node : N → RaftNode N P
  disk : N → RaftStorage N P
  election : N → Option (ElectionCall N)
  voteRpcs : List (VoteRpc N)
  appendRpcs : List (AppendRpc N P)
  proposals : N → List (ProposeCall P)
  /-- `_become_leader` ran on the node in the term. -/
  elected : List (N × ℕ)
  /-- The node stored the vote in the term. -/
  votes : List (N × ℕ × N)
  /-- The node handed the entry to `apply` as its `k`-th. -/
  applied : List (N × ℕ × LogEntry P)
  /-- `propose` on the node returned the result for the entry it appended, if it did. -/
  results : List (N × Option (LogEntry P) × ProposeResult)

/-- Every node started on empty storage. -/
def Cluster.init (N P : Type) : Cluster N P where
  node _ := RaftNode.boot {}
  disk _ := {}
  election _ := none
  voteRpcs := []
  appendRpcs := []
  proposals _ := []
  elected := []
  votes := []
  applied := []
  results := []

variable [DecidableEq N]

namespace Cluster

/-- Node `n` causes a durable effect. -/
def performOne (c : Cluster N P) (n : N) (e : Effect N P) : Cluster N P :=
  { c with
    disk := Function.update c.disk n ((c.disk n).perform e)
    votes := match e with
      | .setState term (some v) => (n, term, v) :: c.votes
      | _ => c.votes
    applied := match e with
      | .apply k entry => (n, k, entry) :: c.applied
      | _ => c.applied }

/-- Node `n` causes effects in order. -/
def perform (c : Cluster N P) (n : N) (effs : List (Effect N P)) : Cluster N P :=
  effs.foldl (fun c e => c.performOne n e) c

/-- Node `n` runs a block that causes `effs` and leaves the node as `nd`. -/
def runBlock (c : Cluster N P) (n : N) (nd : RaftNode N P) (effs : List (Effect N P)) :
    Cluster N P :=
  { c.perform n effs with node := Function.update c.node n nd }

/-- Node `n` crashes and starts again from its storage: the calls it was in are gone. -/
def restart (c : Cluster N P) (n : N) : Cluster N P :=
  { c with
    node := Function.update c.node n (RaftNode.boot (c.disk n))
    election := Function.update c.election n none
    appendRpcs := c.appendRpcs.map fun r => if r.sender = n then { r with waiting := false } else r
    proposals := Function.update c.proposals n [] }

/-- Where the calls of node `n` stand: its election. -/
def setElection (c : Cluster N P) (n : N) (el : Option (ElectionCall N)) : Cluster N P :=
  { c with election := Function.update c.election n el }

/-- Where the calls of node `n` stand: its `propose` calls. -/
def setProposals (c : Cluster N P) (n : N) (calls : List (ProposeCall P)) : Cluster N P :=
  { c with proposals := Function.update c.proposals n calls }

end Cluster

/-- The steps of the nodes' threads; `i` is the place of a call in its list. -/
inductive Action (N P : Type) where
  /-- `_start_election`, first block. -/
  | startElection (n : N)
  /-- `_start_election` asks its next peer. -/
  | requestVote (n : N)
  /-- `handle_request_vote` at the peer asked. -/
  | handleRequestVote (i : ℕ)
  /-- `_start_election`, the block that handles a response. -/
  | voteReply (n : N)
  /-- `_start_election` got no response. -/
  | voteLost (n : N)
  /-- `_start_election`, last block. -/
  | finishElection (n : N)
  /-- `step_down`. -/
  | stepDown (n : N)
  /-- `propose` tests `is_leader()`, without the lock. -/
  | proposeCheck (n : N) (command : CommandType) (payload : P)
  /-- `propose`, the block that appends. -/
  | proposeAppend (n : N) (i : ℕ)
  /-- `propose`, the block in its waiting loop. -/
  | proposePoll (n : N) (i : ℕ)
  /-- `propose` passes its deadline. -/
  | proposeTimeout (n : N) (i : ℕ)
  /-- `_replicate_to_peer`, first block. -/
  | replicate (n : N) (peer : N)
  /-- `handle_append_entries` at the peer. -/
  | handleAppendEntries (i : ℕ)
  /-- `_replicate_to_peer`, second block. -/
  | replicateReply (i : ℕ)
  /-- `_replicate_to_peer` got no response. -/
  | replicateLost (i : ℕ)
  deriving DecidableEq, Repr

/-- What a locked block does: the node that holds the lock, how it leaves the node, the effects it
causes on the way, and where it leaves the calls. -/
structure Block (N P : Type) where
  actor : N
  node : RaftNode N P
  effects : List (Effect N P)
  calls : Cluster N P → Cluster N P

namespace Config

variable (cfg : Config N)

/-- The blocks of `_start_election` and `step_down`.
Source: `metadata/raft/node.py`, `_start_election`, `_become_leader`, `handle_request_vote`. -/
def electionBlock (c : Cluster N P) : Action N P → Option (Block N P)
  | .startElection n =>
      let nd := c.node n
      if n ∈ cfg.members ∧ c.election n = none ∧ nd.role ≠ .leader then
        let (nd, effs) := nd.startElection n
        let (lastIdx, lastTerm) := nd.lastLogInfo
        some ⟨n, nd, effs, fun c' => c'.setElection n
          (some ⟨nd.currentTerm, lastIdx, lastTerm, cfg.peers n, none⟩)⟩
      else none
  | .requestVote n =>
      match c.election n with
      | some ⟨term, lastIdx, lastTerm, peer :: pending, none⟩ =>
          some ⟨n, c.node n, [], fun c' =>
            { c'.setElection n (some ⟨term, lastIdx, lastTerm, pending, some c'.voteRpcs.length⟩) with
              voteRpcs := c'.voteRpcs ++ [⟨n, peer, ⟨term, n, lastIdx, lastTerm⟩, none⟩] }⟩
      | _ => none
  | .handleRequestVote i =>
      match c.voteRpcs[i]? with
      | some ⟨candidate, peer, request, none⟩ =>
          let (nd, effs, resp) := (c.node peer).handleRequestVote request
          some ⟨peer, nd, effs, fun c' =>
            { c' with voteRpcs := c'.voteRpcs.set i ⟨candidate, peer, request, some resp⟩ }⟩
      | _ => none
  | .voteReply n =>
      match c.election n with
      | some ⟨term, lastIdx, lastTerm, pending, some i⟩ =>
          match c.voteRpcs[i]?.bind VoteRpc.response with
          | some resp =>
              let (nd, effs, goesOn) := (c.node n).handleVoteResponse resp
              some ⟨n, nd, effs, fun c' => c'.setElection n
                (if goesOn then some ⟨term, lastIdx, lastTerm, pending, none⟩ else none)⟩
          | none => none
      | _ => none
  | .voteLost n =>
      match c.election n with
      | some ⟨term, lastIdx, lastTerm, pending, some _⟩ =>
          some ⟨n, c.node n, [], fun c' => c'.setElection n
            (some ⟨term, lastIdx, lastTerm, pending, none⟩)⟩
      | _ => none
  | .finishElection n =>
      match c.election n with
      | some ⟨_, _, _, [], none⟩ =>
          let nd := c.node n
          if nd.winsElection (cfg.peers n) then
            some ⟨n, nd.becomeLeader n (cfg.peers n), [], fun c' =>
              { c'.setElection n none with elected := (n, nd.currentTerm) :: c'.elected }⟩
          else some ⟨n, nd, [], fun c' => c'.setElection n none⟩
      | _ => none
  | .stepDown n => if n ∈ cfg.members then some ⟨n, (c.node n).stepDown, [], id⟩ else none
  | _ => none

/-- The blocks of `propose`.
Source: `metadata/raft/node.py`, `propose`. -/
def proposeBlock (c : Cluster N P) : Action N P → Option (Block N P)
  | .proposeCheck n command payload =>
      if n ∈ cfg.members then
        if (c.node n).role = .leader then
          some ⟨n, c.node n, [], fun c' =>
            c'.setProposals n (c'.proposals n ++ [.checked command payload])⟩
        else
          some ⟨n, c.node n, [], fun c' =>
            { c' with results := (n, none, ⟨false, 0, some .notLeader⟩) :: c'.results }⟩
      else none
  | .proposeAppend n i =>
      match (c.proposals n)[i]? with
      | some (.checked command payload) =>
          let (nd, effs, entry) :=
            (c.node n).proposeLocked (cfg.threshold n) (cfg.peers n) command payload
          some ⟨n, nd, effs, fun c' =>
            c'.setProposals n ((c'.proposals n).set i (.waiting entry))⟩
      | _ => none
  | .proposePoll n i =>
      match (c.proposals n)[i]? with
      | some (.waiting entry) =>
          let nd := c.node n
          if entry.index ≤ nd.commitIndex then
            some ⟨n, nd, [], fun c' =>
              { c'.setProposals n ((c'.proposals n).eraseIdx i) with
                results := (n, some entry, ⟨true, entry.index, none⟩) :: c'.results }⟩
          else if nd.role ≠ .leader then
            some ⟨n, nd, [], fun c' =>
              { c'.setProposals n ((c'.proposals n).eraseIdx i) with
                results := (n, some entry, ⟨false, 0, some .lostLeadership⟩) :: c'.results }⟩
          else some ⟨n, nd, [], id⟩
      | _ => none
  | .proposeTimeout n i =>
      match (c.proposals n)[i]? with
      | some (.waiting entry) =>
          some ⟨n, c.node n, [], fun c' =>
            { c'.setProposals n ((c'.proposals n).eraseIdx i) with
              results := (n, some entry, ⟨false, 0, some .commitTimeout⟩) :: c'.results }⟩
      | _ => none
  | _ => none

/-- The blocks of `_replicate_to_peer` and of the peer it calls.
Source: `metadata/raft/node.py`, `_replicate_to_peer`, `handle_append_entries`. -/
def replicateBlock (c : Cluster N P) : Action N P → Option (Block N P)
  | .replicate n peer =>
      if n ∈ cfg.members ∧ peer ∈ cfg.peers n ∧ (c.node n).role = .leader then
        some ⟨n, c.node n, [], fun c' =>
          { c' with
            appendRpcs := c'.appendRpcs ++
              [⟨n, peer, RaftNode.buildAppendEntries n (c.node n) peer, true, none⟩] }⟩
      else none
  | .handleAppendEntries i =>
      match c.appendRpcs[i]? with
      | some ⟨sender, peer, request, waiting, none⟩ =>
          let (nd, effs, resp) := (c.node peer).handleAppendEntries request
          some ⟨peer, nd, effs, fun c' =>
            { c' with
              appendRpcs := c'.appendRpcs.set i ⟨sender, peer, request, waiting, some resp⟩ }⟩
      | _ => none
  | .replicateReply i =>
      match c.appendRpcs[i]? with
      | some ⟨sender, peer, request, true, some resp⟩ =>
          let (nd, effs) := (c.node sender).handleAppendResponse (cfg.threshold sender)
            (cfg.peers sender) peer request resp
          some ⟨sender, nd, effs, fun c' =>
            { c' with appendRpcs := c'.appendRpcs.set i ⟨sender, peer, request, false, some resp⟩ }⟩
      | _ => none
  | .replicateLost i =>
      match c.appendRpcs[i]? with
      | some ⟨sender, peer, request, true, resp⟩ =>
          some ⟨sender, c.node sender, [], fun c' =>
            { c' with appendRpcs := c'.appendRpcs.set i ⟨sender, peer, request, false, resp⟩ }⟩
      | _ => none
  | _ => none

/-- The block an action runs in a state, if it can run. -/
def block (c : Cluster N P) (a : Action N P) : Option (Block N P) :=
  (cfg.electionBlock c a).or ((cfg.proposeBlock c a).or (cfg.replicateBlock c a))

end Config

/-- What happens in a cluster. -/
inductive Event (N P : Type) where
  /-- A block runs. -/
  | run (a : Action N P)
  /-- The node of a block crashes within it, `effects` of its durable effects done, and starts
  again. -/
  | crash (a : Action N P) (effects : ℕ)
  /-- A node crashes between two blocks and starts again. -/
  | restart (n : N)
  deriving DecidableEq, Repr

namespace Config

variable (cfg : Config N)

/-- What an event makes of a state, if it can happen in it. -/
def step (c : Cluster N P) : Event N P → Option (Cluster N P)
  | .run a => (cfg.block c a).map fun b => b.calls (c.runBlock b.actor b.node b.effects)
  | .crash a k => (cfg.block c a).map fun b =>
      (c.perform b.actor (b.effects.take k)).restart b.actor
  | .restart n => if n ∈ cfg.members then some (c.restart n) else none

/-- The state a run reaches when every step can happen and meets `C`. -/
def runWhile (C : Cluster N P → Event N P → Bool) (c : Cluster N P) :
    List (Event N P) → Option (Cluster N P)
  | [] => some c
  | ev :: evs => if C c ev then (cfg.step c ev).bind fun c' => runWhile C c' evs else none

/-- The state a run from the start reaches. -/
def run (evs : List (Event N P)) : Option (Cluster N P) :=
  cfg.runWhile (fun _ _ => true) (Cluster.init N P) evs

end Config

/-! ## Conditions on steps -/

/-- The action of an event, also when a crash cuts it short. -/
def Event.action? : Event N P → Option (Action N P)
  | .run a => some a
  | .crash a _ => some a
  | .restart _ => none

/-- The locked append of a `propose` finds the node in a term it was elected in. -/
def electedAppend (c : Cluster N P) (ev : Event N P) : Bool :=
  match ev.action? with
  | some (.proposeAppend n _) => decide ((n, (c.node n).currentTerm) ∈ c.elected)
  | _ => true

/-- A success response is handled in the term its request was sent in. -/
def freshResponse (c : Cluster N P) (ev : Event N P) : Bool :=
  match ev.action? with
  | some (.replicateReply i) => c.appendRpcs[i]?.all fun rpc => rpc.response.all fun resp =>
      !resp.success || decide ((c.node rpc.sender).currentTerm = rpc.request.term)
  | _ => true

/-- A block that takes positions of the log for indexes finds a log nothing was compacted from. -/
def readsWholeLog (cfg : Config N) (c : Cluster N P) (ev : Event N P) : Bool :=
  match ev.action? with
  | some (.proposeAppend n _) =>
      decide (cfg.peers n ≠ []) || decide ((c.node n).snapshotIndex = 0)
  | some (.replicate n _) => decide ((c.node n).snapshotIndex = 0)
  | some (.handleAppendEntries i) => c.appendRpcs[i]?.all fun rpc =>
      decide (rpc.request.term < (c.node rpc.peer).currentTerm) ||
        decide ((c.node rpc.peer).snapshotIndex = 0)
  | some (.replicateReply i) => c.appendRpcs[i]?.all fun rpc => rpc.response.all fun resp =>
      !resp.success || decide ((c.node rpc.sender).snapshotIndex = 0)
  | _ => true

/-- Whether an effect stores a snapshot. -/
def Effect.isSnapshot : Effect N P → Bool
  | .saveSnapshot _ _ _ => true
  | _ => false

/-- The block of an event stores no snapshot. -/
def noCompaction (cfg : Config N) (c : Cluster N P) (ev : Event N P) : Bool :=
  (ev.action?.bind (cfg.block c)).all fun b => b.effects.all fun e => !e.isSnapshot

end NanoFabric.Raft
