import NanoFabric.Raft.Representation
import NanoFabric.Raft.Runs

/-!
# A leader and a peer

`_replicate_to_peer` on a leader and `handle_append_entries` on the peer as one loop, in which every
response arrives before the next request is sent. Between two rounds the leader may append entries of
its own and handle the responses of other peers, which may commit and compact.

* `Link`, `Pair`, `Turn` — the two nodes, and what happens to them; `Link.rounds` are the rounds of a
  run, in order.
* `Link.runs_round`, `Link.runs_rounds` — a round is three steps of the cluster, one after the other,
  and rounds in a row are a run of it.
* `RaftNode.nextIndex_handleAppendResponse` — what a response does to the next indexes.
* `Link.keeps_of_round`, `Link.nextIndex_of_rejected` — rounds in which the leader keeps its term, and
  those that are refused.
-/

namespace NanoFabric.Raft

variable {N P : Type}

/-! ## The loop -/

/-- A member of a cluster and a peer that it replicates to. -/
structure Link (N : Type) [DecidableEq N] where
  cfg : Config N
  self : N
  peer : N
  peer_mem : peer ∈ cfg.peers self

/-- The two nodes of a link. -/
structure Pair (N P : Type) where
  leader : RaftNode N P
  follower : RaftNode N P

/-- A call of `_replicate_to_peer` that was answered. -/
structure Round (N P : Type) where
  /-- The leader as of the request. -/
  sender : RaftNode N P
  response : AppendEntriesResponse
  /-- The nodes once the response has been handled. -/
  after : Pair N P

/-- What happens on a link with `peer`. The calls of `_replicate_to_peer` that a `propose` makes are
turns of their own. -/
inductive Turn (N P : Type) (peer : N) where
  /-- `_replicate_to_peer`, from its request to the end of its second block. -/
  | replicate
  /-- `propose`, the block that appends. -/
  | propose (command : CommandType) (payload : P)
  /-- `_replicate_to_peer` for another peer, second block. -/
  | reply (other : N) (hne : other ≠ peer) (request : AppendEntriesRequest N P)
      (response : AppendEntriesResponse)

namespace Link

variable [DecidableEq N] (l : Link N)

/-- `_replicate_to_peer` with `handle_append_entries` of the peer between its two blocks.
Source: `metadata/raft/node.py`, `_replicate_to_peer`. -/
def replicateToPeer (s : Pair N P) : Option (Round N P) :=
  if s.leader.role = .leader then
    let req := s.leader.buildAppendEntries l.self l.peer
    let (follower, _, resp) := s.follower.handleAppendEntries req
    let (leader, _) := s.leader.handleAppendResponse (l.cfg.threshold l.self)
      (l.cfg.peers l.self) l.peer req resp
    some ⟨s.leader, resp, ⟨leader, follower⟩⟩
  else none

/-- The round of a turn, if it is one. -/
def round (s : Pair N P) : Turn N P l.peer → Option (Round N P)
  | .replicate => l.replicateToPeer s
  | _ => none

/-- The nodes after a turn. -/
def turn (s : Pair N P) : Turn N P l.peer → Pair N P
  | .replicate =>
      match l.replicateToPeer s with
      | some r => r.after
      | none => s
  | .propose command payload =>
      { s with leader := (s.leader.proposeLocked (l.cfg.threshold l.self) (l.cfg.peers l.self)
          command payload).1 }
  | .reply other _ request response =>
      { s with leader := (s.leader.handleAppendResponse (l.cfg.threshold l.self)
          (l.cfg.peers l.self) other request response).1 }

/-- The nodes after some turns. -/
def run (s : Pair N P) (turns : List (Turn N P l.peer)) : Pair N P := turns.foldl l.turn s

/-- The rounds among some turns. -/
def rounds : Pair N P → List (Turn N P l.peer) → List (Round N P)
  | _, [] => []
  | s, t :: turns => (l.round s t).toList ++ rounds (l.turn s t) turns

/-- The next index of the peer, as `_replicate_to_peer` reads it. -/
def nextIndex (nd : RaftNode N P) : ℕ := (nd.nextIndex l.peer).getD 1

/-- The log of a leader of a term with what it appends in some turns, were nothing cut off. -/
def grown (term : ℕ) : List (LogEntry P) → List (Turn N P l.peer) → List (LogEntry P)
  | G, [] => G
  | G, .propose command payload :: turns =>
      grown term (G ++ [⟨G.length + 1, term, command, payload⟩]) turns
  | G, .replicate :: turns => grown term G turns
  | G, .reply _ _ _ _ :: turns => grown term G turns

/-! ## Rounds as steps of the cluster -/

theorem peer_ne : l.peer ≠ l.self :=
  of_decide_eq_true (List.mem_filter.mp l.peer_mem).2

theorem peers_ne_nil : l.cfg.peers l.self ≠ [] := List.ne_nil_of_mem l.peer_mem

theorem replicateToPeer_eq_some {s : Pair N P} {r : Round N P} :
    l.replicateToPeer s = some r ↔ s.leader.role = .leader ∧
      r = ⟨s.leader, (s.follower.handleAppendEntries (s.leader.buildAppendEntries l.self l.peer)).2.2,
        ⟨(s.leader.handleAppendResponse (l.cfg.threshold l.self) (l.cfg.peers l.self) l.peer
            (s.leader.buildAppendEntries l.self l.peer)
            (s.follower.handleAppendEntries (s.leader.buildAppendEntries l.self l.peer)).2.2).1,
          (s.follower.handleAppendEntries (s.leader.buildAppendEntries l.self l.peer)).1⟩⟩ := by
  unfold replicateToPeer
  rw [Option.ite_none_right_eq_some, Option.some.injEq]
  exact and_congr_right fun _ => eq_comm

end Link

section cluster

variable [DecidableEq N] (cfg : Config N) {c : Cluster N P} {n peer : N} {i : ℕ}
  {request : AppendEntriesRequest N P} {response : AppendEntriesResponse}

theorem step_of_block {a : Action N P} {b : Block N P} (h : cfg.block c a = some b) :
    cfg.step c (.run a) = some (b.calls (c.runBlock b.actor b.node b.effects)) :=
  congrArg (Option.map _) h

theorem step_replicate (hn : n ∈ cfg.members) (hpeer : peer ∈ cfg.peers n)
    (hrole : (c.node n).role = .leader) :
    ∃ c', cfg.step c (.run (.replicate n peer)) = some c' ∧ c'.node = c.node ∧
      c'.appendRpcs = c.appendRpcs ++
        [⟨n, peer, (c.node n).buildAppendEntries n peer, true, none⟩] :=
  ⟨_, step_of_block cfg (if_pos ⟨hn, hpeer, hrole⟩), Function.update_eq_self n c.node, rfl⟩

theorem step_handleAppendEntries (h : c.appendRpcs[i]? = some ⟨n, peer, request, true, none⟩) :
    ∃ c', cfg.step c (.run (.handleAppendEntries i)) = some c' ∧
      c'.node = Function.update c.node peer ((c.node peer).handleAppendEntries request).1 ∧
      c'.appendRpcs = c.appendRpcs.set i
        ⟨n, peer, request, true, some ((c.node peer).handleAppendEntries request).2.2⟩ := by
  have hblock : cfg.block c (.handleAppendEntries i) = some
      ⟨peer, ((c.node peer).handleAppendEntries request).1,
        ((c.node peer).handleAppendEntries request).2.1, fun c' =>
          { c' with
            appendRpcs := c'.appendRpcs.set i
              ⟨n, peer, request, true, some ((c.node peer).handleAppendEntries request).2.2⟩ }⟩ := by
    show cfg.replicateBlock c (.handleAppendEntries i) = _
    rw [Config.replicateBlock, h]
  refine ⟨_, step_of_block cfg hblock, rfl, ?_⟩
  show (c.perform _ _).appendRpcs.set i _ = _
  rw [Cluster.perform_appendRpcs]

theorem step_replicateReply
    (h : c.appendRpcs[i]? = some ⟨n, peer, request, true, some response⟩) :
    ∃ c', cfg.step c (.run (.replicateReply i)) = some c' ∧
      c'.node = Function.update c.node n ((c.node n).handleAppendResponse (cfg.threshold n)
        (cfg.peers n) peer request response).1 := by
  have hblock : cfg.block c (.replicateReply i) = some
      ⟨n, ((c.node n).handleAppendResponse (cfg.threshold n) (cfg.peers n) peer request response).1,
        ((c.node n).handleAppendResponse (cfg.threshold n) (cfg.peers n) peer request response).2,
        fun c' => { c' with
          appendRpcs := c'.appendRpcs.set i ⟨n, peer, request, false, some response⟩ }⟩ := by
    show cfg.replicateBlock c (.replicateReply i) = _
    rw [Config.replicateBlock, h]
  exact ⟨_, step_of_block cfg hblock, rfl⟩

end cluster

namespace Link

variable [DecidableEq N] (l : Link N)

/-- A round is a run of the cluster: the request is sent, delivered, and its response handled. -/
theorem runs_round {c : Cluster N P} {r : Round N P} (hself : l.self ∈ l.cfg.members)
    (h : l.replicateToPeer ⟨c.node l.self, c.node l.peer⟩ = some r) :
    ∃ c', l.cfg.runWhile (fun _ _ => true) c
        (replicateEvents l.self l.peer c.appendRpcs.length) = some c' ∧
      c'.node l.self = r.after.leader ∧ c'.node l.peer = r.after.follower := by
  obtain ⟨hrole, rfl⟩ := l.replicateToPeer_eq_some.mp h
  obtain ⟨c₁, hstep₁, hnode₁, hrpcs₁⟩ := step_replicate l.cfg hself l.peer_mem hrole
  have hget₁ : c₁.appendRpcs[c.appendRpcs.length]? = some
      ⟨l.self, l.peer, (c.node l.self).buildAppendEntries l.self l.peer, true, none⟩ := by
    rw [hrpcs₁, List.getElem?_concat_length]
  obtain ⟨c₂, hstep₂, hnode₂, hrpcs₂⟩ := step_handleAppendEntries l.cfg hget₁
  rw [hnode₁] at hnode₂ hrpcs₂
  have hget₂ : c₂.appendRpcs[c.appendRpcs.length]? = some
      ⟨l.self, l.peer, (c.node l.self).buildAppendEntries l.self l.peer, true,
        some ((c.node l.peer).handleAppendEntries
          ((c.node l.self).buildAppendEntries l.self l.peer)).2.2⟩ := by
    rw [hrpcs₂]
    exact List.getElem?_set_self (List.getElem?_eq_some_iff.mp hget₁).1
  obtain ⟨c₃, hstep₃, hnode₃⟩ := step_replicateReply l.cfg hget₂
  refine ⟨c₃, ?_, ?_, ?_⟩
  · simp only [replicateEvents, Config.runWhile, hstep₁, hstep₂, hstep₃, if_true, Option.bind_some]
  · rw [hnode₃, Function.update_self, hnode₂, Function.update_of_ne l.peer_ne.symm]
  · rw [hnode₃, Function.update_of_ne l.peer_ne, hnode₂, Function.update_self]

/-- Rounds one after another are a run of the cluster, too. -/
theorem runs_rounds (hself : l.self ∈ l.cfg.members) (n : ℕ) (c : Cluster N P) :
    ∃ evs c', l.cfg.runWhile (fun _ _ => true) c evs = some c' ∧
      (⟨c'.node l.self, c'.node l.peer⟩ : Pair N P) =
        l.run ⟨c.node l.self, c.node l.peer⟩ (List.replicate n .replicate) := by
  induction n generalizing c with
  | zero => exact ⟨[], c, rfl, rfl⟩
  | succ n ih =>
      rcases hr : l.replicateToPeer ⟨c.node l.self, c.node l.peer⟩ with _ | r
      · -- who is no leader sends nothing
        obtain ⟨evs, c', hrun, hpair⟩ := ih c
        refine ⟨evs, c', hrun, hpair.trans ?_⟩
        simp only [run, List.replicate_succ, List.foldl_cons, turn, hr]
      · obtain ⟨c₁, hround, hleader, hfollower⟩ := l.runs_round hself hr
        obtain ⟨evs, c', hrun, hpair⟩ := ih c₁
        refine ⟨_, c', Config.runWhile_append hround hrun, hpair.trans ?_⟩
        rw [hleader, hfollower]
        simp only [run, List.replicate_succ, List.foldl_cons, turn, hr]

end Link

/-! ## The leader's side of a response -/

namespace RaftNode

/-- An uncompacted log after `_advance_commit_index` was uncompacted before, and is the same. -/
theorem advanceCommitIndex_whole {threshold : ℕ} {peers : List N} {nd : RaftNode N P}
    (h : (nd.advanceCommitIndex threshold peers).1.snapshotIndex = 0) :
    nd.snapshotIndex = 0 ∧ (nd.advanceCommitIndex threshold peers).1.log = nd.log := by
  rcases advanceCommitIndex_cases threshold peers nd with heq | ⟨k, hlt, -, -, heq⟩
  · rw [heq] at h ⊢
    exact ⟨h, rfl⟩
  · rw [heq] at h ⊢
    rcases maybeSnapshot_cases threshold { nd with commitIndex := k }.caughtUp with hs | hs
    · rw [hs] at h ⊢
      exact ⟨h, rfl⟩
    · -- a snapshot is of all entries up to the new commit index
      rw [hs] at h
      have happlied : nd.lastApplied + (k - nd.lastApplied) = 0 := h
      omega

/-- A leader commits nothing on a log without entries of its term. -/
theorem advanceCommitIndex_of_older (threshold : ℕ) (peers : List N) {nd : RaftNode N P}
    (h : ∀ e ∈ nd.log, e.term ≠ nd.currentTerm) :
    nd.advanceCommitIndex threshold peers = (nd, []) := by
  rcases advanceCommitIndex_cases threshold peers nd with heq | ⟨k, -, -, hcommits, -⟩
  · exact heq
  · unfold commits at hcommits
    rw [Bool.and_eq_true, decide_eq_true_iff] at hcommits
    obtain ⟨e, he, hterm⟩ := Option.map_eq_some_iff.mp hcommits.1
    exact absurd hterm (h e (List.mem_of_getElem? he))

section response

variable [DecidableEq N] {threshold : ℕ} {peers : List N} {peer : N}
  {req : AppendEntriesRequest N P} {nd : RaftNode N P} {resp : AppendEntriesResponse}

/-- What a leader notes of a peer that took a request. -/
def acknowledged (nd : RaftNode N P) (peer : N) (req : AppendEntriesRequest N P) : RaftNode N P :=
  match req.entries.getLast? with
  | some last => { nd with
      matchIndex := Function.update nd.matchIndex peer (some last.index)
      nextIndex := Function.update nd.nextIndex peer (some (last.index + 1)) }
  | none => { nd with
      matchIndex := Function.update nd.matchIndex peer (some req.prevLogIndex) }

theorem handleAppendResponse_of_success (hterm : resp.term ≤ nd.currentTerm)
    (hsucc : resp.success = true) : nd.handleAppendResponse threshold peers peer req resp =
      (nd.acknowledged peer req).advanceCommitIndex threshold peers := by
  unfold handleAppendResponse
  rw [if_neg (not_lt.mpr hterm), if_pos hsucc]
  rfl

theorem handleAppendResponse_of_failure (hterm : resp.term ≤ nd.currentTerm)
    (hfail : resp.success = false) (hprev : 0 < req.prevLogIndex) :
    nd.handleAppendResponse threshold peers peer req resp =
      ({ nd with nextIndex := Function.update nd.nextIndex peer (some req.prevLogIndex) }, []) := by
  unfold handleAppendResponse
  rw [if_neg (not_lt.mpr hterm), if_neg (by rw [hfail]; exact Bool.false_ne_true), if_pos hprev]

theorem handleAppendResponse_whole
    (h : (nd.handleAppendResponse threshold peers peer req resp).1.snapshotIndex = 0) :
    nd.snapshotIndex = 0 ∧
      (nd.handleAppendResponse threshold peers peer req resp).1.log = nd.log := by
  rcases handleAppendResponse_cases threshold peers peer req nd resp with
    ⟨hlt, heq⟩ | ⟨-, -, next, matched, -, -, heq⟩ | ⟨-, -, next, heq⟩
  · rw [heq] at h ⊢
    unfold becomeFollower at h ⊢
    rw [if_pos hlt] at h ⊢
    exact ⟨h, rfl⟩
  · rw [heq] at h ⊢
    exact advanceCommitIndex_whole h
  · rw [heq] at h ⊢
    exact ⟨h, rfl⟩

/-- A response leaves the next indexes, or sets that of its peer, to no less than one. -/
theorem nextIndex_handleAppendResponse (threshold : ℕ) (peers : List N) (peer : N)
    (req : AppendEntriesRequest N P) (nd : RaftNode N P) (resp : AppendEntriesResponse) :
    (nd.handleAppendResponse threshold peers peer req resp).1.nextIndex = nd.nextIndex ∨
      ∃ k, 1 ≤ k ∧ (nd.handleAppendResponse threshold peers peer req resp).1.nextIndex =
        Function.update nd.nextIndex peer (some k) := by
  by_cases hterm : nd.currentTerm < resp.term
  · left
    unfold handleAppendResponse becomeFollower
    rw [if_pos hterm, if_pos hterm]
  · rcases hsucc : resp.success with _ | _
    · by_cases hprev : 0 < req.prevLogIndex
      · right
        rw [handleAppendResponse_of_failure (not_lt.mp hterm) hsucc hprev]
        exact ⟨req.prevLogIndex, hprev, rfl⟩
      · left
        unfold handleAppendResponse
        rw [if_neg hterm, hsucc, if_neg Bool.false_ne_true, if_neg hprev]
    · rw [handleAppendResponse_of_success (not_lt.mp hterm) hsucc, (advanceCommitIndex_peers _ _ _).1]
      unfold acknowledged
      split
      · exact Or.inr ⟨_, Nat.le_add_left 1 _, rfl⟩
      · exact Or.inl rfl

/-- A response moves the next index of its peer only. -/
theorem nextIndex_handleAppendResponse_of_ne {p : N} (hne : p ≠ peer) :
    (nd.handleAppendResponse threshold peers peer req resp).1.nextIndex p = nd.nextIndex p := by
  rcases nextIndex_handleAppendResponse threshold peers peer req nd resp with heq | ⟨k, -, heq⟩
  · rw [heq]
  · rw [heq, Function.update_of_ne hne]

/-- The next indexes stay above zero. -/
theorem one_le_nextIndex_handleAppendResponse {p : N} (h : 1 ≤ (nd.nextIndex p).getD 1) :
    1 ≤ ((nd.handleAppendResponse threshold peers peer req resp).1.nextIndex p).getD 1 := by
  rcases nextIndex_handleAppendResponse threshold peers peer req nd resp with heq | ⟨k, hk, heq⟩
  · rwa [heq]
  · rw [heq]
    by_cases hp : p = peer
    · rw [hp, Function.update_self]
      exact hk
    · rwa [Function.update_of_ne hp]

theorem currentTerm_le_handleAppendResponse :
    nd.currentTerm ≤ (nd.handleAppendResponse threshold peers peer req resp).1.currentTerm := by
  rcases handleAppendResponse_cases threshold peers peer req nd resp with
    ⟨-, heq⟩ | ⟨-, -, next, matched, -, -, heq⟩ | ⟨-, -, next, heq⟩
  · rw [heq, becomeFollower_currentTerm]
    exact le_max_left _ _
  · rw [heq, (quiet_advanceCommitIndex _ _ _).term]
  · rw [heq]

/-- A node that keeps its term through a response keeps its role. -/
theorem handleAppendResponse_keeps
    (h : (nd.handleAppendResponse threshold peers peer req resp).1.currentTerm = nd.currentTerm) :
    resp.term ≤ nd.currentTerm ∧
      (nd.handleAppendResponse threshold peers peer req resp).1.role = nd.role := by
  rcases handleAppendResponse_cases threshold peers peer req nd resp with
    ⟨hlt, heq⟩ | ⟨hle, -, next, matched, -, -, heq⟩ | ⟨hle, -, next, heq⟩
  · rw [heq, becomeFollower_currentTerm] at h
    omega
  · rw [heq]
    exact ⟨hle, (quiet_advanceCommitIndex _ _ _).role⟩
  · rw [heq]
    exact ⟨hle, rfl⟩

theorem handleAppendResponse_of_older (h : ∀ e ∈ nd.log, e.term ≠ nd.currentTerm) :
    (nd.handleAppendResponse threshold peers peer req resp).1.snapshotIndex = nd.snapshotIndex ∧
      (nd.handleAppendResponse threshold peers peer req resp).1.log = nd.log := by
  rcases handleAppendResponse_cases threshold peers peer req nd resp with
    ⟨hlt, heq⟩ | ⟨-, -, next, matched, -, -, heq⟩ | ⟨-, -, next, heq⟩
  · rw [heq]
    unfold becomeFollower
    rw [if_pos hlt]
    exact ⟨rfl, rfl⟩
  · have hsame : advanceCommitIndex threshold peers { nd with
        nextIndex := next
        matchIndex := Function.update nd.matchIndex peer (some matched) } = _ :=
      advanceCommitIndex_of_older threshold peers h
    rw [heq, hsame]
    exact ⟨rfl, rfl⟩
  · rw [heq]
    exact ⟨rfl, rfl⟩

end response

end RaftNode

/-! ## One turn -/

namespace Link

variable [DecidableEq N] (l : Link N)

theorem prefix_grown (term : ℕ) : ∀ (turns : List (Turn N P l.peer)) (G : List (LogEntry P)),
    G <+: l.grown term G turns
  | [], _ => List.prefix_rfl
  | .propose _ _ :: turns, _ => (List.prefix_append _ _).trans (prefix_grown term turns _)
  | .replicate :: turns, G => prefix_grown term turns G
  | .reply _ _ _ _ :: turns, G => prefix_grown term turns G

theorem aligned_grown (term : ℕ) : ∀ (turns : List (Turn N P l.peer)) {G : List (LogEntry P)},
    Aligned G → Aligned (l.grown term G turns)
  | [], _, hG => hG
  | .propose _ _ :: turns, G, hG => by
      refine aligned_grown term turns (contiguous_zero.mp (hG.contiguous.concat ?_))
      rw [Nat.zero_add]
  | .replicate :: turns, _, hG => aligned_grown term turns hG
  | .reply _ _ _ _ :: turns, _, hG => aligned_grown term turns hG

theorem turn_replicate {s : Pair N P} {r : Round N P} (hr : l.replicateToPeer s = some r) :
    l.turn s .replicate = r.after := by
  unfold turn
  rw [hr]

/-- A leader with a peer commits nothing when it appends. -/
theorem turn_propose (s : Pair N P) (command : CommandType) (payload : P) :
    l.turn s (.propose command payload) =
      { s with leader := (s.leader.appendLocalEntry command payload).1 } := by
  unfold turn
  rcases RaftNode.proposeLocked_cases (l.cfg.threshold l.self) (l.cfg.peers l.self) s.leader command
    payload with ⟨-, heq⟩ | ⟨hnil, -⟩
  · simp only [heq]
  · exact absurd hnil l.peers_ne_nil

theorem currentTerm_le_turn (s : Pair N P) (t : Turn N P l.peer) :
    s.leader.currentTerm ≤ (l.turn s t).leader.currentTerm := by
  cases t with
  | replicate =>
      rcases hr : l.replicateToPeer s with _ | r
      · unfold turn
        rw [hr]
      · rw [l.turn_replicate hr, (l.replicateToPeer_eq_some.mp hr).2]
        exact RaftNode.currentTerm_le_handleAppendResponse
  | propose command payload =>
      rw [turn_propose]
      exact le_rfl
  | reply other hne request response => exact RaftNode.currentTerm_le_handleAppendResponse

theorem currentTerm_le_run (s : Pair N P) (turns : List (Turn N P l.peer)) :
    s.leader.currentTerm ≤ (l.run s turns).leader.currentTerm := by
  unfold run
  induction turns generalizing s with
  | nil => exact le_rfl
  | cons t turns ih => exact (l.currentTerm_le_turn s t).trans (ih (l.turn s t))

theorem one_le_nextIndex_turn {s : Pair N P} (h : 1 ≤ l.nextIndex s.leader) (t : Turn N P l.peer) :
    1 ≤ l.nextIndex (l.turn s t).leader := by
  cases t with
  | replicate =>
      rcases hr : l.replicateToPeer s with _ | r
      · unfold turn
        rwa [hr]
      · rw [l.turn_replicate hr, (l.replicateToPeer_eq_some.mp hr).2]
        exact RaftNode.one_le_nextIndex_handleAppendResponse h
  | propose command payload =>
      rw [turn_propose]
      exact h
  | reply other hne request response => exact RaftNode.one_le_nextIndex_handleAppendResponse h

/-- An uncompacted log after a turn was uncompacted before it. -/
theorem snapshotIndex_of_turn {s : Pair N P} {t : Turn N P l.peer}
    (h : (l.turn s t).leader.snapshotIndex = 0) : s.leader.snapshotIndex = 0 := by
  cases t with
  | replicate =>
      rcases hr : l.replicateToPeer s with _ | r
      · unfold turn at h
        rwa [hr] at h
      · rw [l.turn_replicate hr, (l.replicateToPeer_eq_some.mp hr).2] at h
        exact (RaftNode.handleAppendResponse_whole h).1
  | propose command payload =>
      rw [turn_propose] at h
      exact h
  | reply other hne request response => exact (RaftNode.handleAppendResponse_whole h).1

section round

variable {l} {s : Pair N P} {r : Round N P}

/-- A leader that keeps its term through a round goes on leading, and its peer had no later term. -/
theorem keeps_of_round (hr : l.replicateToPeer s = some r)
    (hkeeps : r.after.leader.currentTerm = s.leader.currentTerm) :
    r.response.term ≤ s.leader.currentTerm ∧ r.after.leader.role = .leader ∧
      s.follower.currentTerm ≤ s.leader.currentTerm := by
  obtain ⟨hrole, rfl⟩ := l.replicateToPeer_eq_some.mp hr
  obtain ⟨hle, hsame⟩ := RaftNode.handleAppendResponse_keeps hkeeps
  refine ⟨hle, hsame.trans hrole, ?_⟩
  by_contra hlt
  -- a peer of a later term answers with that term
  have hold : (s.leader.buildAppendEntries l.self l.peer).term < s.follower.currentTerm :=
    not_le.mp hlt
  rw [RaftNode.handleAppendEntries_of_lt hold] at hle
  exact hlt hle

/-- The answer to a request of a term that is not old is what the check of the previous entry says. -/
theorem success_eq (hr : l.replicateToPeer s = some r)
    (hterm : s.follower.currentTerm ≤ s.leader.currentTerm) :
    r.response.success = s.follower.prevMatches (s.leader.buildAppendEntries l.self l.peer) := by
  obtain ⟨-, rfl⟩ := l.replicateToPeer_eq_some.mp hr
  have hterm' : s.follower.currentTerm ≤ (s.leader.buildAppendEntries l.self l.peer).term := hterm
  rcases hprev : s.follower.prevMatches (s.leader.buildAppendEntries l.self l.peer) with _ | _
  · simp only [RaftNode.handleAppendEntries_of_mismatch hterm' hprev]
  · simp only [RaftNode.handleAppendEntries_of_match hterm' hprev]

/-- A refused round takes the leader back by one entry, and leaves the log of the peer. -/
theorem nextIndex_of_rejected (hr : l.replicateToPeer s = some r)
    (hkeeps : r.after.leader.currentTerm = s.leader.currentTerm)
    (hfail : r.response.success = false) :
    l.nextIndex r.after.leader + 1 = l.nextIndex s.leader ∧
      r.after.follower.log = s.follower.log := by
  obtain ⟨hle, -, hterm⟩ := keeps_of_round hr hkeeps
  have hprev := success_eq hr hterm
  rw [hfail] at hprev
  have hreq : (s.leader.buildAppendEntries l.self l.peer).prevLogIndex = l.nextIndex s.leader - 1 :=
    rfl
  -- the check refuses nothing at the start of the log
  have hpos : 0 < (s.leader.buildAppendEntries l.self l.peer).prevLogIndex := by
    by_contra hzero
    unfold RaftNode.prevMatches at hprev
    rw [decide_eq_true (by omega), Bool.true_or] at hprev
    cases hprev
  obtain ⟨-, rfl⟩ := l.replicateToPeer_eq_some.mp hr
  constructor
  · unfold nextIndex at hreq ⊢
    rw [RaftNode.handleAppendResponse_of_failure hle hfail hpos]
    simp only [Function.update_self, Option.getD_some]
    omega
  · rcases s.follower.log_handleAppendEntries (s.leader.buildAppendEntries l.self l.peer) with
      hlog | ⟨hmatch, -⟩
    · exact hlog
    · rw [hmatch] at hprev
      cases hprev

end round

end Link

end NanoFabric.Raft
