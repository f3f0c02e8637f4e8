import NanoFabric.Raft.BackOff
import NanoFabric.Raft.Safety

/-!
# A leader commits

What a node that has won an election commits while it leads: an entry that it appends, once enough of
its peers have answered often enough. The other nodes do what they will in the meantime, elections,
crashes and calls of their own included.

* `LeaderTurn`, `turn_of_step` — what a step does to a node that leads before and after it, and to its calls.
* `Newest` — the newest call of `_replicate_to_peer` to a peer.
* `Towards`, `Towards.turn` — how far the leader has come with a peer, and that every step keeps it.
* `leader_commits` — **the theorem**, for runs without compaction in which of the answers of a peer only
  those to the newest call are handled.
-/

namespace NanoFabric.Raft

open Found Found.ReplicatedLog

variable {N P : Type}

/-! ## Counting replicas -/

namespace RaftNode

variable {threshold : ℕ} {peers : List N} {nd : RaftNode N P} {k : ℕ}

theorem commitIndex_maybeSnapshot (threshold : ℕ) (nd : RaftNode N P) :
    (nd.maybeSnapshot threshold).1.commitIndex = nd.commitIndex := by
  rcases maybeSnapshot_cases threshold nd with h | h
  · rw [h]
  · rw [h]
    rfl

/-- `_advance_commit_index` commits the last position that it counts enough replicas for. -/
theorem le_commitIndex_of_commits (hle : k ≤ nd.log.length) (hc : nd.commits peers k = true) :
    k ≤ (nd.advanceCommitIndex threshold peers).1.commitIndex := by
  unfold advanceCommitIndex
  rcases hfind : nd.commitCandidates.find? (nd.commits peers) with _ | m
  · -- then `k` was no candidate
    by_contra hlt
    exact List.find?_eq_none.mp hfind k (mem_commitCandidates.mpr ⟨not_le.mp hlt, hle⟩) hc
  · simp only [applyPendingCommits_eq, commitIndex_maybeSnapshot]
    show k ≤ m
    by_contra hlt
    obtain ⟨-, before, after, hsplit, hnone⟩ := List.find?_eq_some_iff_append.mp hfind
    have hk : k ∈ nd.commitCandidates := by
      obtain ⟨hm, -⟩ := mem_commitCandidates.mp (List.mem_of_find?_eq_some hfind)
      exact mem_commitCandidates.mpr ⟨by omega, hle⟩
    have hsorted : nd.commitCandidates.Pairwise (· > ·) :=
      List.pairwise_reverse.mpr List.pairwise_lt_range'
    rw [hsplit] at hk hsorted
    rcases List.mem_append.mp hk with hk | hk
    · exact absurd hc (by simpa using hnone k hk)
    · rcases List.mem_cons.mp hk with rfl | hk
      · exact hlt le_rfl
      · have := List.rel_of_pairwise_cons (List.pairwise_append.mp hsorted).2.1 hk
        omega

theorem commitIndex_le_advanceCommitIndex (threshold : ℕ) (peers : List N) (nd : RaftNode N P) :
    nd.commitIndex ≤ (nd.advanceCommitIndex threshold peers).1.commitIndex := by
  rcases advanceCommitIndex_cases threshold peers nd with h | ⟨m, hm, -, -, h⟩
  · rw [h]
  · rw [h, commitIndex_maybeSnapshot]
    exact hm.le

/-- A majority that has reached a position of the leader's term commits it. -/
theorem commits_of_matched {Q : List N} (hQ : Q.Nodup) (hsub : ∀ p ∈ Q, p ∈ peers)
    (hmajority : majorityCount peers.length ≤ Q.length + 1)
    (hterm : (nd.log[k - 1]?.map LogEntry.term) = some nd.currentTerm)
    (hmatched : ∀ p ∈ Q, k ≤ (nd.matchIndex p).getD 0) : nd.commits peers k = true := by
  have hcount : Q.length ≤ (peers.filter fun p => decide (k ≤ (nd.matchIndex p).getD 0)).length := by
    refine (List.subperm_of_subset hQ fun p hp => ?_).length_le
    exact List.mem_filter.mpr ⟨hsub p hp, decide_eq_true (hmatched p hp)⟩
  rw [commits, Bool.and_eq_true, decide_eq_true_iff, decide_eq_true_iff]
  refine ⟨hterm, ?_⟩
  rw [replicaCount]
  omega

/-- Where nothing is compacted, the locked block of `propose` only appends. -/
theorem proposeLocked_whole {command : CommandType} {payload : P}
    (h : (nd.proposeLocked threshold peers command payload).1.snapshotIndex = 0) :
    (nd.proposeLocked threshold peers command payload).1.log =
      (nd.appendLocalEntry command payload).1.log := by
  rcases proposeLocked_cases threshold peers nd command payload with ⟨-, heq⟩ | ⟨-, heq⟩
  · rw [heq]
  · rw [heq] at h ⊢
    exact (advanceCommitIndex_whole h).2

section acknowledged

variable [DecidableEq N] {p : N} {req : AppendEntriesRequest N P}

/-- What a leader notes of a peer that took entries up to a position. -/
theorem acknowledged_of_last (hnext : req.prevLogIndex + 1 = (nd.nextIndex p).getD 1)
    (hlast : ∀ last, req.entries.getLast? = some last →
      last.index = req.prevLogIndex + req.entries.length) :
    (nd.acknowledged p req).matchIndex p = some (req.prevLogIndex + req.entries.length) ∧
      ((nd.acknowledged p req).nextIndex p).getD 1 = req.prevLogIndex + req.entries.length + 1 := by
  unfold acknowledged
  split
  next last h => simp only [Function.update_self, Option.getD_some, hlast last h, and_self]
  next h =>
    rw [List.getLast?_eq_none_iff.mp h]
    simp only [Function.update_self, List.length_nil, Nat.add_zero, true_and]
    exact hnext.symm

theorem acknowledged_frame (nd : RaftNode N P) (p : N) (req : AppendEntriesRequest N P) :
    (nd.acknowledged p req).log = nd.log ∧
      (nd.acknowledged p req).currentTerm = nd.currentTerm := by
  unfold acknowledged
  split <;> exact ⟨rfl, rfl⟩

/-- A refusal moves the next index only. -/
theorem handleAppendResponse_of_refused {resp : AppendEntriesResponse}
    (hterm : resp.term ≤ nd.currentTerm) (hfail : resp.success = false) :
    (nd.handleAppendResponse threshold peers p req resp).1.matchIndex = nd.matchIndex ∧
      (nd.handleAppendResponse threshold peers p req resp).1.commitIndex = nd.commitIndex := by
  rcases handleAppendResponse_cases threshold peers p req nd resp with
    ⟨hlt, -⟩ | ⟨-, hsucc, -⟩ | ⟨-, -, next, h⟩
  · omega
  · cases hfail.symm.trans hsucc
  · rw [h]
    exact ⟨rfl, rfl⟩

end acknowledged

end RaftNode

/-! ## What a step does to a leader -/

variable [DecidableEq N] {cfg : Config N} {c c' : Cluster N P} {n p : N} {term : ℕ} {ev : Event N P}

/-- The node leads in the term. -/
def LeadsIn (n : N) (term : ℕ) (c : Cluster N P) : Prop :=
  (c.node n).role = .leader ∧ (c.node n).currentTerm = term

/-- The peer whose answer node `n` handles in an event, if it handles one. -/
def answerTo (n : N) (c : Cluster N P) : Event N P → Option N
  | .run (.replicateReply i) =>
      c.appendRpcs[i]?.bind fun rpc => if rpc.sender = n then some rpc.peer else none
  | _ => none

/-- The nodes have the same log and commit index, and know the same of their peers. -/
structure SameView (nd nd' : RaftNode N P) : Prop where
  log : nd'.log = nd.log
  nextIndex : nd'.nextIndex = nd.nextIndex
  matchIndex : nd'.matchIndex = nd.matchIndex
  commitIndex : nd'.commitIndex = nd.commitIndex

omit [DecidableEq N] in
theorem SameView.rfl {nd : RaftNode N P} : SameView nd nd := ⟨Eq.refl _, Eq.refl _, Eq.refl _, Eq.refl _⟩

/-- The calls of node `n` are the same, except that for some of them it may no longer wait. -/
structure SameCalls (n : N) (rpcs rpcs' : List (AppendRpc N P)) : Prop where
  old : ∀ {i : ℕ} {rpc : AppendRpc N P}, rpcs'[i]? = some rpc → rpc.sender = n →
    ∃ rpc₀, rpcs[i]? = some rpc₀ ∧ rpc₀.sender = n ∧ rpc.peer = rpc₀.peer ∧
      rpc.request = rpc₀.request ∧ rpc.response = rpc₀.response ∧
        (rpc.waiting = true → rpc₀.waiting = true)
  kept : ∀ {i : ℕ} {rpc : AppendRpc N P}, rpcs[i]? = some rpc → rpc.sender = n →
    ∃ rpc', rpcs'[i]? = some rpc' ∧ rpc'.sender = n ∧ rpc'.peer = rpc.peer

/-- What an event does to node `n` and its calls, when it leads before and after. -/
inductive LeaderTurn (cfg : Config N) (n : N) (c c' : Cluster N P) (ev : Event N P) : Prop
  | idle (hanswer : answerTo n c ev = none) (hview : SameView (c.node n) (c'.node n))
      (hcalls : SameCalls n c.appendRpcs c'.appendRpcs)
  | sends (peer : N) (hpeer : peer ∈ cfg.peers n) (hanswer : answerTo n c ev = none)
      (hnode : c'.node n = c.node n)
      (hcalls : c'.appendRpcs = c.appendRpcs ++
        [⟨n, peer, (c.node n).buildAppendEntries n peer, true, none⟩])
  | delivers (i : ℕ) (rpc : AppendRpc N P) (hrpc : c.appendRpcs[i]? = some rpc)
      (hresponse : rpc.response = none) (hanswer : answerTo n c ev = none)
      (hview : SameView (c.node n) (c'.node n))
      (hcalls : c'.appendRpcs = c.appendRpcs.set i { rpc with
        response := some ((c.node rpc.peer).handleAppendEntries rpc.request).2.2 })
  | handles (i : ℕ) (rpc : AppendRpc N P) (resp : AppendEntriesResponse)
      (hrpc : c.appendRpcs[i]? = some rpc) (hsender : rpc.sender = n) (hwaiting : rpc.waiting = true)
      (hresponse : rpc.response = some resp) (hev : ev = .run (.replicateReply i))
      (hnode : c'.node n = ((c.node n).handleAppendResponse (cfg.threshold n) (cfg.peers n) rpc.peer
        rpc.request resp).1)
      (hcalls : c'.appendRpcs = c.appendRpcs.set i { rpc with waiting := false })
  | proposes (i : ℕ) (command : CommandType) (payload : P)
      (hcall : (c.proposals n)[i]? = some (.checked command payload)) (hanswer : answerTo n c ev = none)
      (hnode : c'.node n =
        ((c.node n).proposeLocked (cfg.threshold n) (cfg.peers n) command payload).1)
      (hcalls : SameCalls n c.appendRpcs c'.appendRpcs)

section calls

variable {rpcs : List (AppendRpc N P)} {rpc : AppendRpc N P} {i : ℕ}

omit [DecidableEq N] in
theorem SameCalls.rfl : SameCalls n rpcs rpcs :=
  ⟨fun h hs => ⟨_, h, hs, Eq.refl _, Eq.refl _, Eq.refl _, id⟩, fun h hs => ⟨_, h, hs, Eq.refl _⟩⟩

omit [DecidableEq N] in
/-- A call of another node. -/
theorem SameCalls.concat (h : rpc.sender ≠ n) : SameCalls n rpcs (rpcs ++ [rpc]) where
  old := by
    intro i r hr hs
    rcases Nat.lt_or_ge i rpcs.length with hi | hi
    · rw [List.getElem?_append_left hi] at hr
      exact SameCalls.rfl.old hr hs
    · rw [List.getElem?_append_right hi] at hr
      exact absurd (List.mem_singleton.mp (List.mem_of_getElem? hr) ▸ hs) h
  kept hr hs :=
    ⟨_, (List.getElem?_append_left (List.getElem?_eq_some_iff.mp hr).1).trans hr, hs, Eq.refl _⟩

omit [DecidableEq N] in
/-- Nobody waits for a call any more. -/
theorem SameCalls.set (h : rpcs[i]? = some rpc) :
    SameCalls n rpcs (rpcs.set i { rpc with waiting := false }) where
  old := by
    intro j r hr hs
    rw [List.getElem?_set] at hr
    split_ifs at hr with hij hlt
    · subst hij
      obtain rfl := Option.some.inj hr
      exact ⟨rpc, h, hs, Eq.refl _, Eq.refl _, Eq.refl _, fun hw => absurd hw Bool.false_ne_true⟩
    · exact SameCalls.rfl.old hr hs
  kept := by
    intro j r hr hs
    by_cases hij : i = j
    · subst hij
      obtain rfl := Option.some.inj (hr.symm.trans h)
      exact ⟨_, List.getElem?_set_self (List.getElem?_eq_some_iff.mp h).1, hs, Eq.refl _⟩
    · exact ⟨r, by rw [List.getElem?_set_ne hij]; exact hr, hs, Eq.refl _⟩

/-- Another node crashes. -/
theorem SameCalls.restart {m : N} (hm : m ≠ n) :
    SameCalls n rpcs (rpcs.map fun r => if r.sender = m then { r with waiting := false } else r) where
  old := by
    intro j r hr hs
    rw [List.getElem?_map] at hr
    obtain ⟨r₀, hr₀, rfl⟩ := Option.map_eq_some_iff.mp hr
    split_ifs at hs ⊢ with hsender
    · exact absurd (hsender.symm.trans hs) hm
    · exact ⟨r₀, hr₀, hs, Eq.refl _, Eq.refl _, Eq.refl _, id⟩
  kept := by
    intro j r hr hs
    have hne : r.sender ≠ m := fun h => hm (h.symm.trans hs)
    exact ⟨r, by rw [List.getElem?_map, hr, Option.map_some, if_neg hne], hs, Eq.refl _⟩

end calls

omit [DecidableEq N] in
theorem RaftNode.role_boot (d : RaftStorage N P) : (RaftNode.boot d).role = .follower := by
  rw [RaftNode.boot_eq]

/-- A node that leads after it has answered a vote request has at most voted. -/
theorem sameView_handleRequestVote {nd : RaftNode N P} {request : RequestVoteRequest N}
    (hlead : (nd.handleRequestVote request).1.role = .leader) :
    SameView nd (nd.handleRequestVote request).1 := by
  rcases RaftNode.handleRequestVote_cases nd request with ⟨-, h⟩ | ⟨nd', effs, -, hnd', h⟩
  · rw [h]
    exact .rfl
  rcases hnd' with ⟨rfl, -, -⟩ | ⟨-, rfl, -⟩
  · rcases h with h | ⟨-, -, h⟩
    · rw [h]
      exact .rfl
    · rw [h]
      exact ⟨rfl, rfl, rfl, rfl⟩
  · rcases h with h | ⟨-, -, h⟩
    · rw [h] at hlead
      cases hlead
    · rw [h] at hlead
      cases hlead

omit [DecidableEq N] in
theorem sameView_handleVoteResponse {nd : RaftNode N P} {resp : RequestVoteResponse}
    (hlead : (nd.handleVoteResponse resp).1.role = .leader) :
    SameView nd (nd.handleVoteResponse resp).1 := by
  rcases RaftNode.handleVoteResponse_cases nd resp with ⟨-, h⟩ | ⟨-, h⟩ | h
  · rw [h] at hlead
    cases hlead
  · rw [h]
    exact ⟨rfl, rfl, rfl, rfl⟩
  · rw [h]
    exact .rfl

omit [DecidableEq N] in
theorem sameView_handleAppendEntries {nd : RaftNode N P} {request : AppendEntriesRequest N P}
    (hlead : (nd.handleAppendEntries request).1.role = .leader) :
    SameView nd (nd.handleAppendEntries request).1 := by
  rcases RaftNode.handleAppendEntries_role nd request with h | h
  · rw [h] at hlead
    cases hlead
  · rw [h]
    exact .rfl

/-- A node that leads a term before a step and after it has done one of a few things. -/
theorem turn_of_step (hstep : cfg.step c ev = some c') (hlead : LeadsIn n term c)
    (hlead' : LeadsIn n term c') : LeaderTurn cfg n c c' ev := by
  obtain ⟨a, b, hb, ⟨rfl, rfl⟩ | ⟨k, hev, rfl⟩⟩ := Config.step_cases hstep
  · have hnode : (b.calls (c.runBlock b.actor b.node b.effects)).node =
        Function.update c.node b.actor b.node := ((Config.runs_of_block hb).calls_frame _).1
    have hrpcs : (c.runBlock b.actor b.node b.effects).appendRpcs = c.appendRpcs :=
      c.perform_appendRpcs b.actor b.effects
    have hview : (b.actor = n → SameView (c.node n) b.node) →
        SameView (c.node n) ((b.calls (c.runBlock b.actor b.node b.effects)).node n) := by
      intro h
      rw [hnode]
      obtain hactor | hactor := eq_or_ne b.actor n
      · rw [hactor, Function.update_self]
        exact h hactor
      · rw [Function.update_of_ne hactor.symm]
        exact .rfl
    have hafter : b.actor = n → b.node.role = .leader ∧ b.node.currentTerm = term := by
      rintro rfl
      rw [LeadsIn, hnode, Function.update_self] at hlead'
      exact hlead'
    have hcalls : SameCalls n c.appendRpcs (c.runBlock b.actor b.node b.effects).appendRpcs := by
      rw [hrpcs]
      exact .rfl
    cases Config.runs_of_block hb with
    | startElection m hm hnone hrole =>
        refine .idle rfl (hview ?_) hcalls
        rintro rfl
        exact absurd hlead.1 hrole
    | handleRequestVote i hrpc =>
        refine .idle rfl (hview ?_) hcalls
        rintro rfl
        exact sameView_handleRequestVote (hafter rfl).1
    | voteReply m hel hrpc hresp =>
        refine .idle rfl (hview ?_) hcalls
        rintro rfl
        exact sameView_handleVoteResponse (hafter rfl).1
    | winElection m hel hwin =>
        refine .idle rfl (hview ?_) hcalls
        rintro rfl
        simp only [RaftNode.winsElection, Bool.and_eq_true, decide_eq_true_eq] at hwin
        cases hlead.1.symm.trans hwin.1
    | stepDown m hm =>
        refine .idle rfl (hview ?_) hcalls
        rintro rfl
        cases (hafter rfl).1
    | @proposeAppend m i command payload hcall =>
        obtain rfl | hm := eq_or_ne m n
        · exact .proposes i command payload hcall rfl (by rw [hnode, Function.update_self]) hcalls
        · exact .idle rfl (hview fun h => absurd h hm) hcalls
    | replicate m peer hm hpeer hrole =>
        obtain rfl | hne := eq_or_ne m n
        · exact .sends peer hpeer rfl (by rw [hnode, Function.update_self]) rfl
        · exact .idle rfl (hview fun h => absurd h hne) (.concat hne)
    | @handleAppendEntries i sender peer request waiting hrpc =>
        refine .delivers i _ hrpc rfl rfl (hview ?_) (congrArg (List.set · i _) hrpcs)
        rintro rfl
        exact sameView_handleAppendEntries (hafter rfl).1
    | @replicateReply i sender peer request resp hrpc =>
        obtain rfl | hne := eq_or_ne sender n
        · exact .handles i _ resp hrpc rfl rfl rfl rfl (by rw [hnode, Function.update_self])
            (congrArg (List.set · i _) hrpcs)
        · refine .idle ?_ (hview fun h => absurd h hne) ?_
          · simp [answerTo, hrpc, hne]
          · show SameCalls n _ (List.set _ i _)
            rw [hrpcs]
            exact .set hrpc
    | @replicateLost i sender peer request resp hrpc =>
        refine .idle rfl (hview fun h => h ▸ .rfl) ?_
        show SameCalls n _ (List.set _ i _)
        rw [hrpcs]
        exact .set hrpc
    | _ => exact .idle rfl (hview fun h => h ▸ .rfl) hcalls
  · -- a node that crashed is a follower
    have hactor : b.actor ≠ n := by
      rintro rfl
      have hrole := hlead'.1
      simp only [Cluster.restart, Function.update_self, RaftNode.role_boot] at hrole
      cases hrole
    refine .idle ?_ ?_ ?_
    · rcases hev with rfl | ⟨rfl, -, -⟩ <;> rfl
    · rw [Cluster.restart, Cluster.perform_node]
      simp only [Function.update_of_ne hactor.symm]
      exact .rfl
    · simp only [Cluster.restart, Cluster.perform_appendRpcs]
      exact .restart hactor

/-! ## The newest call to a peer -/

/-- The `i`-th call is one of `n` to `p`, and there is none after it. -/
def Newest (n p : N) (rpcs : List (AppendRpc N P)) (i : ℕ) (rpc : AppendRpc N P) : Prop :=
  rpcs[i]? = some rpc ∧ rpc.sender = n ∧ rpc.peer = p ∧
    ∀ (j : ℕ) (rpc' : AppendRpc N P), i < j → rpcs[j]? = some rpc' → rpc'.sender = n → rpc'.peer ≠ p

section newest

variable {rpcs rpcs' : List (AppendRpc N P)} {rpc rpc' : AppendRpc N P} {i j : ℕ}

omit [DecidableEq N] in
theorem Newest.unique (h : Newest n p rpcs i rpc) (h' : Newest n p rpcs j rpc') :
    i = j ∧ rpc = rpc' := by
  obtain ⟨hget, hs, hp, hlast⟩ := h
  obtain ⟨hget', hs', hp', hlast'⟩ := h'
  have hij : i = j := by
    rcases Nat.lt_trichotomy i j with hlt | heq | hgt
    · exact absurd hp' (hlast j rpc' hlt hget' hs')
    · exact heq
    · exact absurd hp (hlast' i rpc hgt hget hs)
  subst hij
  exact ⟨rfl, Option.some.inj (hget.symm.trans hget')⟩

omit [DecidableEq N] in
/-- The newest call was the newest before an event that makes none. -/
theorem Newest.of_same (hcalls : SameCalls n rpcs rpcs') (h : Newest n p rpcs' i rpc) :
    ∃ rpc₀, Newest n p rpcs i rpc₀ ∧ rpc.request = rpc₀.request ∧ rpc.response = rpc₀.response ∧
      (rpc.waiting = true → rpc₀.waiting = true) := by
  obtain ⟨hget, hs, hp, hlast⟩ := h
  obtain ⟨rpc₀, hget₀, hs₀, hp₀, hreq, hresp, hwait⟩ := hcalls.old hget hs
  refine ⟨rpc₀, ⟨hget₀, hs₀, hp₀.symm.trans hp, fun j r hj hr hrs hrp => ?_⟩, hreq, hresp, hwait⟩
  obtain ⟨r', hr', hrs', hrp'⟩ := hcalls.kept hr hrs
  exact hlast j r' hj hr' hrs' (hrp'.trans hrp)

omit [DecidableEq N] in
/-- The newest call after a call is made. -/
theorem Newest.of_concat (h : Newest n p (rpcs ++ [rpc']) i rpc) :
    Newest n p rpcs i rpc ∧ (rpc'.sender = n → rpc'.peer ≠ p) ∨ rpc = rpc' := by
  obtain ⟨hget, hs, hp, hlast⟩ := h
  rcases Nat.lt_or_ge i rpcs.length with hi | hi
  · left
    rw [List.getElem?_append_left hi] at hget
    refine ⟨⟨hget, hs, hp, fun j r hj hr => hlast j r hj ?_⟩,
      hlast rpcs.length rpc' hi List.getElem?_concat_length⟩
    rw [List.getElem?_append_left (List.getElem?_eq_some_iff.mp hr).1]
    exact hr
  · right
    rw [List.getElem?_append_right hi] at hget
    exact List.mem_singleton.mp (List.mem_of_getElem? hget)

omit [DecidableEq N] in
/-- The newest call after something is noted of a call. -/
theorem Newest.of_set {rpc₁ : AppendRpc N P} (h : Newest n p (rpcs.set j rpc₁) i rpc)
    (hrpc : rpcs[j]? = some rpc') (hsender : rpc₁.sender = rpc'.sender)
    (hpeer : rpc₁.peer = rpc'.peer) :
    i ≠ j ∧ Newest n p rpcs i rpc ∨ i = j ∧ rpc = rpc₁ ∧ Newest n p rpcs j rpc' := by
  obtain ⟨hget, hs, hp, hlast⟩ := h
  have hlater : ∀ (k : ℕ) (r : AppendRpc N P), i < k → rpcs[k]? = some r → r.sender = n →
      r.peer ≠ p := by
    intro k r hk hr hrs hrp
    by_cases hjk : j = k
    · subst hjk
      obtain rfl := Option.some.inj (hr.symm.trans hrpc)
      exact hlast j rpc₁ hk (List.getElem?_set_self (List.getElem?_eq_some_iff.mp hr).1)
        (hsender.trans hrs) (hpeer.trans hrp)
    · refine hlast k r hk ?_ hrs hrp
      rw [List.getElem?_set_ne hjk]
      exact hr
  by_cases hij : i = j
  · subst hij
    rw [List.getElem?_set_self (List.getElem?_eq_some_iff.mp hrpc).1] at hget
    obtain rfl := Option.some.inj hget
    exact Or.inr ⟨rfl, rfl, hrpc, hsender.symm.trans hs, hpeer.symm.trans hp, hlater⟩
  · rw [List.getElem?_set_ne (Ne.symm hij)] at hget
    exact Or.inl ⟨hij, hget, hs, hp, hlater⟩

end newest

/-! ## How far the leader has come with a peer -/

/-- An uncompacted cluster with its abstract state, in which node `n` leads in a term. -/
structure Led (cfg : Config N) (c : Cluster N P) (s : AbstractLog N P) (n : N) (term : ℕ) : Prop where
  elections : Elections cfg c
  refines : Refines cfg c s
  whole : ∀ m, (c.node m).snapshotIndex = 0
  leads : LeadsIn n term c

section led

variable {s s' : AbstractLog N P} {rpc : AppendRpc N P}

theorem Led.leader (h : Led cfg c s n term) : s.leader term = some n :=
  (h.refines.leader n term).mpr (h.leads.2 ▸ h.elections.leader h.leads.1)

theorem Led.log (h : Led cfg c s n term) (m : N) : (c.node m).log = s.log m :=
  (h.refines.node m).log_eq (h.whole m)

theorem Led.aligned (h : Led cfg c s n term) (m : N) : Aligned (c.node m).log :=
  h.log m ▸ h.refines.sound.aligned_log m

theorem Led.chain (h : Led cfg c s n term) : s.chain term = (c.node n).log := by
  have hterm : s.term n = term := (h.refines.node n).term.trans h.leads.2
  have hleader := h.leader
  rw [← hterm] at hleader ⊢
  exact (h.refines.sound.inv.leader_log hleader).symm.trans (h.log n).symm

/-- The request that the leader builds for a peer from within its log. -/
theorem Led.chained (h : Led cfg c s n term) (peer : N)
    (hle : ((c.node n).nextIndex peer).getD 1 ≤ (c.node n).log.length + 1) :
    Chained s ((c.node n).buildAppendEntries n peer) ∧
      ((c.node n).buildAppendEntries n peer).prevLogIndex +
        ((c.node n).buildAppendEntries n peer).entries.length = (c.node n).log.length := by
  have hprev : ((c.node n).buildAppendEntries n peer).prevLogIndex ≤ (c.node n).log.length :=
    Nat.sub_le_of_le_add hle
  have hleader : s.leader (c.node n).currentTerm = some n := h.leads.2.symm ▸ h.leader
  rcases (h.refines.at n).chained_buildAppendEntries hleader (h.whole n) peer with
    hchained | ⟨hpos, hzero⟩
  · exact hchained
  · -- the previous entry is one of the log, and has a term
    obtain ⟨k, hk⟩ := Nat.exists_eq_succ_of_ne_zero hpos.ne'
    have hget : (c.node n).log[k]? = some (c.node n).log[k] := List.getElem?_eq_getElem (by omega)
    have hterm : (c.node n).logTermAt ((c.node n).buildAppendEntries n peer).prevLogIndex = 0 := hzero
    rw [hk, RaftNode.logTermAt_of_getElem? hget] at hterm
    have hmem : (c.node n).log[k] ∈ s.log n := h.log n ▸ List.getElem_mem _
    have := h.refines.sound.pos_log hmem
    omega

/-- A peer that has acknowledged what comes before the entries of a request takes it, unless it is in
a later term. -/
theorem Led.prevMatches (h : Led cfg c s n term) {req : AppendEntriesRequest N P}
    (hc : Chained s req) (hacked : req.prevLogIndex ≤ s.acked req.term p)
    (hterm : (c.node p).currentTerm ≤ req.term) : (c.node p).prevMatches req = true := by
  rw [RaftNode.prevMatches, Bool.or_eq_true, decide_eq_true_iff, decide_eq_true_iff]
  rcases Nat.eq_zero_or_pos req.prevLogIndex with hzero | hpos
  · exact Or.inl hzero
  · right
    have hsame : s.term p = req.term :=
      le_antisymm ((h.refines.node p).term.trans_le hterm)
        (h.refines.sound.inv.acked_term (hpos.trans_le hacked))
    have hnow := h.refines.sound.inv.acked_now p
    rw [hsame, ← h.log p] at hnow
    obtain ⟨e, he, het⟩ := Option.map_eq_some_iff.mp (hc.prev hpos)
    rw [getElem?_mono hnow (by rw [List.getElem?_take_of_lt (by omega)]; exact he), Option.map_some, het]

/-- What is known of a call of the leader to a peer while the leader waits for it. -/
structure Pending (s : AbstractLog N P) (term target j next : ℕ) (synced : Bool)
    (rpc : AppendRpc N P) : Prop where
  chained : Chained s rpc.request
  next_eq : rpc.request.prevLogIndex + 1 = next
  covers : 1 ≤ j → target ≤ rpc.request.prevLogIndex + rpc.request.entries.length
  refused : ∀ resp, rpc.response = some resp → resp.success = false → resp.term ≤ term →
    synced = false ∧ 0 < rpc.request.prevLogIndex

omit [DecidableEq N] in
theorem Pending.of_same {target j next : ℕ} {synced : Bool} {rpc' : AppendRpc N P}
    (h : Pending s term target j next synced rpc) (hg : Grows s s') (hreq : rpc'.request = rpc.request)
    (hresp : rpc'.response = rpc.response) : Pending s' term target j next synced rpc' where
  chained := by
    rw [hreq]
    exact h.chained.grows hg
  next_eq := by
    rw [hreq]
    exact h.next_eq
  covers := by
    rw [hreq]
    exact h.covers
  refused := by
    rw [hreq, hresp]
    exact h.refused

/-- How far the leader has come with peer `p`: it had `base` entries when it was elected, it has handled
`j` answers since its log reached `target`, and it has taken one of its term or not (`synced`). -/
structure Towards (c : Cluster N P) (s : AbstractLog N P) (n p : N) (term base target j : ℕ)
    (synced : Bool) : Prop where
  one_le : 1 ≤ ((c.node n).nextIndex p).getD 1
  next_le : ((c.node n).nextIndex p).getD 1 ≤ (c.node n).log.length + 1
  match_le : ((c.node n).matchIndex p).getD 0 ≤ (c.node n).log.length
  target_le : target ≤ (c.node n).log.length
  /-- So far every answer was a refusal. -/
  back : synced = false → ∃ k, j ≤ k ∧ ((c.node n).nextIndex p).getD 1 + k = base + 1
  /-- The peer has acknowledged what comes before the next index. -/
  along : synced = true → ((c.node n).nextIndex p).getD 1 ≤ s.acked term p + 1 ∧
    (2 ≤ j → target ≤ ((c.node n).matchIndex p).getD 0)
  /-- The newest call, while the leader waits for it. -/
  call : ∀ (i : ℕ) (rpc : AppendRpc N P), Newest n p c.appendRpcs i rpc → rpc.waiting = true →
    rpc.request.term = term →
      Pending s term target j (((c.node n).nextIndex p).getD 1) synced rpc

variable {base target j : ℕ} {synced : Bool}

omit [DecidableEq N] in
/-- A step that changes nothing of the peer. -/
theorem Towards.of_same (h : Towards c s n p term base target j synced) (hg : Grows s s')
    (hnext : (c'.node n).nextIndex p = (c.node n).nextIndex p)
    (hmatch : (c'.node n).matchIndex p = (c.node n).matchIndex p)
    (hlog : (c.node n).log.length ≤ (c'.node n).log.length)
    (hcall : ∀ (i : ℕ) (rpc : AppendRpc N P), Newest n p c'.appendRpcs i rpc → rpc.waiting = true →
      rpc.request.term = term →
        Pending s' term target j (((c.node n).nextIndex p).getD 1) synced rpc) :
    Towards c' s' n p term base target j synced where
  one_le := hnext ▸ h.one_le
  next_le := by
    rw [hnext]
    exact h.next_le.trans (Nat.succ_le_succ hlog)
  match_le := by
    rw [hmatch]
    exact h.match_le.trans hlog
  target_le := h.target_le.trans hlog
  back := by
    rw [hnext]
    exact h.back
  along hs := by
    obtain ⟨hle, hreached⟩ := h.along hs
    rw [hnext, hmatch]
    exact ⟨hle.trans (Nat.succ_le_succ (hg.acked term p)), hreached⟩
  call := by
    rw [hnext]
    exact hcall

omit [DecidableEq N] in
/-- A step that makes no calls. -/
theorem Towards.of_sameCalls (h : Towards c s n p term base target j synced) (hg : Grows s s')
    (hnext : (c'.node n).nextIndex p = (c.node n).nextIndex p)
    (hmatch : (c'.node n).matchIndex p = (c.node n).matchIndex p)
    (hlog : (c.node n).log.length ≤ (c'.node n).log.length)
    (hcalls : SameCalls n c.appendRpcs c'.appendRpcs) :
    Towards c' s' n p term base target j synced := by
  refine h.of_same hg hnext hmatch hlog fun i rpc hnewest hwait hterm => ?_
  obtain ⟨rpc₀, hold, hreq, hresp, hwait₀⟩ := hnewest.of_same hcalls
  exact (h.call i rpc₀ hold (hwait₀ hwait) (hreq ▸ hterm)).of_same hg hreq hresp

/-- The leader calls a peer. -/
theorem Towards.sends (h : Towards c s n p term base target j synced) (hled : Led cfg c s n term)
    (hg : Grows s s') {peer : N} (hnode : c'.node n = c.node n)
    (hcalls : c'.appendRpcs = c.appendRpcs ++
      [⟨n, peer, (c.node n).buildAppendEntries n peer, true, none⟩]) :
    Towards c' s' n p term base target j synced := by
  refine h.of_same hg (by rw [hnode]) (by rw [hnode]) (by rw [hnode])
    fun i rpc hnewest hwait hterm => ?_
  have hpeer := hnewest.2.2.1
  rw [hcalls] at hnewest
  rcases hnewest.of_concat with ⟨hold, -⟩ | rfl
  · exact (h.call i rpc hold hwait hterm).of_same hg rfl rfl
  · obtain rfl : peer = p := hpeer
    obtain ⟨hchained, hcovers⟩ := hled.chained peer h.next_le
    refine ⟨hchained.grows hg, Nat.sub_add_cancel h.one_le, fun _ => ?_, fun resp hresp => ?_⟩
    · exact h.target_le.trans_eq hcovers.symm
    · cases hresp

/-- A peer handles a request. -/
theorem Towards.delivers (h : Towards c s n p term base target j synced) (hled : Led cfg c s n term)
    (hg : Grows s s') (hview : SameView (c.node n) (c'.node n)) {i : ℕ}
    (hrpc : c.appendRpcs[i]? = some rpc)
    (hcalls : c'.appendRpcs = c.appendRpcs.set i { rpc with
      response := some ((c.node rpc.peer).handleAppendEntries rpc.request).2.2 }) :
    Towards c' s' n p term base target j synced := by
  refine h.of_same hg (by rw [hview.nextIndex]) (by rw [hview.matchIndex]) (by rw [hview.log])
    fun k r hnewest hwait hterm => ?_
  rw [hcalls] at hnewest
  rcases hnewest.of_set hrpc rfl rfl with ⟨-, hold⟩ | ⟨-, rfl, hold⟩
  · exact (h.call k r hold hwait hterm).of_same hg rfl rfl
  have hterm : rpc.request.term = term := hterm
  have hpending := h.call i rpc hold hwait hterm
  obtain rfl : rpc.peer = p := hold.2.2.1
  refine ⟨hpending.chained.grows hg, hpending.next_eq, hpending.covers, fun resp hresp hfail hle => ?_⟩
  obtain rfl := Option.some.inj hresp
  -- the request is refused for what comes before its entries
  have hrefused : (c.node rpc.peer).currentTerm ≤ rpc.request.term ∧
      (c.node rpc.peer).prevMatches rpc.request = false := by
    by_contra hnot
    rcases Nat.lt_or_ge rpc.request.term (c.node rpc.peer).currentTerm with hlt | hge
    · rw [RaftNode.handleAppendEntries_of_lt hlt] at hle
      have : (c.node rpc.peer).currentTerm ≤ term := hle
      omega
    · have hmatches : (c.node rpc.peer).prevMatches rpc.request = true := by
        simpa [hge] using hnot
      rw [RaftNode.handleAppendEntries_of_match hge hmatches] at hfail
      cases hfail
  have hpos : 0 < rpc.request.prevLogIndex := by
    by_contra hzero
    have hmatches := hrefused.2
    rw [RaftNode.prevMatches, decide_eq_true (by omega), Bool.true_or] at hmatches
    cases hmatches
  refine ⟨?_, hpos⟩
  by_contra hsynced
  have hacked := (h.along (by simpa using hsynced)).1
  have hprev := hpending.next_eq
  have hmatches := hled.prevMatches hpending.chained (by rw [hterm]; omega) hrefused.1
  rw [hrefused.2] at hmatches
  cases hmatches

omit [DecidableEq N] in
theorem Chained.length_le {req : AppendEntriesRequest N P} (h : Chained s req) :
    req.prevLogIndex + req.entries.length ≤ (s.chain req.term).length := by
  have hle := h.entries.length_le
  rwa [List.length_append, List.length_take, min_eq_left h.le] at hle

/-- The leader handles an answer of the peer. -/
theorem Towards.handles (h : Towards c s n p term base target j synced) (hled : Led cfg c s n term)
    (hled' : Led cfg c' s' n term) (hg : Grows s s') {i : ℕ} {resp : AppendEntriesResponse}
    (hnewest : Newest n p c.appendRpcs i rpc) (hwaiting : rpc.waiting = true)
    (hterm : rpc.request.term = term) (hresponse : rpc.response = some resp)
    (hnode : c'.node n = ((c.node n).handleAppendResponse (cfg.threshold n) (cfg.peers n) rpc.peer
      rpc.request resp).1)
    (hcalls : c'.appendRpcs = c.appendRpcs.set i { rpc with waiting := false }) :
    Towards c' s' n p term base target (j + 1) (synced || resp.success) := by
  have hpending := h.call i rpc hnewest hwaiting hterm
  obtain ⟨hrpc, hsender, rfl, -⟩ := id hnewest
  have hkeeps := hled'.leads.2.trans hled.leads.2.symm
  rw [hnode] at hkeeps
  have hle := (RaftNode.handleAppendResponse_keeps hkeeps).1
  have hlog : (c'.node n).log = (c.node n).log := by
    have hwhole := hled'.whole n
    rw [hnode] at hwhole ⊢
    exact (RaftNode.handleAppendResponse_whole hwhole).2
  have hcall : ∀ (k : ℕ) (r : AppendRpc N P), Newest n rpc.peer c'.appendRpcs k r →
      r.waiting = true → False := by
    intro k r hk hwait
    rw [hcalls] at hk
    rcases hk.of_set hrpc rfl rfl with ⟨hne, hold⟩ | ⟨-, rfl, -⟩
    · exact hne (hold.unique hnewest).1
    · cases hwait
  rcases hsucc : resp.success with _ | _
  · obtain ⟨rfl, hpos⟩ := hpending.refused resp hresponse hsucc (hled.leads.2 ▸ hle)
    rw [RaftNode.handleAppendResponse_of_failure hle hsucc hpos] at hnode
    obtain ⟨k, hk, hback⟩ := h.back rfl
    have hnext : ((c'.node n).nextIndex rpc.peer).getD 1 = rpc.request.prevLogIndex := by
      rw [hnode]
      simp only [Function.update_self, Option.getD_some]
    have hnextLe := h.next_le
    have hnextEq := hpending.next_eq
    refine ⟨by omega, by rw [hlog]; omega, ?_, hlog ▸ h.target_le, fun _ => ⟨k + 1, by omega, by omega⟩,
      fun hs => ?_, fun i' r hr hw _ => (hcall i' r hr hw).elim⟩
    · rw [hlog, hnode]
      exact h.match_le
    · cases hs
  · obtain ⟨hchained, hacked⟩ :=
      (hled.refines.sent (List.mem_of_getElem? hrpc)).answered resp hresponse hsucc
    obtain ⟨hmatched, hnext⟩ := RaftNode.acknowledged_of_last hpending.next_eq fun last hlast =>
      hchained.last_index (hled.refines.sound.aligned _) hlast
    rw [RaftNode.handleAppendResponse_of_success hle hsucc] at hnode
    have hnext' : ((c'.node n).nextIndex rpc.peer).getD 1 =
        rpc.request.prevLogIndex + rpc.request.entries.length + 1 := by
      rw [hnode, (RaftNode.advanceCommitIndex_peers _ _ _).1]
      exact hnext
    have hmatch' : ((c'.node n).matchIndex rpc.peer).getD 0 =
        rpc.request.prevLogIndex + rpc.request.entries.length := by
      rw [hnode, (RaftNode.advanceCommitIndex_peers _ _ _).2, hmatched]
      rfl
    have hlength := hchained.length_le
    rw [hterm, hled.chain] at hlength
    rw [hterm] at hacked
    have hgrown := hg.acked term rpc.peer
    refine ⟨by omega, by rw [hlog]; omega, by rw [hlog]; omega, hlog ▸ h.target_le, fun hs => ?_,
      fun _ => ⟨by omega, fun hj => ?_⟩, fun i' r hr hw _ => (hcall i' r hr hw).elim⟩
    · rw [Bool.or_true] at hs
      cases hs
    · rw [hmatch']
      exact hpending.covers (by omega)

/-- The leader handles an answer of another peer. -/
theorem Towards.handles_of_ne (h : Towards c s n p term base target j synced)
    (hled' : Led cfg c' s' n term) (hg : Grows s s') {i : ℕ} {resp : AppendEntriesResponse}
    (hrpc : c.appendRpcs[i]? = some rpc) (hne : p ≠ rpc.peer)
    (hnode : c'.node n = ((c.node n).handleAppendResponse (cfg.threshold n) (cfg.peers n) rpc.peer
      rpc.request resp).1)
    (hcalls : c'.appendRpcs = c.appendRpcs.set i { rpc with waiting := false }) :
    Towards c' s' n p term base target j synced := by
  have hlog : (c'.node n).log = (c.node n).log := by
    have hwhole := hled'.whole n
    rw [hnode] at hwhole ⊢
    exact (RaftNode.handleAppendResponse_whole hwhole).2
  refine h.of_sameCalls hg ?_ ?_ (by rw [hlog]) (hcalls ▸ .set hrpc)
  · rw [hnode]
    exact RaftNode.nextIndex_handleAppendResponse_of_ne hne
  · rw [hnode]
    rcases RaftNode.handleAppendResponse_cases (cfg.threshold n) (cfg.peers n) rpc.peer rpc.request
      (c.node n) resp with ⟨-, heq⟩ | ⟨-, -, next, matched, -, -, heq⟩ | ⟨-, -, next, heq⟩
    · rw [heq]
      exact congrFun ((c.node n).idle_becomeFollower resp.term none).matchIndex p
    · rw [heq, (RaftNode.advanceCommitIndex_peers _ _ _).2]
      exact Function.update_of_ne hne _ _
    · rw [heq]

/-- A leader with a peer appends an entry. -/
theorem Towards.proposes (h : Towards c s n p term base target j synced) (hg : Grows s s')
    (hpeer : p ∈ cfg.peers n) {command : CommandType} {payload : P}
    (hnode : c'.node n =
      ((c.node n).proposeLocked (cfg.threshold n) (cfg.peers n) command payload).1)
    (hcalls : SameCalls n c.appendRpcs c'.appendRpcs) :
    Towards c' s' n p term base target j synced := by
  rcases RaftNode.proposeLocked_cases (cfg.threshold n) (cfg.peers n) (c.node n) command payload with
    ⟨-, heq⟩ | ⟨hnil, -⟩
  · rw [heq] at hnode
    refine h.of_sameCalls hg (by rw [hnode]; rfl) (by rw [hnode]; rfl) ?_ hcalls
    rw [hnode]
    exact (List.sublist_append_left _ _).length_le
  · rw [hnil] at hpeer
    cases hpeer

end led

/-- Among the answers to its calls of a peer, the node handles those to the newest only, and that one
is of the term. -/
def answersNewest (n : N) (term : ℕ) (c : Cluster N P) : Event N P → Bool
  | .run (.replicateReply i) => c.appendRpcs[i]?.all fun rpc => !decide (rpc.sender = n) ||
      decide (rpc.request.term = term) && (c.appendRpcs.drop (i + 1)).all fun rpc' =>
        !(decide (rpc'.sender = n) && decide (rpc'.peer = rpc.peer))
  | _ => true

theorem newest_of_answersNewest {i : ℕ} {rpc : AppendRpc N P} (hrpc : c.appendRpcs[i]? = some rpc)
    (hsender : rpc.sender = n) (h : answersNewest n term c (.run (.replicateReply i)) = true) :
    rpc.request.term = term ∧ Newest n rpc.peer c.appendRpcs i rpc := by
  simp only [answersNewest, hrpc, Option.all_some, hsender, decide_true, Bool.not_true, Bool.false_or,
    Bool.and_eq_true, decide_eq_true_eq, List.all_eq_true, Bool.not_eq_true', Bool.and_eq_false_iff,
    decide_eq_false_iff_not] at h
  refine ⟨h.1, hrpc, hsender, rfl, fun j rpc' hj hr hs hp => ?_⟩
  have hmem : rpc' ∈ c.appendRpcs.drop (i + 1) := by
    refine List.mem_of_getElem? (i := j - (i + 1)) ?_
    rw [List.getElem?_drop, Nat.add_sub_cancel' hj]
    exact hr
  exact (h.2 rpc' hmem).elim (· hs) (· hp)

/-! ## Steps -/

/-- How far the leader has come with each of its peers. -/
structure Underway (cfg : Config N) (c : Cluster N P) (s : AbstractLog N P) (n : N)
    (term base target : ℕ) (answered : N → ℕ) : Prop where
  led : Led cfg c s n term
  towards : ∀ p ∈ cfg.peers n, ∃ synced, Towards c s n p term base target (answered p) synced

/-- An entry stands at position `k + 1` of the leader's log, and is committed once the peers `Q` have
it. -/
structure Counted (c : Cluster N P) (n : N) (term : ℕ) (Q : List N) (k : ℕ) (entry : LogEntry P) :
    Prop where
  holds : (c.node n).log[k]? = some entry
  term_eq : entry.term = term
  counted : (∀ p ∈ Q, k + 1 ≤ ((c.node n).matchIndex p).getD 0) → k + 1 ≤ (c.node n).commitIndex

/-- Enough peers for a majority with the node. -/
structure Enough (cfg : Config N) (n : N) (Q : List N) : Prop where
  nodup : Q.Nodup
  peers : ∀ p ∈ Q, p ∈ cfg.peers n
  majority : majorityCount (cfg.peers n).length ≤ Q.length + 1

section steps

variable {s s' : AbstractLog N P} {base target k : ℕ} {answered : N → ℕ} {Q : List N}
  {entry : LogEntry P}

theorem Led.step (h : Led cfg c s n term) (hno : noCompaction cfg c ev = true)
    (happ : electedAppend c ev = true) (hstep : cfg.step c ev = some c') (hlead : LeadsIn n term c') :
    ∃ s', Led cfg c' s' n term ∧ Grows s s' := by
  obtain ⟨s', href, hmoved, hwhole⟩ := h.refines.step_whole h.elections
    (fun m => (h.refines.snap m).trans (h.whole m)) hno happ hstep
  exact ⟨s', ⟨h.elections.step hstep, href, fun m => (href.snap m).symm.trans (hwhole m), hlead⟩,
    Steps.grows hmoved h.refines.sound.inv⟩

theorem Towards.turn (hturn : LeaderTurn cfg n c c' ev) (hled : Led cfg c s n term)
    (hled' : Led cfg c' s' n term) (hg : Grows s s') (hanswers : answersNewest n term c ev = true)
    (hpeer : p ∈ cfg.peers n) {j : ℕ} {synced : Bool} (h : Towards c s n p term base target j synced) :
    ∃ synced, Towards c' s' n p term base target
      (j + if answerTo n c ev = some p then 1 else 0) synced := by
  cases hturn with
  | idle hanswer hview hcalls =>
      rw [hanswer]
      exact ⟨synced, h.of_sameCalls hg (by rw [hview.nextIndex]) (by rw [hview.matchIndex])
        (by rw [hview.log]) hcalls⟩
  | sends peer hpeer' hanswer hnode hcalls =>
      rw [hanswer]
      exact ⟨synced, h.sends hled hg hnode hcalls⟩
  | delivers i rpc hrpc hresponse hanswer hview hcalls =>
      rw [hanswer]
      exact ⟨synced, h.delivers hled hg hview hrpc hcalls⟩
  | handles i rpc resp hrpc hsender hwaiting hresponse hev hnode hcalls =>
      subst hev
      have hanswer : answerTo n c (.run (.replicateReply i)) = some rpc.peer := by
        simp [answerTo, hrpc, hsender]
      obtain ⟨hterm, hnewest⟩ := newest_of_answersNewest hrpc hsender hanswers
      rw [hanswer]
      obtain rfl | hne := eq_or_ne p rpc.peer
      · rw [if_pos rfl]
        exact ⟨_, h.handles hled hled' hg hnewest hwaiting hterm hresponse hnode hcalls⟩
      · rw [if_neg fun heq => hne (Option.some.inj heq).symm]
        exact ⟨synced, h.handles_of_ne hled' hg hrpc hne hnode hcalls⟩
  | proposes i command payload hcall hanswer hnode hcalls =>
      rw [hanswer]
      exact ⟨synced, h.proposes hg hpeer hnode hcalls⟩

/-- An entry is committed with the answer that completes a majority for it. -/
theorem Counted.turn (hQ : Enough cfg n Q) (hturn : LeaderTurn cfg n c c' ev)
    (hled : Led cfg c s n term) (hled' : Led cfg c' s' n term)
    (h : Counted c n term Q k entry) : Counted c' n term Q k entry := by
  have hlt := (List.getElem?_eq_some_iff.mp h.holds).1
  cases hturn with
  | idle hanswer hview hcalls =>
      refine ⟨hview.log ▸ h.holds, h.term_eq, ?_⟩
      rw [hview.matchIndex, hview.commitIndex]
      exact h.counted
  | sends peer hpeer hanswer hnode hcalls =>
      rw [← hnode] at hlt
      refine ⟨hnode ▸ h.holds, h.term_eq, ?_⟩
      rw [hnode]
      exact h.counted
  | delivers i rpc hrpc hresponse hanswer hview hcalls =>
      refine ⟨hview.log ▸ h.holds, h.term_eq, ?_⟩
      rw [hview.matchIndex, hview.commitIndex]
      exact h.counted
  | handles i rpc resp hrpc hsender hwaiting hresponse hev hnode hcalls =>
      have hkeeps := hled'.leads.2.trans hled.leads.2.symm
      have hwhole := hled'.whole n
      rw [hnode] at hkeeps hwhole
      have hle := (RaftNode.handleAppendResponse_keeps hkeeps).1
      have hlog := (RaftNode.handleAppendResponse_whole hwhole).2
      rw [← hnode] at hlog
      refine ⟨hlog ▸ h.holds, h.term_eq, fun hmatched => ?_⟩
      rcases hsucc : resp.success with _ | _
      · obtain ⟨hmatchIndex, hcommitIndex⟩ := RaftNode.handleAppendResponse_of_refused hle hsucc
        rw [hnode, hmatchIndex] at hmatched
        rw [hnode, hcommitIndex]
        exact h.counted hmatched
      · rw [hnode, RaftNode.handleAppendResponse_of_success hle hsucc] at hmatched ⊢
        rw [(RaftNode.advanceCommitIndex_peers _ _ _).2] at hmatched
        obtain ⟨hsameLog, hsameTerm⟩ := (c.node n).acknowledged_frame rpc.peer rpc.request
        refine RaftNode.le_commitIndex_of_commits (hsameLog ▸ hlt)
          (RaftNode.commits_of_matched hQ.nodup hQ.peers hQ.majority ?_ hmatched)
        rw [hsameLog, hsameTerm, Nat.add_sub_cancel, h.holds, hled.leads.2]
        exact congrArg some h.term_eq
  | proposes i command payload hcall hanswer hnode hcalls =>
      have hholds : ((c.node n).appendLocalEntry command payload).1.log[k]? = some entry :=
        (List.getElem?_append_left hlt).trans h.holds
      rcases RaftNode.proposeLocked_cases (cfg.threshold n) (cfg.peers n) (c.node n) command payload
        with ⟨-, heq⟩ | ⟨-, heq⟩
      · rw [heq] at hnode
        refine ⟨hnode ▸ hholds, h.term_eq, ?_⟩
        rw [hnode]
        exact h.counted
      · rw [heq] at hnode
        have hwhole := hled'.whole n
        rw [hnode] at hwhole
        refine ⟨?_, h.term_eq, ?_⟩
        · rw [hnode, (RaftNode.advanceCommitIndex_whole hwhole).2]
          exact hholds
        · rw [hnode, (RaftNode.advanceCommitIndex_peers _ _ _).2]
          exact fun hmatched => (h.counted hmatched).trans
            (RaftNode.commitIndex_le_advanceCommitIndex _ _
              ((c.node n).appendLocalEntry command payload).1)

end steps

/-! ## Runs -/

instance (n : N) (term : ℕ) (c : Cluster N P) : Decidable (LeadsIn n term c) :=
  inferInstanceAs (Decidable (_ ∧ _))

/-- The node leads in the term, and its calls to a peer do not overtake each other. -/
def steady (cfg : Config N) (n : N) (term : ℕ) (c : Cluster N P) (ev : Event N P) : Bool :=
  decide (LeadsIn n term c) && noCompaction cfg c ev && electedAppend c ev && answersNewest n term c ev

/-- The number of answers of peer `p` that node `n` handles in a run. -/
def answers (cfg : Config N) (n p : N) : Cluster N P → List (Event N P) → ℕ
  | _, [] => 0
  | c, ev :: evs => (if answerTo n c ev = some p then 1 else 0) +
      match cfg.step c ev with
      | some c' => answers cfg n p c' evs
      | none => 0

section runs

variable {s : AbstractLog N P} {base target k : ℕ} {answered : N → ℕ} {Q : List N}
  {entry : LogEntry P} {evs : List (Event N P)}

theorem steady_iff : steady cfg n term c ev = true ↔ LeadsIn n term c ∧
    noCompaction cfg c ev = true ∧ electedAppend c ev = true ∧ answersNewest n term c ev = true := by
  simp only [steady, Bool.and_eq_true, decide_eq_true_eq, and_assoc]

theorem leadsIn_of_steady (hrun : cfg.runWhile (steady cfg n term) c evs = some c')
    (hlead : LeadsIn n term c') : LeadsIn n term c := by
  cases evs with
  | nil => exact Option.some.inj hrun ▸ hlead
  | cons ev evs =>
      simp only [Config.runWhile, Option.ite_none_right_eq_some] at hrun
      exact (steady_iff.mp hrun.1).1

theorem Underway.step (h : Underway cfg c s n term base target answered)
    (hsteady : steady cfg n term c ev = true) (hstep : cfg.step c ev = some c')
    (hlead : LeadsIn n term c') : LeaderTurn cfg n c c' ev ∧ ∃ s', Underway cfg c' s' n term base target
      (fun p => answered p + if answerTo n c ev = some p then 1 else 0) := by
  obtain ⟨hleads, hno, happ, hanswers⟩ := steady_iff.mp hsteady
  have hturn := turn_of_step hstep hleads hlead
  obtain ⟨s', hled', hg⟩ := h.led.step hno happ hstep hlead
  refine ⟨hturn, s', hled', fun p hp => ?_⟩
  obtain ⟨synced, hp'⟩ := h.towards p hp
  exact hp'.turn hturn h.led hled' hg hanswers hp

/-- A run keeps count of the answers, and of an entry on its way. -/
theorem Underway.run (h : Underway cfg c s n term base target answered) (hQ : Enough cfg n Q)
    (hrun : cfg.runWhile (steady cfg n term) c evs = some c') (hlead : LeadsIn n term c') :
    (∃ s', Underway cfg c' s' n term base target fun p => answered p + answers cfg n p c evs) ∧
      ∀ k entry, Counted c n term Q k entry → Counted c' n term Q k entry := by
  induction evs generalizing c s answered with
  | nil =>
      obtain rfl := Option.some.inj hrun
      exact ⟨⟨s, h⟩, fun _ _ => id⟩
  | cons ev evs ih =>
      simp only [Config.runWhile, Option.ite_none_right_eq_some, Option.bind_eq_some_iff] at hrun
      obtain ⟨hsteady, c₁, hstep, hrun⟩ := hrun
      obtain ⟨hturn, s₁, h₁⟩ := h.step hsteady hstep (leadsIn_of_steady hrun hlead)
      obtain ⟨⟨s', h'⟩, hcounted⟩ := ih h₁ hrun
      refine ⟨⟨s', ?_⟩, fun k entry hc => hcounted k entry (hc.turn hQ hturn h.led h₁.led)⟩
      simp only [answers, hstep]
      simpa only [Nat.add_assoc] using h'

/-- The start: the node has just won its election. -/
theorem underway_elected (h : Uncompacted cfg c) (hcandidate : (c.node n).role = .candidate)
    (hstep : cfg.step c (.run (.finishElection n)) = some c') (hleader : (c'.node n).role = .leader) :
    ∃ s, Underway cfg c' s n (c.node n).currentTerm (c.node n).log.length 0 fun _ => 0 := by
  obtain ⟨s, href⟩ := h.refines
  have hzero : ∀ m, (c.node m).snapshotIndex = 0 := fun m => (href.snap m).symm.trans (h.whole m)
  obtain ⟨b, hb, hc'⟩ := Option.map_eq_some_iff.mp hstep
  cases Config.runs_of_block hb with
  | loseElection n hel =>
      have hnode : c'.node n = c.node n := by
        rw [← hc']
        exact Function.update_self ..
      rw [hnode] at hleader
      cases hcandidate.symm.trans hleader
  | winElection n hel hwin =>
      have hnode : c'.node n = (c.node n).becomeLeader n (cfg.peers n) := by
        rw [← hc']
        exact Function.update_self ..
      have hrpcs : c'.appendRpcs = c.appendRpcs := by
        rw [← hc']
        rfl
      have hno : noCompaction cfg c (.run (.finishElection n)) = true := by
        simp [noCompaction, Event.action?, hb]
      obtain ⟨s', href', -, hwhole'⟩ := href.step_whole h.elections h.whole hno rfl hstep
      have hled : Led cfg c' s' n (c.node n).currentTerm :=
        ⟨h.elections.step hstep, href', fun m => (href'.snap m).symm.trans (hwhole' m),
          hleader, by rw [hnode]; rfl⟩
      refine ⟨s', hled, fun p hp => ⟨false, ?_⟩⟩
      have hlog : (c'.node n).log = (c.node n).log := by
        rw [hnode]
        rfl
      have hlast : (c.node n).lastLogInfo.1 = (c.node n).log.length := by
        have haligned := href.sound.aligned_log n
        rw [← (href.node n).log_eq (hzero n)] at haligned
        rw [RaftNode.lastLogInfo_fst (by rw [hzero n]; exact haligned.contiguous), hzero n, Nat.zero_add]
      have hnext : ((c'.node n).nextIndex p).getD 1 = (c.node n).log.length + 1 := by
        rw [hnode]
        simp only [RaftNode.becomeLeader, if_pos hp, Option.getD_some, hlast]
      have hmatch : ((c'.node n).matchIndex p).getD 0 = 0 := by
        rw [hnode]
        simp only [RaftNode.becomeLeader, if_pos hp, Option.getD_some]
      refine ⟨by omega, by rw [hlog, hnext], by omega, Nat.zero_le _, fun _ => ⟨0, le_rfl, hnext⟩,
        fun hs => absurd hs Bool.false_ne_true, fun i rpc hnewest _ hterm => ?_⟩
      -- the node has sent nothing in the term yet
      rw [hrpcs] at hnewest
      have hsent := (href.sent (List.mem_of_getElem? hnewest.1)).leader
      rw [hterm, hnewest.2.1, href.leader, ← (h.elections.winner hel hwin).1] at hsent
      exact absurd hsent (h.elections.standing hel).fresh

omit [DecidableEq N] in
/-- Answers are counted anew, for another position. -/
theorem Towards.retarget {p : N} {j : ℕ} {synced : Bool} (h : Towards c s n p term base 0 j synced)
    (htarget : target ≤ (c.node n).log.length) : Towards c s n p term base target 0 synced where
  one_le := h.one_le
  next_le := h.next_le
  match_le := h.match_le
  target_le := htarget
  back hs := by
    obtain ⟨k, -, hk⟩ := h.back hs
    exact ⟨k, Nat.zero_le k, hk⟩
  along hs := ⟨(h.along hs).1, by omega⟩
  call i rpc hnewest hwait hterm := by
    have hpending := h.call i rpc hnewest hwait hterm
    exact ⟨hpending.chained, hpending.next_eq, by omega, hpending.refused⟩

/-- The leader appends an entry: from here on its answers are counted. -/
theorem Underway.append {i : ℕ} (h : Underway cfg c s n term base 0 answered) (hQ : Enough cfg n Q)
    (hsteady : steady cfg n term c (.run (.proposeAppend n i)) = true)
    (hstep : cfg.step c (.run (.proposeAppend n i)) = some c') (hlead : LeadsIn n term c') :
    ∃ s' command payload, (c.proposals n)[i]? = some (.checked command payload) ∧
      Underway cfg c' s' n term base ((c.node n).log.length + 1) (fun _ => 0) ∧
      Counted c' n term Q (c.node n).log.length
        ⟨(c.node n).log.length + 1, term, command, payload⟩ := by
  obtain ⟨-, s', h'⟩ := h.step hsteady hstep hlead
  obtain ⟨b, hb, hc'⟩ := Option.map_eq_some_iff.mp hstep
  cases Config.runs_of_block hb with
  | @proposeAppend n i command payload hcall =>
      have hnode : c'.node n =
          ((c.node n).proposeLocked (cfg.threshold n) (cfg.peers n) command payload).1 := by
        rw [← hc']
        exact Function.update_self ..
      have happend := RaftNode.log_appendLocalEntry (h.led.aligned n) (h.led.whole n) command payload
      rw [h.led.leads.2] at happend
      have hlog : (c'.node n).log = (c.node n).log ++
          [⟨(c.node n).log.length + 1, term, command, payload⟩] := by
        have hwhole := h'.led.whole n
        rw [hnode] at hwhole ⊢
        rw [RaftNode.proposeLocked_whole hwhole, happend]
      have hlength : (c'.node n).log.length = (c.node n).log.length + 1 := by
        rw [hlog, List.length_append, List.length_singleton]
      have hholds : (c'.node n).log[(c.node n).log.length]? =
          some ⟨(c.node n).log.length + 1, term, command, payload⟩ := by
        rw [hlog, List.getElem?_concat_length]
      refine ⟨s', command, payload, hcall, ⟨h'.led, fun p hp => ?_⟩, hholds, rfl, fun hmatched => ?_⟩
      · obtain ⟨synced, hp'⟩ := h'.towards p hp
        exact ⟨synced, hp'.retarget hlength.ge⟩
      rcases RaftNode.proposeLocked_cases (cfg.threshold n) (cfg.peers n) (c.node n) command payload
        with ⟨hne, heq⟩ | ⟨hnil, heq⟩
      · -- no peer has the entry, and one is needed
        exfalso
        have hlen : 0 < (cfg.peers n).length := List.length_pos_of_ne_nil hne
        have hmajority := hQ.majority
        rw [majorityCount] at hmajority
        obtain ⟨p, hp⟩ := List.exists_mem_of_length_pos (l := Q) (by omega)
        obtain ⟨synced, hp'⟩ := h.towards p (hQ.peers p hp)
        have hle := hp'.match_le
        have hreached := hmatched p hp
        have hsame : (c'.node n).matchIndex = (c.node n).matchIndex := by
          rw [hnode, heq]
          rfl
        rw [hsame] at hreached
        omega
      · rw [hnode, heq] at hmatched ⊢
        rw [(RaftNode.advanceCommitIndex_peers _ _ _).2] at hmatched
        refine RaftNode.le_commitIndex_of_commits ?_
          (RaftNode.commits_of_matched hQ.nodup hQ.peers hQ.majority ?_ hmatched)
        · rw [happend, List.length_append, List.length_singleton]
        · have hterm : ((c.node n).appendLocalEntry command payload).1.currentTerm = term :=
            h.led.leads.2
          rw [happend, Nat.add_sub_cancel, List.getElem?_concat_length, hterm]
          rfl

omit [DecidableEq N] in
/-- A peer that has answered more often than the log of the leader was long has what was appended. -/
theorem Towards.reached {p : N} {j : ℕ} {synced : Bool} (h : Towards c s n p term base target j synced)
    (hj : base + 2 ≤ j) : target ≤ ((c.node n).matchIndex p).getD 0 := by
  cases synced with
  | false =>
      obtain ⟨k, hk, hback⟩ := h.back rfl
      have := h.one_le
      omega
  | true => exact (h.along rfl).2 (by omega)

/-- **A leader commits.** Whatever else happens in the cluster, an entry that the leader of a term
appends is committed by it once each of enough peers has answered more calls than the leader's log had
entries when it was elected, and one more. -/
theorem leader_commits {i : ℕ} {c₀ c₁ : Cluster N P} {evs₀ before after : List (Event N P)}
    (hreach : cfg.runWhile (fun c ev => noCompaction cfg c ev && electedAppend c ev)
      (Cluster.init N P) evs₀ = some c₀)
    (hcandidate : (c₀.node n).role = .candidate)
    (hstep : cfg.step c₀ (.run (.finishElection n)) = some c) (hleader : (c.node n).role = .leader)
    (hbefore : cfg.runWhile (steady cfg n (c₀.node n).currentTerm) c before = some c₁)
    (hafter : cfg.runWhile (steady cfg n (c₀.node n).currentTerm) c₁
      (.run (.proposeAppend n i) :: after) = some c')
    (hlead : LeadsIn n (c₀.node n).currentTerm c') (hQ : Enough cfg n Q)
    (hanswers : ∀ p ∈ Q, (c₀.node n).log.length + 2 ≤
      answers cfg n p c₁ (.run (.proposeAppend n i) :: after)) :
    ∃ command payload, (c₁.proposals n)[i]? = some (.checked command payload) ∧
      (c'.node n).log[(c₁.node n).log.length]? = some
        ⟨(c₁.node n).log.length + 1, (c₀.node n).currentTerm, command, payload⟩ ∧
      (c₁.node n).log.length + 1 ≤ (c'.node n).commitIndex := by
  have hwhole : Uncompacted cfg c₀ := by
    refine Config.runWhile_induction (fun c ev c' h hC hs => ?_) Uncompacted.init hreach
    rw [Bool.and_eq_true] at hC
    exact h.step hC.1 hC.2 hs
  obtain ⟨s, helected⟩ := underway_elected hwhole hcandidate hstep hleader
  obtain ⟨⟨s₁, hunderway⟩, -⟩ := helected.run hQ hbefore (leadsIn_of_steady hafter hlead)
  simp only [Config.runWhile, Option.ite_none_right_eq_some, Option.bind_eq_some_iff] at hafter
  obtain ⟨hsteady, c₂, hpropose, hafter⟩ := hafter
  obtain ⟨s₂, command, payload, hcall, hsent, hcounted⟩ :=
    hunderway.append hQ hsteady hpropose (leadsIn_of_steady hafter hlead)
  obtain ⟨⟨s', hend⟩, hkept⟩ := hsent.run hQ hafter hlead
  have hkept := hkept _ _ hcounted
  refine ⟨command, payload, hcall, hkept.holds, hkept.counted fun p hp => ?_⟩
  obtain ⟨synced, hp'⟩ := hend.towards p (hQ.peers p hp)
  refine hp'.reached ?_
  have hmany := hanswers p hp
  simp only [answers, answerTo, hpropose] at hmany
  simpa using hmany

end runs

/-- Node `0` of two is elected, its first call is lost, and then the other node answers twice. -/
theorem leader_commits_twoAnswers : ∃ c₀ c c₁ c' : Cluster (Fin 2) ℕ,
    twoNodes.runWhile (fun c ev => noCompaction twoNodes c ev && electedAppend c ev)
        (Cluster.init (Fin 2) ℕ) (electionEvents 0 0 [true]).dropLast = some c₀ ∧
      twoNodes.step c₀ (.run (.finishElection 0)) = some c ∧
      twoNodes.runWhile (steady twoNodes 0 (c₀.node 0).currentTerm) c
        [.run (.replicate 0 1), .run (.proposeCheck 0 .addAlert 10), .run (.replicateLost 0)] = some c₁ ∧
      twoNodes.runWhile (steady twoNodes 0 (c₀.node 0).currentTerm) c₁
        (.run (.proposeAppend 0 0) :: (replicateEvents 0 1 1 ++ replicateEvents 0 1 2)) = some c' ∧
      (c₁.node 0).log.length + 1 ≤ (c'.node 0).commitIndex := by
  have hrun : ((twoNodes.runWhile (fun c ev => noCompaction twoNodes c ev && electedAppend c ev)
      (Cluster.init (Fin 2) ℕ) (electionEvents 0 0 [true]).dropLast).bind fun c₀ =>
        (twoNodes.step c₀ (.run (.finishElection 0))).bind fun c =>
          (twoNodes.runWhile (steady twoNodes 0 (c₀.node 0).currentTerm) c [.run (.replicate 0 1),
              .run (.proposeCheck 0 .addAlert 10), .run (.replicateLost 0)]).bind fun c₁ =>
            (twoNodes.runWhile (steady twoNodes 0 (c₀.node 0).currentTerm) c₁
              (.run (.proposeAppend 0 0) :: (replicateEvents 0 1 1 ++ replicateEvents 0 1 2))).map
                fun c' => ((c₀.node 0).role, (c.node 0).role,
                  decide (LeadsIn 0 (c₀.node 0).currentTerm c'), (c₀.node 0).log.length,
                  answers twoNodes 0 1 c₁ (.run (.proposeAppend 0 0) ::
                    (replicateEvents 0 1 1 ++ replicateEvents 0 1 2)))) =
        some (.candidate, .leader, true, 0, 2) := by
    decide +kernel
  obtain ⟨c₀, hc₀, hrun⟩ := Option.bind_eq_some_iff.mp hrun
  obtain ⟨c, hc, hrun⟩ := Option.bind_eq_some_iff.mp hrun
  obtain ⟨c₁, hc₁, hrun⟩ := Option.bind_eq_some_iff.mp hrun
  obtain ⟨c', hc', hfacts⟩ := Option.map_eq_some_iff.mp hrun
  simp only [Prod.mk.injEq, decide_eq_true_eq] at hfacts
  obtain ⟨hcandidate, hleader, hlead, hlength, hcount⟩ := hfacts
  have hQ : Enough twoNodes (0 : Fin 2) [1] := ⟨by decide, by decide, by decide⟩
  obtain ⟨-, -, -, -, hcommit⟩ := leader_commits hc₀ hcandidate hc hleader hc₁ hc' hlead hQ (by
    intro p hp
    rw [List.mem_singleton.mp hp, hlength, hcount])
  exact ⟨c₀, c, c₁, c', hc₀, hc, hc₁, hc', hcommit⟩

end NanoFabric.Raft
