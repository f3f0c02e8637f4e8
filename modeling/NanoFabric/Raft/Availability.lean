import Mathlib.Data.Finset.Max
import Mathlib.Data.Prod.Lex
import NanoFabric.Raft.CommitProgress

/-!
# A proposal can always succeed

No state that a cluster reaches without compaction is a dead end: whatever calls are in flight and
whatever the nodes have voted, some member can be elected from it, take a command and report it as
committed.

* `Config.CanReach` — some run that keeps state machines safe leads there.
* `Uncompacted.exists_atRest` — a member can crash and stand for leader until its term is the latest.
* `Campaign`, `Campaign.run` — an election in which every peer votes for the member.
* `Sending`, `Sending.round` — a call to a peer from start to end, while an entry is on its way.
* `propose_possible` — **the theorem**.
-/

namespace NanoFabric.Raft

open Found Found.ReplicatedLog

variable {N P : Type} [DecidableEq N]

/-! ## Runs -/

/-- A run of steps that read rightly leads from `c` to `c'`. -/
def Config.CanReach (cfg : Config N) (c c' : Cluster N P) : Prop :=
  ∃ evs, cfg.runWhile (readsRightly cfg) c evs = some c'

variable {cfg : Config N} {c c' c'' c₀ : Cluster N P} {n p : N} {term : ℕ}

theorem Config.CanReach.refl (c : Cluster N P) : cfg.CanReach c c := ⟨[], rfl⟩

theorem Config.CanReach.trans (h : cfg.CanReach c c') (h' : cfg.CanReach c' c'') :
    cfg.CanReach c c'' := by
  obtain ⟨evs, hevs⟩ := h
  obtain ⟨evs', hevs'⟩ := h'
  exact ⟨evs ++ evs', Config.runWhile_append hevs hevs'⟩

theorem Config.CanReach.step {ev : Event N P} (hcond : readsRightly cfg c ev = true)
    (hstep : cfg.step c ev = some c') : cfg.CanReach c c' :=
  ⟨[ev], by rw [Config.runWhile, if_pos hcond, hstep]; rfl⟩

/-! ## Before an election -/

theorem Uncompacted.snapshotIndex (h : Uncompacted cfg c) (m : N) : (c.node m).snapshotIndex = 0 := by
  obtain ⟨s, href⟩ := h.refines
  exact (href.snap m).symm.trans (h.whole m)

/-- Where nothing was compacted, the last index and term are those of the log. -/
theorem Uncompacted.lastLogInfo (h : Uncompacted cfg c) (m : N) :
    (c.node m).lastLogInfo = ((c.node m).log.length, lastTerm LogEntry.term (c.node m).log) := by
  obtain ⟨s, href⟩ := h.refines
  rw [h.log_eq href m]
  exact (href.node m).lastLogInfo (href.sound.aligned_log m)

/-- A step of an uncompacted cluster that stores no snapshot. -/
theorem Uncompacted.canReach (h : Uncompacted cfg c) {ev : Event N P}
    (hno : noCompaction cfg c ev = true) (happ : electedAppend c ev = true)
    (hfresh : freshResponse c ev = true) (hstep : cfg.step c ev = some c') :
    cfg.CanReach c c' ∧ Uncompacted cfg c' := by
  refine ⟨.step ?_ hstep, h.step hno happ hstep⟩
  simp only [readsRightly, readsWholeLog_of_zero h.snapshotIndex, happ, hfresh, Bool.and_self]

/-- A block of an uncompacted cluster that stores no snapshot. -/
theorem Uncompacted.canRun (h : Uncompacted cfg c) {a : Action N P} {b : Block N P}
    (hb : cfg.block c a = some b) (heffs : ∀ e ∈ b.effects, e.isSnapshot = false)
    (happ : electedAppend c (.run a) = true) (hfresh : freshResponse c (.run a) = true) :
    cfg.CanReach c (b.calls (c.runBlock b.actor b.node b.effects)) ∧
      Uncompacted cfg (b.calls (c.runBlock b.actor b.node b.effects)) := by
  refine h.canReach ?_ happ hfresh (by rw [Config.step, hb]; rfl)
  simpa [noCompaction, Event.action?, hb] using heffs

/-- Node `n` of an uncompacted cluster does nothing, and has its log as in `c₀`; the other nodes are as
in `c₀`. -/
structure AtRest (cfg : Config N) (c₀ c : Cluster N P) (n : N) : Prop where
  uncompacted : Uncompacted cfg c
  follower : (c.node n).role = .follower
  noElection : c.election n = none
  log : (c.node n).log = (c₀.node n).log
  others : ∀ m, m ≠ n → c.node m = c₀.node m

/-- A member crashes. -/
theorem Uncompacted.atRest_restart (h : Uncompacted cfg c) (hn : n ∈ cfg.members) :
    cfg.CanReach c (c.restart n) ∧ AtRest cfg c (c.restart n) n ∧
      ((c.restart n).node n).currentTerm = (c.node n).currentTerm := by
  obtain ⟨s, href⟩ := h.refines
  have hstep : cfg.step c (.restart n) = some (c.restart n) := if_pos hn
  have hnode : (c.restart n).node n = RaftNode.boot (c.disk n) := Function.update_self ..
  obtain ⟨hreach, hnext⟩ := h.canReach rfl rfl rfl hstep
  refine ⟨hreach, ⟨hnext, ?_, Function.update_self .., ?_, fun m hm => Function.update_of_ne hm ..⟩, ?_⟩
  · rw [hnode, RaftNode.role_boot]
  · rw [hnode, RaftNode.boot_eq]
    simp only [h.whole n, if_true]
    rw [h.log_eq href n, (href.disk n).log, h.whole n, List.drop_zero]
  · rw [hnode, RaftNode.boot_eq]
    exact congrArg Prod.fst (h.elections.stored n)

/-- A member that does nothing stands for leader. -/
theorem AtRest.stand (h : AtRest cfg c₀ c n) (hn : n ∈ cfg.members) :
    ∃ c', cfg.CanReach c c' ∧ Uncompacted cfg c' ∧ c'.node = Function.update c.node n
        ((c.node n).startElection n).1 ∧
      c'.election n = some ⟨(c.node n).currentTerm + 1, (c.node n).lastLogInfo.1,
        (c.node n).lastLogInfo.2, cfg.peers n, none⟩ := by
  have hcan : n ∈ cfg.members ∧ c.election n = .none ∧ (c.node n).role ≠ .leader :=
    ⟨hn, h.noElection, by rw [h.follower]; nofun⟩
  have hblock : cfg.block c (.startElection n) = some ⟨n, ((c.node n).startElection n).1,
      ((c.node n).startElection n).2, fun c' => c'.setElection n
        (some ⟨(c.node n).currentTerm + 1, (c.node n).lastLogInfo.1, (c.node n).lastLogInfo.2,
          cfg.peers n, .none⟩)⟩ := by
    simp only [Config.block, Config.electionBlock, if_pos hcan, Option.some_or]
    rfl
  obtain ⟨hreach, hnext⟩ := h.uncompacted.canRun hblock
    (by simp [RaftNode.startElection, RaftNode.persistState, Effect.isSnapshot]) rfl rfl
  exact ⟨_, hreach, hnext, rfl, Function.update_self ..⟩

/-- From an uncompacted state a member can crash and stand for leader until its term is as late as one
likes. -/
theorem Uncompacted.exists_atRest (h : Uncompacted cfg c) (hn : n ∈ cfg.members) (t : ℕ) :
    ∃ c', cfg.CanReach c c' ∧ AtRest cfg c c' n ∧ t ≤ (c'.node n).currentTerm := by
  induction t with
  | zero =>
      obtain ⟨hreach, hrest, -⟩ := h.atRest_restart hn
      exact ⟨_, hreach, hrest, Nat.zero_le _⟩
  | succ t ih =>
      obtain ⟨c₁, hreach₁, hrest₁, ht⟩ := ih
      obtain ⟨c₂, hreach₂, hnext₂, hnode₂, -⟩ := hrest₁.stand hn
      obtain ⟨hreach₃, hrest₃, hterm₃⟩ := hnext₂.atRest_restart hn
      refine ⟨_, hreach₁.trans (hreach₂.trans hreach₃), ⟨hrest₃.uncompacted, hrest₃.follower,
        hrest₃.noElection, hrest₃.log.trans ?_, fun m hm => (hrest₃.others m hm).trans ?_⟩, ?_⟩
      · rw [hnode₂, Function.update_self]
        exact hrest₁.log
      · rw [hnode₂, Function.update_of_ne hm]
        exact hrest₁.others m hm
      · rw [hterm₃, hnode₂, Function.update_self]
        exact Nat.succ_le_succ ht

/-! ## An election -/

/-- Node `n` stands in a term that no member is beyond. The peers in `pending` are asked yet and are as
in `c₀`, in earlier terms; the others have voted for the node, whose log is as in `c₀`. -/
structure Campaign (cfg : Config N) (c₀ c : Cluster N P) (n : N) (term : ℕ) (pending : List N) :
    Prop where
  uncompacted : Uncompacted cfg c
  peers : pending.Sublist (cfg.peers n)
  candidate : (c.node n).role = .candidate
  term_eq : (c.node n).currentTerm = term
  votes : (c.node n).votesReceived + pending.length = (cfg.peers n).length + 1
  log : (c.node n).log = (c₀.node n).log
  election : c.election n = some ⟨term, (c.node n).lastLogInfo.1, (c.node n).lastLogInfo.2, pending, none⟩
  others : ∀ m ∈ pending, c.node m = c₀.node m ∧ (c₀.node m).currentTerm < term
  terms : ∀ m ∈ cfg.members, (c.node m).currentTerm ≤ term

/-- The log of `n` is at least as up to date as that of every member. -/
def MostUpToDate (cfg : Config N) (c : Cluster N P) (n : N) : Prop :=
  ∀ m ∈ cfg.members, isLogUpToDate (c.node n).lastLogInfo.1 (c.node n).lastLogInfo.2
    (c.node m).lastLogInfo.1 (c.node m).lastLogInfo.2 = true

theorem exists_mostUpToDate (c : Cluster N P) (hne : cfg.members ≠ []) :
    ∃ n ∈ cfg.members, MostUpToDate cfg c n := by
  obtain ⟨n, hn, hmax⟩ := Finset.exists_max_image cfg.members.toFinset
    (fun m => toLex ((c.node m).lastLogInfo.2, (c.node m).lastLogInfo.1))
    (List.toFinset_nonempty_iff _ |>.mpr hne)
  refine ⟨n, List.mem_toFinset.mp hn, fun m hm => ?_⟩
  have hle := Prod.Lex.le_iff.mp (hmax m (List.mem_toFinset.mpr hm))
  simp only [ofLex_toLex] at hle
  unfold isLogUpToDate
  split_ifs with hterm
  · exact decide_eq_true (hle.resolve_right fun h => hterm h.1.symm)
  · exact decide_eq_true (hle.elim (fun h => absurd h.ne' hterm) And.right)

/-- A node in an earlier term votes for a candidate with a log that is at least as up to date. -/
theorem RaftNode.handleRequestVote_grants {nd : RaftNode N P} {req : RequestVoteRequest N}
    (hterm : nd.currentTerm < req.term)
    (hlog : isLogUpToDate req.lastLogIndex req.lastLogTerm nd.lastLogInfo.1 nd.lastLogInfo.2 = true) :
    (nd.handleRequestVote req).2.2 = ⟨req.term, true⟩ ∧
      (nd.handleRequestVote req).1.currentTerm = req.term ∧
      ∀ e ∈ (nd.handleRequestVote req).2.1, e.isSnapshot = false := by
  simp only [handleRequestVote, if_neg hterm.not_gt, if_pos hterm, becomeFollower]
  rw [if_pos ⟨Or.inl trivial, hlog⟩]
  simp [persistState, Effect.isSnapshot]

/-- A candidate asks its next peer. -/
theorem Uncompacted.canRequestVote (h : Uncompacted cfg c) {idx lastTerm : ℕ} {pending : List N}
    (hel : c.election n = some ⟨term, idx, lastTerm, p :: pending, none⟩) :
    ∃ c', cfg.CanReach c c' ∧ Uncompacted cfg c' ∧ c'.node = c.node ∧
      c'.election n = some ⟨term, idx, lastTerm, pending, some c.voteRpcs.length⟩ ∧
      c'.voteRpcs[c.voteRpcs.length]? = some ⟨n, p, ⟨term, n, idx, lastTerm⟩, none⟩ := by
  have hblock : cfg.block c (.requestVote n) = some ⟨n, c.node n, [], fun c' =>
      { c'.setElection n (some ⟨term, idx, lastTerm, pending, some c'.voteRpcs.length⟩) with
        voteRpcs := c'.voteRpcs ++ [⟨n, p, ⟨term, n, idx, lastTerm⟩, none⟩] }⟩ := by
    simp only [Config.block, Config.electionBlock, hel, Option.some_or]
  obtain ⟨hreach, hnext⟩ := h.canRun hblock (by simp) rfl rfl
  exact ⟨_, hreach, hnext, Function.update_eq_self .., Function.update_self ..,
    List.getElem?_concat_length⟩

/-- A peer in an earlier term votes. -/
theorem Uncompacted.canGrant (h : Uncompacted cfg c) {i : ℕ} {req : RequestVoteRequest N}
    (hrpc : c.voteRpcs[i]? = some ⟨n, p, req, none⟩) (hterm : (c.node p).currentTerm < req.term)
    (hlog : isLogUpToDate req.lastLogIndex req.lastLogTerm (c.node p).lastLogInfo.1
      (c.node p).lastLogInfo.2 = true) :
    ∃ c', cfg.CanReach c c' ∧ Uncompacted cfg c' ∧
      c'.node = Function.update c.node p ((c.node p).handleRequestVote req).1 ∧
      c'.election = c.election ∧ c'.voteRpcs[i]? = some ⟨n, p, req, some ⟨req.term, true⟩⟩ := by
  obtain ⟨hresp, -, heffs⟩ := RaftNode.handleRequestVote_grants hterm hlog
  have hblock : cfg.block c (.handleRequestVote i) = some ⟨p,
      ((c.node p).handleRequestVote req).1, ((c.node p).handleRequestVote req).2.1, fun c' =>
      { c' with
        voteRpcs := c'.voteRpcs.set i
          ⟨n, p, req, some ((c.node p).handleRequestVote req).2.2⟩ }⟩ := by
    simp only [Config.block, Config.electionBlock, hrpc, Option.some_or]
  obtain ⟨hreach, hnext⟩ := h.canRun hblock heffs rfl rfl
  refine ⟨_, hreach, hnext, rfl, c.perform_election _ _, ?_⟩
  simp only [Cluster.runBlock, Cluster.perform_voteRpcs, hresp]
  exact List.getElem?_set_self (List.getElem?_eq_some_iff.mp hrpc).1

/-- A candidate counts a vote. -/
theorem Uncompacted.canCount (h : Uncompacted cfg c) {idx lastTerm i : ℕ} {pending : List N}
    {req : RequestVoteRequest N}
    (hel : c.election n = some ⟨term, idx, lastTerm, pending, some i⟩)
    (hrpc : c.voteRpcs[i]? = some ⟨n, p, req, some ⟨term, true⟩⟩)
    (hterm : (c.node n).currentTerm = term) :
    ∃ c', cfg.CanReach c c' ∧ Uncompacted cfg c' ∧
      c'.node = Function.update c.node n
        { c.node n with votesReceived := (c.node n).votesReceived + 1 } ∧
      c'.election n = some ⟨term, idx, lastTerm, pending, none⟩ := by
  have hresp : (c.node n).handleVoteResponse ⟨term, true⟩ =
      ({ c.node n with votesReceived := (c.node n).votesReceived + 1 }, [], true) := by
    simp [RaftNode.handleVoteResponse, hterm]
  have hblock : cfg.block c (.voteReply n) = some ⟨n,
      { c.node n with votesReceived := (c.node n).votesReceived + 1 }, [], fun c' =>
        c'.setElection n (some ⟨term, idx, lastTerm, pending, none⟩)⟩ := by
    simp only [Config.block, Config.electionBlock, hel, hrpc, Option.bind_some, hresp, if_true,
      Option.some_or]
  obtain ⟨hreach, hnext⟩ := h.canRun hblock (by simp) rfl rfl
  exact ⟨_, hreach, hnext, rfl, Function.update_self ..⟩

/-- A peer is asked, votes, and its answer is counted. -/
theorem Campaign.ask {pending : List N} (h : Campaign cfg c₀ c n term (p :: pending))
    (hc₀ : Uncompacted cfg c₀) (hbest : MostUpToDate cfg c₀ n) :
    ∃ c', cfg.CanReach c c' ∧ Campaign cfg c₀ c' n term pending := by
  have hpeer : ∀ m ∈ p :: pending, m ∈ cfg.members ∧ m ≠ n := fun m hm =>
    (List.mem_filter.mp (h.peers.subset hm)).imp_right of_decide_eq_true
  obtain ⟨hmem, hpn⟩ := hpeer p List.mem_cons_self
  have hnodup : p ∉ pending := (List.nodup_cons.mp (h.peers.nodup (cfg.nodup.filter _))).1
  obtain ⟨hold, hlt⟩ := h.others p List.mem_cons_self
  have hinfo : (c.node n).lastLogInfo = (c₀.node n).lastLogInfo := by
    rw [h.uncompacted.lastLogInfo, hc₀.lastLogInfo, h.log]
  obtain ⟨c₁, hreach₁, hnext₁, hnode₁, hel₁, hrpc₁⟩ := h.uncompacted.canRequestVote h.election
  have hlog : isLogUpToDate (c.node n).lastLogInfo.1 (c.node n).lastLogInfo.2
      (c₁.node p).lastLogInfo.1 (c₁.node p).lastLogInfo.2 = true := by
    rw [hinfo, hnode₁, hold]
    exact hbest p hmem
  have hterm₁ : (c₁.node p).currentTerm < term := by
    rw [hnode₁, hold]
    exact hlt
  obtain ⟨c₂, hreach₂, hnext₂, hnode₂, hel₂, hrpc₂⟩ := hnext₁.canGrant hrpc₁ hterm₁ hlog
  have hself₂ : c₂.node n = c.node n := by
    rw [hnode₂, Function.update_of_ne hpn.symm, hnode₁]
  obtain ⟨c₃, hreach₃, hnext₃, hnode₃, hel₃⟩ := hnext₂.canCount (hel₂ ▸ hel₁) hrpc₂
    (by rw [hself₂, h.term_eq])
  have hself₃ : c₃.node n = { c.node n with votesReceived := (c.node n).votesReceived + 1 } := by
    rw [hnode₃, Function.update_self, hself₂]
  have hothers₃ : ∀ m, m ≠ n → m ≠ p → c₃.node m = c.node m := by
    intro m hmn hmp
    rw [hnode₃, Function.update_of_ne hmn, hnode₂, Function.update_of_ne hmp, hnode₁]
  refine ⟨c₃, hreach₁.trans (hreach₂.trans hreach₃), hnext₃,
    (List.sublist_cons_self p pending).trans h.peers, ?_, ?_, ?_, ?_, ?_, ?_, ?_⟩
  · rw [hself₃]
    exact h.candidate
  · rw [hself₃]
    exact h.term_eq
  · have := h.votes
    rw [hself₃]
    simp only [List.length_cons] at this ⊢
    omega
  · rw [hself₃]
    exact h.log
  · rw [hel₃, hself₃]
    rfl
  · intro m hm
    have hm' := List.mem_cons_of_mem p hm
    rw [hothers₃ m (hpeer m hm').2 fun heq => hnodup (heq ▸ hm)]
    exact h.others m hm'
  · intro m hm
    by_cases hmn : m = n
    · rw [hmn, hself₃]
      exact h.term_eq.le
    · rw [hnode₃, Function.update_of_ne hmn, hnode₂]
      by_cases hmp : m = p
      · rw [hmp, Function.update_self, (RaftNode.handleRequestVote_grants hterm₁ hlog).2.1]
      · rw [Function.update_of_ne hmp, hnode₁]
        exact h.terms m hm

/-- All the peers are asked, one after the other. -/
theorem Campaign.run (hc₀ : Uncompacted cfg c₀) (hbest : MostUpToDate cfg c₀ n) (pending : List N) :
    ∀ {c : Cluster N P}, Campaign cfg c₀ c n term pending →
      ∃ c', cfg.CanReach c c' ∧ Campaign cfg c₀ c' n term [] := by
  induction pending with
  | nil => exact fun h => ⟨_, .refl _, h⟩
  | cons p pending ih =>
      intro c h
      obtain ⟨c₁, hreach₁, h₁⟩ := h.ask hc₀ hbest
      obtain ⟨c₂, hreach₂, h₂⟩ := ih h₁
      exact ⟨c₂, hreach₁.trans hreach₂, h₂⟩

theorem majorityCount_le (k : ℕ) : majorityCount k ≤ k + 1 := by
  unfold majorityCount
  omega

/-- A node that leads, with entries of earlier terms only. -/
structure Elected (cfg : Config N) (c : Cluster N P) (n : N) (term base : ℕ) : Prop where
  underway : ∃ s, Underway cfg c s n term base 0 fun _ => 0
  length : (c.node n).log.length = base
  older : ∀ e ∈ (c.node n).log, e.term < term
  terms : ∀ m ∈ cfg.members, (c.node m).currentTerm ≤ term

/-- From an uncompacted state some member can win an election in a term later than all. -/
theorem Uncompacted.exists_elected (h : Uncompacted cfg c) (hne : cfg.members ≠ []) :
    ∃ n ∈ cfg.members, ∃ c' term base, cfg.CanReach c c' ∧ Elected cfg c' n term base ∧
      ∀ m ∈ cfg.members, (c.node m).currentTerm < term := by
  obtain ⟨n, hn, hbest⟩ := exists_mostUpToDate c hne
  -- the node comes to a term that no member is beyond, and stands in the next one
  obtain ⟨top, htop⟩ : ∃ top, ∀ m ∈ cfg.members, (c.node m).currentTerm ≤ top :=
    ⟨cfg.members.toFinset.sup fun m => (c.node m).currentTerm, fun m hm =>
      Finset.le_sup (f := fun m => (c.node m).currentTerm) (List.mem_toFinset.mpr hm)⟩
  obtain ⟨c₁, hreach₁, hrest, hterm⟩ := h.exists_atRest hn top
  obtain ⟨c₂, hreach₂, hnext₂, hnode₂, hel₂⟩ := hrest.stand hn
  have hself₂ : c₂.node n = ((c₁.node n).startElection n).1 := by
    rw [hnode₂, Function.update_self]
  have hothers₂ : ∀ m, m ≠ n → c₂.node m = c.node m := by
    intro m hm
    rw [hnode₂, Function.update_of_ne hm]
    exact hrest.others m hm
  have hcampaign : Campaign cfg c c₂ n ((c₁.node n).currentTerm + 1) (cfg.peers n) := by
    refine ⟨hnext₂, List.Sublist.refl _, ?_, ?_, ?_, ?_, ?_, ?_, ?_⟩
    · rw [hself₂]
      rfl
    · rw [hself₂]
      rfl
    · rw [hself₂]
      exact Nat.add_comm _ _
    · rw [hself₂]
      exact hrest.log
    · rw [hel₂, hself₂]
      rfl
    · intro m hm
      obtain ⟨hmem, hmn⟩ := List.mem_filter.mp hm
      exact ⟨hothers₂ m (of_decide_eq_true hmn), Nat.lt_succ_of_le ((htop m hmem).trans hterm)⟩
    · intro m hm
      by_cases hmn : m = n
      · rw [hmn, hself₂]
        exact le_rfl
      · rw [hothers₂ m hmn]
        exact ((htop m hm).trans hterm).trans (Nat.le_succ _)
  obtain ⟨c₃, hreach₃, hwon⟩ := hcampaign.run h hbest
  have hwins : (c₃.node n).winsElection (cfg.peers n) = true := by
    have hvotes := hwon.votes
    have hle := majorityCount_le (cfg.peers n).length
    rw [RaftNode.winsElection, hwon.candidate, Bool.and_eq_true, decide_eq_true_iff, decide_eq_true_iff]
    exact ⟨rfl, hle.trans_eq hvotes.symm⟩
  have hblock : cfg.block c₃ (.finishElection n) = some ⟨n, (c₃.node n).becomeLeader n (cfg.peers n), [],
      fun c' => { c'.setElection n none with
        elected := (n, (c₃.node n).currentTerm) :: c'.elected }⟩ := by
    simp only [Config.block, Config.electionBlock, hwon.election, hwins, if_true, Option.some_or]
  obtain ⟨c₄, hstep₄, hnode₄⟩ : ∃ c₄, cfg.step c₃ (.run (.finishElection n)) = some c₄ ∧
      c₄.node = Function.update c₃.node n ((c₃.node n).becomeLeader n (cfg.peers n)) :=
    ⟨_, by rw [Config.step, hblock]; rfl, rfl⟩
  have hself₄ : c₄.node n = (c₃.node n).becomeLeader n (cfg.peers n) := by
    rw [hnode₄, Function.update_self]
  have hlog₄ : (c₄.node n).log = (c₃.node n).log := by
    rw [hself₄]
    rfl
  obtain ⟨s, hs⟩ := underway_elected hwon.uncompacted hwon.candidate hstep₄ (by rw [hself₄]; rfl)
  obtain ⟨hreach₄, -⟩ := hwon.uncompacted.canReach
    (by simp [noCompaction, Event.action?, hblock]) rfl rfl hstep₄
  refine ⟨n, hn, c₄, _, _, hreach₁.trans (hreach₂.trans (hreach₃.trans hreach₄)),
    ⟨⟨s, hs⟩, by rw [hlog₄], fun e he => ?_, fun m hm => ?_⟩, fun m hm => ?_⟩
  · -- entries are of terms that the node had reached before
    rw [hlog₄, hwon.log] at he
    obtain ⟨s₀, href₀⟩ := h.refines
    rw [h.log_eq href₀ n] at he
    have hle := href₀.sound.inv.log_le he
    rw [(href₀.node n).term] at hle
    rw [hwon.term_eq]
    exact Nat.lt_succ_of_le (hle.trans ((htop n hn).trans hterm))
  · rw [hwon.term_eq]
    by_cases hmn : m = n
    · rw [hmn, hself₄]
      exact hwon.term_eq.le
    · rw [hnode₄, Function.update_of_ne hmn]
      exact hwon.terms m hm
  · rw [hwon.term_eq]
    exact Nat.lt_succ_of_le ((htop m hm).trans hterm)

/-! ## Blocks while an entry is on its way -/

namespace RaftNode

variable {nd : RaftNode N P}

/-- The node has come to a commit index at which its log had an entry of its term. -/
def CommittedOwn (nd nd' : RaftNode N P) : Prop :=
  0 < nd'.commitIndex ∧
    ∃ entry, nd.log[nd'.commitIndex - 1]? = some entry ∧ entry.term = nd.currentTerm

omit [DecidableEq N] in
/-- `_advance_commit_index` stores a snapshot only when it has committed an entry of its term. -/
theorem isSnapshot_advanceCommitIndex (threshold : ℕ) (peers : List N) (nd : RaftNode N P) :
    (∀ e ∈ (nd.advanceCommitIndex threshold peers).2, e.isSnapshot = false) ∨
      CommittedOwn nd (nd.advanceCommitIndex threshold peers).1 := by
  rcases advanceCommitIndex_cases threshold peers nd with h | ⟨k, hlt, -, hk, h⟩
  · rw [h]
    exact Or.inl (by simp)
  · right
    rw [commits, Bool.and_eq_true, decide_eq_true_iff] at hk
    obtain ⟨entry, hentry, hterm⟩ := Option.map_eq_some_iff.mp hk.1
    rw [CommittedOwn, h, commitIndex_maybeSnapshot]
    exact ⟨Nat.zero_lt_of_lt hlt, entry, hentry, hterm⟩

/-- A response of the node's term leaves the node in its term and role. -/
theorem quiet_handleAppendResponse (threshold : ℕ) (peers : List N) (peer : N)
    (req : AppendEntriesRequest N P) (nd : RaftNode N P) {resp : AppendEntriesResponse}
    (hterm : resp.term ≤ nd.currentTerm) :
    Quiet nd (nd.handleAppendResponse threshold peers peer req resp).1
        (nd.handleAppendResponse threshold peers peer req resp).2 ∧
      ((∀ e ∈ (nd.handleAppendResponse threshold peers peer req resp).2, e.isSnapshot = false) ∨
        CommittedOwn nd (nd.handleAppendResponse threshold peers peer req resp).1) := by
  rcases handleAppendResponse_cases threshold peers peer req nd resp with
    ⟨hlt, -⟩ | ⟨-, -, next, matched, -, -, h⟩ | ⟨-, -, next, h⟩
  · exact absurd hlt hterm.not_gt
  · rw [h]
    have hq := quiet_advanceCommitIndex threshold peers { nd with
      nextIndex := next, matchIndex := Function.update nd.matchIndex peer (some matched) }
    exact ⟨⟨hq.term, hq.votedFor, hq.role, hq.votesReceived, hq.effects⟩,
      isSnapshot_advanceCommitIndex threshold peers _⟩
  · rw [h]
    exact ⟨⟨rfl, rfl, rfl, rfl, by simp⟩, Or.inl (by simp)⟩

omit [DecidableEq N] in
/-- A request that is not of an earlier term takes the node to its term. -/
theorem handleAppendEntries_follows {req : AppendEntriesRequest N P}
    (hterm : nd.currentTerm ≤ req.term) :
    (nd.handleAppendEntries req).2.2.term = req.term ∧
      (nd.handleAppendEntries req).1.currentTerm = req.term ∧
      ∀ e ∈ (nd.handleAppendEntries req).2.1, e.isSnapshot = false := by
  have hfollows : (nd.becomeFollower req.term (some req.leaderId)).1.currentTerm = req.term := by
    rw [becomeFollower_currentTerm]
    exact max_eq_right hterm
  have hstate : ∀ e ∈ (nd.becomeFollower req.term (some req.leaderId)).2, e.isSnapshot = false :=
    fun e he => isSnapshot_of_isOutput ((nd.idle_becomeFollower _ _).noOutput e he)
  rcases handleAppendEntries_cases nd req with ⟨hlt, -⟩ | ⟨_, _, -, rfl, rfl, h⟩
  · exact absurd hlt hterm.not_gt
  rcases h with h | ⟨-, h⟩
  · rw [h]
    exact ⟨hfollows, hfollows, hstate⟩
  · rw [h]
    refine ⟨hfollows, (quiet_followCommit _ _).term.trans hfollows, fun e he => ?_⟩
    simp only [List.mem_append] at he
    rcases he with ((he | he) | he) | he
    · exact hstate e he
    · exact isSnapshot_of_isOutput (isOutput_appendLoop _ _ e he)
    · exact isSnapshot_of_isOutput (isOutput_storeEntries _ e he)
    · unfold followCommit at he
      split_ifs at he
      · rw [applyPendingCommits_eq] at he
        exact isSnapshot_applyEffects _ e he
      · cases he

end RaftNode

/-! ## Replication of an entry -/

theorem Led.uncompacted {s : AbstractLog N P} (h : Led cfg c s n term) : Uncompacted cfg c :=
  ⟨h.elections, fun m => (h.refines.snap m).trans (h.whole m), s, h.refines⟩

/-- `propose` on node `n` waits for an entry that stands at the end of the node's log, the only one of
its term. No member is in a later term. -/
structure Sending (cfg : Config N) (c : Cluster N P) (n : N) (term base i : ℕ) (entry : LogEntry P)
    (answered : N → ℕ) : Prop where
  underway : ∃ s, Underway cfg c s n term base (base + 1) answered
  counted : Counted c n term (cfg.peers n) base entry
  older : ∀ k e, (c.node n).log[k]? = some e → e.term = term → k = base
  terms : ∀ m ∈ cfg.members, (c.node m).currentTerm ≤ term
  call : (c.proposals n)[i]? = some (.waiting entry)

/-- `propose` on node `n` waits for an entry that is committed. -/
def Ready (c : Cluster N P) (n : N) (i : ℕ) (entry : LogEntry P) : Prop :=
  (c.proposals n)[i]? = some (.waiting entry) ∧ entry.index ≤ (c.node n).commitIndex

variable {base i : ℕ} {entry : LogEntry P} {answered : N → ℕ}

theorem Sending.leads (h : Sending cfg c n term base i entry answered) : LeadsIn n term c := by
  obtain ⟨s, hs⟩ := h.underway
  exact hs.led.leads

theorem Sending.uncompacted (h : Sending cfg c n term base i entry answered) : Uncompacted cfg c := by
  obtain ⟨s, hs⟩ := h.underway
  exact hs.led.uncompacted

/-- The entry has the index of its position. -/
theorem Sending.index (h : Sending cfg c n term base i entry answered) : entry.index = base + 1 := by
  obtain ⟨s, hs⟩ := h.underway
  exact hs.led.aligned n base entry h.counted.holds

theorem enough_peers (cfg : Config N) (n : N) : Enough cfg n (cfg.peers n) :=
  ⟨cfg.nodup.filter _, fun _ => id, majorityCount_le _⟩

/-- A step of the leader that stores no snapshot, while it leads. -/
theorem Sending.step (h : Sending cfg c n term base i entry answered) (ev : Event N P)
    (hno : noCompaction cfg c ev = true) (happ : electedAppend c ev = true)
    (hanswers : answersNewest n term c ev = true) (hstep : cfg.step c ev = some c')
    (hlead : LeadsIn n term c') (hlog : (c'.node n).log = (c.node n).log)
    (hterms : ∀ m ∈ cfg.members, (c'.node m).currentTerm ≤ term)
    (hproposals : c'.proposals = c.proposals) :
    Sending cfg c' n term base i entry
      fun q => answered q + if answerTo n c ev = some q then 1 else 0 := by
  obtain ⟨s, hs⟩ := h.underway
  obtain ⟨hturn, s', hs'⟩ := hs.step (steady_iff.mpr ⟨hs.led.leads, hno, happ, hanswers⟩) hstep hlead
  exact ⟨⟨s', hs'⟩, h.counted.turn (enough_peers cfg n) hturn hs.led hs'.led, hlog ▸ h.older, hterms,
    hproposals ▸ h.call⟩

/-- The leader calls a peer. -/
theorem Sending.canReplicate (h : Sending cfg c n term base i entry answered) (hn : n ∈ cfg.members)
    (hp : p ∈ cfg.peers n) :
    ∃ c' req, cfg.CanReach c c' ∧ Sending cfg c' n term base i entry answered ∧ req.term = term ∧
      c'.appendRpcs = c.appendRpcs ++ [⟨n, p, req, true, none⟩] := by
  have hblock : cfg.block c (.replicate n p) = some ⟨n, c.node n, [], fun c' =>
      { c' with appendRpcs := c'.appendRpcs ++
          [⟨n, p, RaftNode.buildAppendEntries n (c.node n) p, true, none⟩] }⟩ := by
    simp only [Config.block, Config.electionBlock, Config.proposeBlock, Config.replicateBlock,
      if_pos (And.intro hn (And.intro hp h.leads.1)), Option.none_or]
  obtain ⟨hreach, -⟩ := h.uncompacted.canRun hblock (by simp) rfl rfl
  have hnode : ∀ m, Function.update c.node n (c.node n) m = c.node m :=
    congrFun (Function.update_eq_self n c.node)
  refine ⟨_, _, hreach, ?_, h.leads.2, rfl⟩
  refine h.step (.run (.replicate n p)) ?_ rfl rfl (by rw [Config.step, hblock]; rfl) ?_ ?_ ?_ rfl
  · simp [noCompaction, Event.action?, hblock]
  · show (Function.update c.node n _ n).role = _ ∧ (Function.update c.node n _ n).currentTerm = _
    rw [hnode]
    exact h.leads
  · exact congrArg RaftNode.log (hnode n)
  · intro m hm
    show (Function.update c.node n _ m).currentTerm ≤ _
    rw [hnode]
    exact h.terms m hm

/-- The peer handles the call. -/
theorem Sending.canDeliver (h : Sending cfg c n term base i entry answered) (hpn : p ≠ n)
    (hp : p ∈ cfg.members) {j : ℕ} {req : AppendEntriesRequest N P} (hterm : req.term = term)
    (hrpc : c.appendRpcs[j]? = some ⟨n, p, req, true, none⟩) :
    ∃ c' resp, cfg.CanReach c c' ∧ Sending cfg c' n term base i entry answered ∧ resp.term = term ∧
      c'.appendRpcs = c.appendRpcs.set j ⟨n, p, req, true, some resp⟩ := by
  obtain ⟨hresp, hpeer, heffs⟩ :=
    RaftNode.handleAppendEntries_follows ((h.terms p hp).trans_eq hterm.symm)
  have hblock : cfg.block c (.handleAppendEntries j) = some ⟨p, ((c.node p).handleAppendEntries req).1,
      ((c.node p).handleAppendEntries req).2.1, fun c' =>
      { c' with
        appendRpcs := c'.appendRpcs.set j
          ⟨n, p, req, true, some ((c.node p).handleAppendEntries req).2.2⟩ }⟩ := by
    simp only [Config.block, Config.electionBlock, Config.proposeBlock, Config.replicateBlock, hrpc,
      Option.none_or]
  obtain ⟨hreach, -⟩ := h.uncompacted.canRun hblock heffs rfl rfl
  have hnode : Function.update c.node p ((c.node p).handleAppendEntries req).1 n = c.node n :=
    Function.update_of_ne hpn.symm ..
  refine ⟨_, ((c.node p).handleAppendEntries req).2.2, hreach, ?_, hresp.trans hterm, ?_⟩
  · refine h.step (.run (.handleAppendEntries j)) ?_ rfl rfl (by rw [Config.step, hblock]; rfl)
      ?_ ?_ ?_ (c.perform_proposals _ _)
    · simpa [noCompaction, Event.action?, hblock] using heffs
    · show (Function.update c.node p _ n).role = _ ∧ (Function.update c.node p _ n).currentTerm = _
      rw [hnode]
      exact h.leads
    · exact congrArg RaftNode.log hnode
    · intro m hm
      show (Function.update c.node p _ m).currentTerm ≤ _
      by_cases hmp : m = p
      · rw [hmp, Function.update_self, hpeer, hterm]
      · rw [Function.update_of_ne hmp]
        exact h.terms m hm
  · simp only [Cluster.runBlock, Cluster.perform_appendRpcs]

/-- The leader handles the answer to its newest call: then the entry is committed, or one more answer
of the peer is handled. -/
theorem Sending.canHandle (h : Sending cfg c n term base i entry answered) {j : ℕ}
    {req : AppendEntriesRequest N P} {resp : AppendEntriesResponse} (hreq : req.term = term)
    (hterm : resp.term = term) (hrpc : c.appendRpcs[j]? = some ⟨n, p, req, true, some resp⟩)
    (hlast : c.appendRpcs.length = j + 1) :
    ∃ c', cfg.CanReach c c' ∧ (Ready c' n i entry ∨ Sending cfg c' n term base i entry
      fun q => answered q + if p = q then 1 else 0) := by
  obtain ⟨hrole, hcurrent⟩ := h.leads
  obtain ⟨hquiet, hsnap⟩ := RaftNode.quiet_handleAppendResponse (cfg.threshold n) (cfg.peers n) p req
    (c.node n) (hterm.trans hcurrent.symm).le
  have hblock : cfg.block c (.replicateReply j) = some ⟨n,
      ((c.node n).handleAppendResponse (cfg.threshold n) (cfg.peers n) p req resp).1,
      ((c.node n).handleAppendResponse (cfg.threshold n) (cfg.peers n) p req resp).2, fun c' =>
      { c' with appendRpcs := c'.appendRpcs.set j ⟨n, p, req, false, some resp⟩ }⟩ := by
    simp only [Config.block, Config.electionBlock, Config.proposeBlock, Config.replicateBlock, hrpc,
      Option.none_or]
  obtain ⟨c', hstep, hnode, hproposals⟩ : ∃ c', cfg.step c (.run (.replicateReply j)) = some c' ∧
      c'.node = Function.update c.node n ((c.node n).handleAppendResponse (cfg.threshold n)
        (cfg.peers n) p req resp).1 ∧ c'.proposals = c.proposals := by
    refine ⟨_, by rw [Config.step, hblock]; rfl, rfl, ?_⟩
    exact c.perform_proposals _ _
  have hself : c'.node n = ((c.node n).handleAppendResponse (cfg.threshold n) (cfg.peers n) p req
      resp).1 := by
    rw [hnode, Function.update_self]
  have hfresh : freshResponse c (.run (.replicateReply j)) = true := by
    simp [freshResponse, Event.action?, hrpc, hcurrent, hreq]
  refine ⟨c', .step ?_ hstep, ?_⟩
  · rw [readsRightly, readsWholeLog_of_zero h.uncompacted.snapshotIndex, hfresh]
    rfl
  rcases hsnap with hno | ⟨hpos, own, hown, hownTerm⟩
  · right
    have hno : noCompaction cfg c (.run (.replicateReply j)) = true := by
      simpa [noCompaction, Event.action?, hblock] using hno
    have hwhole := (h.uncompacted.step hno rfl hstep).snapshotIndex n
    rw [hself] at hwhole
    have hanswer : answerTo n c (.run (.replicateReply j)) = some p := by
      simp [answerTo, hrpc]
    have hanswers : answersNewest n term c (.run (.replicateReply j)) = true := by
      simp [answersNewest, hrpc, hreq, List.drop_eq_nil_of_le hlast.le]
    have hnext := h.step _ hno rfl hanswers hstep ⟨?_, ?_⟩ ?_ ?_ hproposals
    · simpa only [hanswer, Option.some.injEq] using hnext
    · rw [hself, hquiet.role, hrole]
    · rw [hself, hquiet.term, hcurrent]
    · rw [hself]
      exact (RaftNode.handleAppendResponse_whole hwhole).2
    · intro m hm
      by_cases hmn : m = n
      · rw [hmn, hself, hquiet.term, hcurrent]
      · rw [hnode, Function.update_of_ne hmn]
        exact h.terms m hm
  · -- what it has committed is the entry, the only one of the term
    left
    have hbase := h.older _ own hown (hownTerm.trans hcurrent)
    rw [← hself] at hbase hpos
    refine ⟨hproposals ▸ h.call, ?_⟩
    rw [h.index]
    omega

/-- A call to a peer from start to end. -/
theorem Sending.round (h : Sending cfg c n term base i entry answered) (hn : n ∈ cfg.members)
    (hp : p ∈ cfg.peers n) :
    ∃ c', cfg.CanReach c c' ∧ (Ready c' n i entry ∨ Sending cfg c' n term base i entry
      fun q => answered q + if p = q then 1 else 0) := by
  obtain ⟨hmem, hpn⟩ := List.mem_filter.mp hp
  obtain ⟨c₁, req, hreach₁, h₁, hreq, hcalls₁⟩ := h.canReplicate hn hp
  obtain ⟨c₂, resp, hreach₂, h₂, hresp, hcalls₂⟩ := h₁.canDeliver (of_decide_eq_true hpn) hmem hreq
    (hcalls₁ ▸ List.getElem?_concat_length)
  have hlength : c₁.appendRpcs.length = c.appendRpcs.length + 1 := by
    rw [hcalls₁, List.length_append, List.length_singleton]
  obtain ⟨c₃, hreach₃, h₃⟩ := h₂.canHandle (j := c.appendRpcs.length) hreq hresp
    (by rw [hcalls₂, List.getElem?_set_self (by omega)])
    (by rw [hcalls₂, List.length_set, hlength])
  exact ⟨c₃, hreach₁.trans (hreach₂.trans hreach₃), h₃⟩

/-- As many calls as one likes, each to the next of a list of peers. -/
theorem Sending.rounds (hn : n ∈ cfg.members) (ps : List N) :
    ∀ {c : Cluster N P} {answered : N → ℕ}, (∀ p ∈ ps, p ∈ cfg.peers n) →
      Sending cfg c n term base i entry answered →
        ∃ c', cfg.CanReach c c' ∧ (Ready c' n i entry ∨ Sending cfg c' n term base i entry
          fun q => answered q + ps.count q) := by
  induction ps with
  | nil => exact fun _ h => ⟨_, .refl _, Or.inr h⟩
  | cons p ps ih =>
      intro c answered hps h
      obtain ⟨c₁, hreach₁, hready | h₁⟩ := h.round hn (hps p List.mem_cons_self)
      · exact ⟨c₁, hreach₁, Or.inl hready⟩
      obtain ⟨c₂, hreach₂, h₂⟩ := ih (fun q hq => hps q (List.mem_cons_of_mem p hq)) h₁
      refine ⟨c₂, hreach₁.trans hreach₂, h₂.imp_right fun h₂ => ?_⟩
      have hcount : (fun q => answered q + (p :: ps).count q) =
          fun q => answered q + (if p = q then 1 else 0) + ps.count q := by
        funext q
        simp only [List.count_cons, beq_iff_eq]
        omega
      rw [hcount]
      exact h₂

/-- With enough calls of every peer the entry is committed. -/
theorem Sending.commits (h : Sending cfg c n term base i entry answered) (hn : n ∈ cfg.members) :
    ∃ c', cfg.CanReach c c' ∧ Ready c' n i entry := by
  obtain ⟨c', hreach, h'⟩ := Sending.rounds hn ((cfg.peers n).flatMap (List.replicate (base + 2)))
    (fun p hp => by
      obtain ⟨q, hq, hp⟩ := List.mem_flatMap.mp hp
      exact List.eq_of_mem_replicate hp ▸ hq) h
  refine ⟨c', hreach, h'.elim id fun h' => ⟨h'.call, ?_⟩⟩
  rw [h'.index]
  refine h'.counted.counted fun p hp => ?_
  obtain ⟨s, hs⟩ := h'.underway
  obtain ⟨synced, hp'⟩ := hs.towards p hp
  refine hp'.reached ?_
  have hmany : base + 2 ≤ ((cfg.peers n).flatMap (List.replicate (base + 2))).count p := by
    have hsub := List.sublist_flatten_of_mem (List.mem_map_of_mem (f := List.replicate (base + 2)) hp)
    rw [← List.flatMap_def] at hsub
    simpa using hsub.count_le p
  exact hmany.trans (Nat.le_add_left _ _)

/-! ## An entry is appended -/

omit [DecidableEq N] in
theorem snapshot_proposeLocked (threshold : ℕ) (peers : List N) (nd : RaftNode N P)
    (command : CommandType) (payload : P) :
    (nd.proposeLocked threshold peers command payload).2.2 = (nd.appendLocalEntry command payload).2.2 ∧
      ((∀ e ∈ (nd.proposeLocked threshold peers command payload).2.1, e.isSnapshot = false) ∨
        (nd.appendLocalEntry command payload).1.CommittedOwn
          (nd.proposeLocked threshold peers command payload).1) := by
  have happend : ∀ e ∈ (nd.appendLocalEntry command payload).2.1, e.isSnapshot = false := by
    simp [RaftNode.appendLocalEntry, Effect.isSnapshot]
  rcases RaftNode.proposeLocked_cases threshold peers nd command payload with ⟨-, h⟩ | ⟨-, h⟩
  · rw [h]
    exact ⟨rfl, Or.inl happend⟩
  · rw [h]
    refine ⟨rfl, (RaftNode.isSnapshot_advanceCommitIndex threshold peers _).imp_left fun hno e he => ?_⟩
    exact (List.mem_append.mp he).elim (happend e) (hno e)

/-- `propose` finds that the node leads. -/
theorem Elected.canCheck (h : Elected cfg c n term base) (hn : n ∈ cfg.members) (command : CommandType)
    (payload : P) :
    ∃ c', cfg.CanReach c c' ∧ Elected cfg c' n term base ∧
      (c'.proposals n)[(c.proposals n).length]? = some (.checked command payload) := by
  obtain ⟨s, hs⟩ := h.underway
  have hblock : cfg.block c (.proposeCheck n command payload) = some ⟨n, c.node n, [], fun c' =>
      c'.setProposals n (c'.proposals n ++ [.checked command payload])⟩ := by
    simp only [Config.block, Config.electionBlock, Config.proposeBlock, if_pos hn,
      if_pos hs.led.leads.1, Option.none_or, Option.some_or]
  have hno : noCompaction cfg c (.run (.proposeCheck n command payload)) = true := by
    simp [noCompaction, Event.action?, hblock]
  obtain ⟨c', hstep, hnode, hproposals⟩ : ∃ c', cfg.step c (.run (.proposeCheck n command payload)) =
      some c' ∧ c'.node = c.node ∧ c'.proposals = Function.update c.proposals n
        (c.proposals n ++ [.checked command payload]) :=
    ⟨_, by rw [Config.step, hblock]; rfl, Function.update_eq_self .., rfl⟩
  obtain ⟨hreach, -⟩ := hs.led.uncompacted.canReach hno rfl rfl hstep
  have hlead : LeadsIn n term c' := by
    rw [LeadsIn, hnode]
    exact hs.led.leads
  obtain ⟨-, s', hs'⟩ := hs.step (steady_iff.mpr ⟨hs.led.leads, hno, rfl, rfl⟩) hstep hlead
  refine ⟨c', hreach, ⟨⟨s', ?_⟩, ?_, ?_, ?_⟩, ?_⟩
  · simpa [answerTo] using hs'
  · rw [hnode]
    exact h.length
  · rw [hnode]
    exact h.older
  · rw [hnode]
    exact h.terms
  · rw [hproposals, Function.update_self, List.getElem?_concat_length]

/-- `propose` appends: then its entry is committed, or on its way. -/
theorem Elected.canAppend (h : Elected cfg c n term base) {command : CommandType} {payload : P}
    (hcall : (c.proposals n)[i]? = some (.checked command payload)) :
    ∃ c', cfg.CanReach c c' ∧ (Ready c' n i ⟨base + 1, term, command, payload⟩ ∨
      Sending cfg c' n term base i ⟨base + 1, term, command, payload⟩ fun _ => 0) := by
  obtain ⟨s, hs⟩ := h.underway
  obtain ⟨hentry, hsnap⟩ := snapshot_proposeLocked (cfg.threshold n) (cfg.peers n) (c.node n) command
    payload
  have happend := RaftNode.log_appendLocalEntry (hs.led.aligned n) (hs.led.whole n) command payload
  rw [hs.led.leads.2, h.length] at happend
  have hown : ((c.node n).appendLocalEntry command payload).2.2 =
      ⟨base + 1, term, command, payload⟩ :=
    List.singleton_inj.mp (List.append_cancel_left happend)
  have honly : ∀ k e, ((c.node n).appendLocalEntry command payload).1.log[k]? = some e →
      e.term = term → k = base := by
    intro k e hget hterm
    rw [happend] at hget
    rcases Nat.lt_or_ge k base with hk | hk
    · rw [List.getElem?_append_left (h.length ▸ hk)] at hget
      exact absurd hterm (h.older e (List.mem_of_getElem? hget)).ne
    · have hlt := (List.getElem?_eq_some_iff.mp hget).1
      rw [List.length_append, List.length_singleton, h.length] at hlt
      omega
  have hblock : cfg.block c (.proposeAppend n i) = some ⟨n,
      ((c.node n).proposeLocked (cfg.threshold n) (cfg.peers n) command payload).1,
      ((c.node n).proposeLocked (cfg.threshold n) (cfg.peers n) command payload).2.1, fun c' =>
        c'.setProposals n ((c'.proposals n).set i (.waiting
          ((c.node n).proposeLocked (cfg.threshold n) (cfg.peers n) command payload).2.2))⟩ := by
    simp only [Config.block, Config.electionBlock, Config.proposeBlock, hcall, Option.none_or,
      Option.some_or]
  obtain ⟨c', hstep, hnode, hproposals⟩ : ∃ c', cfg.step c (.run (.proposeAppend n i)) = some c' ∧
      c'.node = Function.update c.node n
        ((c.node n).proposeLocked (cfg.threshold n) (cfg.peers n) command payload).1 ∧
      c'.proposals = Function.update c.proposals n
        ((c.proposals n).set i (.waiting ⟨base + 1, term, command, payload⟩)) := by
    refine ⟨_, by rw [Config.step, hblock]; rfl, rfl, ?_⟩
    simp only [Cluster.setProposals, Cluster.runBlock, Cluster.perform_proposals, hentry, hown]
  have hself : c'.node n =
      ((c.node n).proposeLocked (cfg.threshold n) (cfg.peers n) command payload).1 := by
    rw [hnode, Function.update_self]
  have hcall' : (c'.proposals n)[i]? = some (.waiting ⟨base + 1, term, command, payload⟩) := by
    rw [hproposals, Function.update_self]
    exact List.getElem?_set_self (List.getElem?_eq_some_iff.mp hcall).1
  have happ : electedAppend c (.run (.proposeAppend n i)) = true :=
    decide_eq_true (hs.led.elections.leader hs.led.leads.1)
  have hquiet := RaftNode.quiet_proposeLocked (cfg.threshold n) (cfg.peers n) (c.node n) command payload
  refine ⟨c', .step ?_ hstep, ?_⟩
  · rw [readsRightly, readsWholeLog_of_zero hs.led.whole, happ]
    rfl
  rcases hsnap with hno | ⟨hpos, own, hget, hterm⟩
  · right
    have hno : noCompaction cfg c (.run (.proposeAppend n i)) = true := by
      simpa [noCompaction, Event.action?, hblock] using hno
    have hlead : LeadsIn n term c' := by
      rw [LeadsIn, hself, hquiet.role, hquiet.term]
      exact hs.led.leads
    obtain ⟨s', command', payload', hcalled, hs', hcounted⟩ := hs.append (enough_peers cfg n)
      (steady_iff.mpr ⟨hs.led.leads, hno, happ, rfl⟩) hstep hlead
    obtain ⟨rfl, rfl⟩ := ProposeCall.checked.inj (Option.some.inj (hcall.symm.trans hcalled))
    rw [h.length] at hs' hcounted
    have hwhole := hs'.led.whole n
    rw [hself] at hwhole
    refine ⟨⟨s', hs'⟩, hcounted, ?_, fun m hm => ?_, hcall'⟩
    · rw [hself, RaftNode.proposeLocked_whole hwhole]
      exact honly
    · by_cases hmn : m = n
      · exact hmn ▸ hlead.2.le
      · rw [hnode, Function.update_of_ne hmn]
        exact h.terms m hm
  · -- a node without peers has committed the entry at once
    left
    have hbase := honly _ own hget (hterm.trans hs.led.leads.2)
    rw [← hself] at hbase hpos
    refine ⟨hcall', ?_⟩
    show base + 1 ≤ _
    omega

/-- `propose` finds its entry committed and returns. -/
theorem Ready.canPoll (cfg : Config N) (h : Ready c n i entry) :
    ∃ c', cfg.CanReach c c' ∧ (n, some entry, ⟨true, entry.index, none⟩) ∈ c'.results := by
  obtain ⟨hcall, hcommit⟩ := h
  have hblock : cfg.block c (.proposePoll n i) = some ⟨n, c.node n, [], fun c' =>
      { c'.setProposals n ((c'.proposals n).eraseIdx i) with
        results := (n, some entry, ⟨true, entry.index, none⟩) :: c'.results }⟩ := by
    simp only [Config.block, Config.electionBlock, Config.proposeBlock, hcall, if_pos hcommit,
      Option.none_or, Option.some_or]
  obtain ⟨c', hstep, hresults⟩ : ∃ c', cfg.step c (.run (.proposePoll n i)) = some c' ∧
      c'.results = (n, some entry, ⟨true, entry.index, none⟩) :: c.results :=
    ⟨_, by rw [Config.step, hblock]; rfl, rfl⟩
  exact ⟨c', .step rfl hstep, hresults ▸ List.mem_cons_self⟩

end NanoFabric.Raft
