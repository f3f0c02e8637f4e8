import NanoFabric.Raft.ElectionSafety
import NanoFabric.Raft.NodeRefinement

/-!
# A cluster refines the abstract protocol

Every run in which the locked append of `propose` finds an elected node, and no block takes
positions of a compacted log for indexes, is a run of `Found.ReplicatedLog`.

* `Sent`, `Ticket` — requests in flight, against the abstract state.
* `Refines`, `Refines.step` — the simulation relation, and that every step is simulated by moves.
* `log_matching` — log matching, in runs without compaction.
* `log_matching_counterexample` — a `propose` whose test of `is_leader()` is overtaken by the next
  election appends an entry to a follower's log, in the term of another leader.
-/

namespace NanoFabric.Raft

open Found Found.ReplicatedLog

variable {N P : Type} [DecidableEq N]

/-! ## The simulation relation -/

/-- An `append_entries` call: its request is one of the leader of its term, and what was accepted
is acknowledged. -/
structure Sent (s : AbstractLog N P) (rpc : AppendRpc N P) : Prop where
  leader : s.leader rpc.request.term = some rpc.sender
  entries : Chained s rpc.request ∨
    0 < rpc.request.prevLogIndex ∧ rpc.request.prevLogTerm = 0
  answered : ∀ r, rpc.response = some r → r.success = true → Chained s rpc.request ∧
    rpc.request.prevLogIndex + rpc.request.entries.length ≤ s.acked rpc.request.term rpc.peer

omit [DecidableEq N] in
theorem Sent.grows {s s' : AbstractLog N P} {rpc : AppendRpc N P} (h : Sent s rpc)
    (hg : Grows s s') : Sent s' rpc :=
  ⟨hg.leader h.leader, h.entries.imp_left fun hc => hc.grows hg, fun r hr hs =>
    ⟨(h.answered r hr hs).1.grows hg, (h.answered r hr hs).2.trans (hg.acked _ _)⟩⟩

/-- **The simulation relation** between a cluster and the abstract protocol. -/
structure Refines (cfg : Config N) (c : Cluster N P) (s : AbstractLog N P) : Prop where
  /-- The abstract invariant holds. -/
  sound : Sound cfg s
  /-- Nodes in memory. -/
  node : ∀ n, HoldsNode s n (c.node n)
  /-- Nodes in storage. -/
  disk : ∀ n, HoldsDisk s n (c.disk n)
  /-- The snapshot a node goes by is the one it has stored. -/
  snap : ∀ n, (c.disk n).lastIncludedIndex = (c.node n).snapshotIndex
  /-- Leaders. -/
  leader : ∀ n t, s.leader t = some n ↔ (n, t) ∈ c.elected
  /-- Votes. -/
  vote : ∀ m t v, s.vote m t v ↔ (m, t, v) ∈ c.votes
  /-- Running elections: a candidate still has the log it stands with. -/
  standing : ∀ {n el}, c.election n = some el → Ticket s n el.term el.lastIdx el.lastTerm ∧
    ((c.node n).role = .candidate → s.log n = s.ticket n el.term)
  /-- Vote requests. -/
  asked : ∀ {rpc}, rpc ∈ c.voteRpcs → Ticket s rpc.candidate rpc.request.term
    rpc.request.lastLogIndex rpc.request.lastLogTerm
  /-- Append requests. -/
  sent : ∀ {rpc}, rpc ∈ c.appendRpcs → Sent s rpc

variable {cfg : Config N} {c c' : Cluster N P} {s s' : AbstractLog N P} {n : N}
  {nd : RaftNode N P} {effs : List (Effect N P)}

theorem Refines.at (h : Refines cfg c s) (n : N) : At cfg s n (c.node n) (c.disk n) :=
  ⟨h.sound, h.node n, h.disk n, h.snap n⟩

theorem Refines.init : Refines cfg (Cluster.init N P) (LogState.init N (LogEntry P)) where
  sound := Sound.init
  node _ := ⟨rfl, nofun, Nat.zero_le _, rfl, rfl⟩
  disk _ := ⟨rfl, nofun, Nat.zero_le _, rfl, rfl⟩
  snap _ := rfl
  leader n t := by simp [LogState.init, Cluster.init]
  vote m t v := by simp [LogState.init, Cluster.init]
  standing h := by simp [Cluster.init] at h
  asked h := by simp [Cluster.init] at h
  sent h := by simp [Cluster.init] at h

/-- The relation reads these fields only, and of the calls in flight not who still waits. -/
theorem Refines.congr (h : Refines cfg c s) (hnode : c'.node = c.node) (hdisk : c'.disk = c.disk)
    (hel : c'.election = c.election) (hvrpcs : c'.voteRpcs = c.voteRpcs)
    (hrpcs : ∀ r ∈ c'.appendRpcs, ∃ r₀ ∈ c.appendRpcs, r.sender = r₀.sender ∧ r.peer = r₀.peer ∧
      r.request = r₀.request ∧ r.response = r₀.response)
    (helected : c'.elected = c.elected) (hvotes : c'.votes = c.votes) : Refines cfg c' s where
  sound := h.sound
  node n := hnode ▸ h.node n
  disk n := hdisk ▸ h.disk n
  snap n := by
    rw [hnode, hdisk]
    exact h.snap n
  leader n t := by
    rw [helected]
    exact h.leader n t
  vote m t v := by
    rw [hvotes]
    exact h.vote m t v
  standing hn := by
    rw [hel] at hn
    rw [hnode]
    exact h.standing hn
  asked hr := h.asked (hvrpcs ▸ hr)
  sent := by
    intro rpc hr
    obtain ⟨r₀, hr₀, hs, hp, hq, ha⟩ := hrpcs rpc hr
    have hsent := h.sent hr₀
    refine ⟨?_, ?_, ?_⟩
    · rw [hq, hs]
      exact hsent.leader
    · rw [hq]
      exact hsent.entries
    · rw [hq, ha, hp]
      exact hsent.answered

/-- A tracked block keeps the relation, once its node's election is accounted for. -/
theorem Refines.trackBlock (h : Refines cfg c s) {o : Option (ElectionCall N)}
    (ht : Tracks cfg n s (c.disk n) effs s')
    (hafter : At cfg s' n nd (effs.foldl RaftStorage.perform (c.disk n)))
    (hel : ∀ el, o = some el → Ticket s' n el.term el.lastIdx el.lastTerm ∧
      (nd.role = .candidate → s'.log n = s'.ticket n el.term)) :
    Refines cfg ((c.runBlock n nd effs).setElection n o) s' := by
  have hg := ht.grows h.sound
  have hself : (c.runBlock n nd effs).node n = nd := Function.update_self ..
  have hother : ∀ {m}, m ≠ n → (c.runBlock n nd effs).node m = c.node m :=
    fun hm => Function.update_of_ne hm ..
  have hdisk : (c.perform n effs).disk n = effs.foldl RaftStorage.perform (c.disk n) :=
    Cluster.perform_disk_self n effs c
  have hkeep : ∀ {m t v L i li lt}, m ≠ n → Holds s m t v L i lt → li = i →
      Holds s' m t v L li lt := by
    intro m t v L i li lt hm hh hi
    subst hi
    have hlog := ht.log hm
    exact ⟨(ht.term hm).trans hh.term, fun v hv => hg.vote (hh.voted v hv),
      hlog ▸ hh.le, hlog ▸ hh.log, hlog ▸ hh.snapTerm⟩
  exact
    { sound := ht.sound
      node := by
        intro m
        show HoldsNode s' m ((c.runBlock n nd effs).node m)
        by_cases hm : m = n
        · subst hm
          rw [hself]
          exact hafter.node
        · rw [hother hm]
          exact hkeep hm (h.node m) rfl
      disk := by
        intro m
        show HoldsDisk s' m ((c.perform n effs).disk m)
        by_cases hm : m = n
        · subst hm
          rw [hdisk]
          exact hafter.disk
        · rw [Cluster.perform_disk_of_ne hm]
          exact hkeep hm (h.disk m) rfl
      snap := by
        intro m
        show ((c.perform n effs).disk m).lastIncludedIndex =
          ((c.runBlock n nd effs).node m).snapshotIndex
        by_cases hm : m = n
        · subst hm
          rw [hself, hdisk]
          exact hafter.snap
        · rw [hother hm, Cluster.perform_disk_of_ne hm]
          exact h.snap m
      leader := by
        intro m t
        show s'.leader t = some m ↔ (m, t) ∈ (c.perform n effs).elected
        rw [ht.leader, Cluster.perform_elected]
        exact h.leader m t
      vote := by
        intro m t v
        show s'.vote m t v ↔ (m, t, v) ∈ (c.perform n effs).votes
        rw [ht.vote, Cluster.mem_perform_votes, h.vote]
      standing := by
        intro m el hm'
        by_cases hm : m = n
        · subst hm
          have ho : o = some el := by
            rw [← hm']
            exact (Function.update_self m o (c.perform m effs).election).symm
          show _ ∧ (((c.runBlock m nd effs).node m).role = .candidate → _)
          rw [hself]
          exact hel el ho
        · have hm'' : c.election m = some el := by
            rw [← hm']
            show c.election m = Function.update (c.perform n effs).election n o m
            rw [Function.update_of_ne hm, Cluster.perform_election]
          obtain ⟨htick, hcand⟩ := h.standing hm''
          refine ⟨htick.grows hg, ?_⟩
          show ((c.runBlock n nd effs).node m).role = .candidate → _
          rw [hother hm, ht.log hm, hg.ticket htick.1]
          exact hcand
      asked := fun hr => (h.asked ((c.perform_voteRpcs n effs) ▸ hr)).grows hg
      sent := fun hr => (h.sent ((c.perform_appendRpcs n effs) ▸ hr)).grows hg }

theorem Refines.runBlock_setElection (h : Refines cfg c s) {o : Option (ElectionCall N)}
    (hf : Follows cfg n s (c.disk n) effs s' nd)
    (hel : ∀ el, o = some el → Ticket s' n el.term el.lastIdx el.lastTerm ∧
      (nd.role = .candidate → s'.log n = s'.ticket n el.term)) :
    Refines cfg ((c.runBlock n nd effs).setElection n o) s' :=
  h.trackBlock hf.tracks hf.after hel

/-- A tracked block that leaves the log of a candidate as it was. -/
theorem Refines.runBlock (h : Refines cfg c s) (hf : Follows cfg n s (c.disk n) effs s' nd)
    (hcand : nd.role = .candidate →
      (c.node n).role = .candidate ∧ s'.log n = s.log n) :
    Refines cfg (c.runBlock n nd effs) s' := by
  have hg := hf.tracks.grows h.sound
  have hset := h.runBlock_setElection (o := c.election n) hf fun el hel => by
    obtain ⟨htick, hlog⟩ := h.standing hel
    refine ⟨htick.grows hg, fun hr => ?_⟩
    obtain ⟨hr', hsame⟩ := hcand hr
    rw [hsame, hg.ticket htick.1]
    exact hlog hr'
  refine hset.congr rfl rfl ?_ rfl (fun r hr => ⟨r, hr, rfl, rfl, rfl, rfl⟩) rfl rfl
  show (c.perform n effs).election = Function.update (c.perform n effs).election n (c.election n)
  rw [Cluster.perform_election, Function.update_eq_self]

/-- A block without effects that changes nothing the relation reads of the node. -/
theorem Refines.runBlock_quiet (h : Refines cfg c s)
    (hat : At cfg s n nd (c.disk n)) (hrole : nd.role = .candidate → (c.node n).role = .candidate) :
    Refines cfg (c.runBlock n nd []) s :=
  h.runBlock (Changes.of_moves (Moves.refl h.sound) hat).follows fun hr => ⟨hrole hr, rfl⟩

/-- A crash keeps the relation, whatever effects of a block were done. -/
theorem Refines.restart (h : Refines cfg c s) (ht : Tracks cfg n s (c.disk n) effs s') :
    Refines cfg ((c.perform n effs).restart n) s' := by
  have hdisk : (c.perform n effs).disk n = effs.foldl RaftStorage.perform (c.disk n) :=
    Cluster.perform_disk_self n effs c
  have hafter : At cfg s' n (RaftNode.boot ((c.perform n effs).disk n))
      (effs.foldl RaftStorage.perform (c.disk n)) := by
    rw [hdisk]
    exact At.boot ht.sound ht.disk
  have hset := h.trackBlock (o := none) ht hafter (by intro el hel; cases hel)
  refine hset.congr ?_ rfl rfl rfl (fun r hr => ?_) rfl rfl
  · show Function.update (c.perform n effs).node n _ = Function.update c.node n _
    rw [Cluster.perform_node]
  · obtain ⟨r₀, hr₀, rfl⟩ := List.mem_map.mp hr
    refine ⟨r₀, hr₀, ?_⟩
    split_ifs <;> exact ⟨rfl, rfl, rfl, rfl⟩

theorem Refines.withVoteRpcs (h : Refines cfg c s) {rpcs : List (VoteRpc N)}
    (hr : ∀ rpc ∈ rpcs, Ticket s rpc.candidate rpc.request.term rpc.request.lastLogIndex
      rpc.request.lastLogTerm) : Refines cfg { c with voteRpcs := rpcs } s :=
  ⟨h.sound, h.node, h.disk, h.snap, h.leader, h.vote, h.standing, fun hm => hr _ hm, h.sent⟩

theorem Refines.withAppendRpcs (h : Refines cfg c s) {rpcs : List (AppendRpc N P)}
    (hr : ∀ rpc ∈ rpcs, Sent s rpc) : Refines cfg { c with appendRpcs := rpcs } s :=
  ⟨h.sound, h.node, h.disk, h.snap, h.leader, h.vote, h.standing, h.asked, fun hm => hr _ hm⟩

/-- Putting a call back with another answer or waiter. -/
theorem Refines.setAppendRpc (h : Refines cfg c s) {i : ℕ} {rpc : AppendRpc N P}
    (hr : Sent s rpc) : Refines cfg { c with appendRpcs := c.appendRpcs.set i rpc } s :=
  h.withAppendRpcs fun _ hm => (List.mem_or_eq_of_mem_set hm).elim h.sent fun heq => heq ▸ hr

/-! ## Becoming leader -/

/-- The abstract side of `_become_leader`: the node leads its term and acknowledges its log. -/
theorem Refines.becomeLeader (h : Refines cfg c s) (hE : Elections cfg c)
    {el : ElectionCall N} (hel : c.election n = some el)
    (hwin : (c.node n).winsElection (cfg.peers n) = true) :
    ∃ s', Refines cfg
        { (c.runBlock n ((c.node n).becomeLeader n (cfg.peers n)) []).setElection n none
          with elected := (n, (c.node n).currentTerm) :: c.elected } s' ∧ cfg.Moved s s' ∧
      s'.log = s.log ∧ s'.term = s.term := by
  obtain ⟨ht, R, hR, hv⟩ := hE.winner hel hwin
  have hst := hE.standing hel
  obtain ⟨htick, hlog⟩ := h.standing hel
  have hterm : s.term n = (c.node n).currentTerm := (h.node n).term
  have hrole : (c.node n).role = .candidate := by
    simp only [RaftNode.winsElection, Bool.and_eq_true, decide_eq_true_eq] at hwin
    exact hwin.1
  -- nobody else has led the term, and the node itself has not
  have hnone : s.leader (s.term n) = none := by
    rw [hterm]
    cases hl : s.leader (c.node n).currentTerm with
    | none => rfl
    | some m =>
        have hm := (h.leader m _).mp hl
        obtain ⟨-, -, R', hR', hv'⟩ := hE.elected hm
        obtain ⟨v, hvR, hvR'⟩ := cfg.quorums.meet hR hR'
        obtain rfl := (hE.votes v).once (hv v hvR) (hv' v hvR')
        exact absurd (ht ▸ hm) hst.fresh
  have hstep : Step LogEntry.term cfg.quorums s (s.elect n) := by
    refine .elect n R hnone ?_ ?_ hR fun m hm => ?_
    · rw [hterm, ← ht]
      exact htick.1
    · rw [hlog hrole, hterm, ht]
    · rw [hterm, h.vote]
      exact hv m hm
  have hinv := hstep.inv h.sound.inv
  have hchain : (s.elect n).chain (s.term n) = s.log n := Function.update_self ..
  have hack : Step LogEntry.term cfg.quorums (s.elect n) ((s.elect n).ack n (s.log n)) :=
    .ack n _ (hchain ▸ List.prefix_rfl) List.prefix_rfl
  have hmoved : cfg.Moved s ((s.elect n).ack n (s.log n)) := .tail (.single hstep) hack
  have hg := Steps.grows hmoved h.sound.inv
  have hother : ∀ t, t ≠ s.term n → (s.elect n).chain t = s.chain t := fun t ht' =>
    Function.update_of_ne ht' ..
  have hleader : ∀ m t, ((s.elect n).ack n (s.log n)).leader t = some m ↔
      (m, t) ∈ (n, (c.node n).currentTerm) :: c.elected := by
    intro m t
    show Function.update s.leader (s.term n) (some n) t = some m ↔ _
    by_cases htt : t = s.term n
    · subst htt
      rw [Function.update_self, List.mem_cons, ← h.leader, hnone, hterm]
      simp [eq_comm]
    · rw [Function.update_of_ne htt, List.mem_cons, ← h.leader, ← hterm]
      simp [htt]
  have hsound : Sound cfg ((s.elect n).ack n (s.log n)) := by
    refine ⟨hack.inv hinv, fun t => ?_, fun {t e} he => ?_, fun {t m} hm => ?_⟩
    · show Aligned ((s.elect n).chain t)
      by_cases htt : t = s.term n
      · subst htt
        rw [hchain]
        exact h.sound.aligned_log n
      · rw [hother t htt]
        exact h.sound.aligned t
    · have he' : e ∈ (s.elect n).chain t := he
      by_cases htt : t = s.term n
      · subst htt
        rw [hchain] at he'
        exact h.sound.pos_log he'
      · rw [hother t htt] at he'
        exact h.sound.pos he'
    · show ((s.elect n).chain t).length ≤ _
      have hm' : Function.update s.leader (s.term n) (some n) t = some m := hm
      by_cases htt : t = s.term n
      · subst htt
        rw [Function.update_self, Option.some.injEq] at hm'
        subst hm'
        rw [hchain]
        simp [LogState.ack, LogState.elect]
      · rw [Function.update_of_ne htt] at hm'
        rw [hother t htt]
        exact (h.sound.self_acked hm').trans (hg.acked t m)
  have hnew : Refines cfg { c.setElection n none with
      elected := (n, (c.node n).currentTerm) :: c.elected } ((s.elect n).ack n (s.log n)) := by
    refine ⟨hsound, fun m => ?_, fun m => ?_, h.snap, hleader, h.vote, fun {m el'} hm => ?_,
      fun hr => (h.asked hr).grows hg, fun hr => (h.sent hr).grows hg⟩
    · exact ⟨(h.node m).term, (h.node m).voted, (h.node m).le, (h.node m).log, (h.node m).snapTerm⟩
    · exact ⟨(h.disk m).term, (h.disk m).voted, (h.disk m).le, (h.disk m).log, (h.disk m).snapTerm⟩
    · obtain ⟨-, hm⟩ := Cluster.election_setElection_none hm
      exact ⟨(h.standing hm).1.grows hg, (h.standing hm).2⟩
  have hat := hnew.at n
  have hlead : At cfg ((s.elect n).ack n (s.log n)) n ((c.node n).becomeLeader n (cfg.peers n))
      (c.disk n) := hat.congr rfl rfl rfl rfl rfl
  have hrun := hnew.runBlock_quiet hlead (by intro hr; cases hr)
  exact ⟨_, hrun.congr rfl rfl rfl rfl (fun r hr => ⟨r, hr, rfl, rfl, rfl, rfl⟩) rfl rfl,
    hmoved, rfl, rfl⟩

/-! ## Every step is simulated -/

/-- What the simulation of a block asks: the node is elected where it appends, and the log is whole
where positions are read. -/
structure Meets (cfg : Config N) (c : Cluster N P) (a : Action N P) (b : Block N P) : Prop where
  elected : ∀ n i, a = .proposeAppend n i → (n, (c.node n).currentTerm) ∈ c.elected
  propose : ∀ n i, a = .proposeAppend n i → cfg.peers n = [] → (c.node n).snapshotIndex = 0
  replicate : ∀ n p, a = .replicate n p → (c.node n).snapshotIndex = 0
  handle : ∀ i rpc, a = .handleAppendEntries i → c.appendRpcs[i]? = some rpc →
    (c.node rpc.peer).currentTerm ≤ rpc.request.term → (c.node rpc.peer).snapshotIndex = 0
  reply : ∀ i rpc resp, a = .replicateReply i → c.appendRpcs[i]? = some rpc →
    rpc.response = some resp → resp.success = true → (c.node rpc.sender).snapshotIndex = 0
  fits : Fits (c.node b.actor) b.effects

/-- The conditions on events, for the action of an event. -/
theorem Meets.of_conditions {a : Action N P} {b : Block N P} {ev : Event N P}
    (ha : ev.action? = some a) (happ : electedAppend c ev = true)
    (hreads : readsWholeLog cfg c ev = true) (hfits : Fits (c.node b.actor) b.effects) :
    Meets cfg c a b := by
  unfold electedAppend at happ
  unfold readsWholeLog at hreads
  rw [ha] at happ hreads
  refine ⟨?_, ?_, ?_, ?_, ?_, hfits⟩
  · rintro n i rfl
    exact of_decide_eq_true happ
  · rintro n i rfl hp
    simpa [hp] using hreads
  · rintro n p rfl
    exact of_decide_eq_true hreads
  · rintro i rpc rfl hrpc hle
    simpa [hrpc, not_lt.mpr hle] using hreads
  · rintro i rpc resp rfl hrpc hresp hs
    simpa [hrpc, hresp, hs] using hreads

theorem Meets.of_snapshotIndex {a : Action N P} {b : Block N P}
    (happ : ∀ n i, a = .proposeAppend n i → (n, (c.node n).currentTerm) ∈ c.elected)
    (hzero : ∀ n, (c.node n).snapshotIndex = 0) (hfits : Fits (c.node b.actor) b.effects) :
    Meets cfg c a b :=
  ⟨happ, fun n _ _ _ => hzero n, fun n _ _ => hzero n, fun _ rpc _ _ _ => hzero rpc.peer,
    fun _ rpc _ _ _ _ _ => hzero rpc.sender, hfits⟩

/-- A leader on record leads its term in the abstract protocol. -/
theorem Refines.leads (h : Refines cfg c s) {m : N} (hm : (m, (c.node m).currentTerm) ∈ c.elected) :
    s.leader (c.node m).currentTerm = some m := (h.leader m _).mpr hm

/-- How a block that runs to its end is simulated: if it has effects, by the moves that track them;
of the blocks of a leader, `propose` appends its entry and the other leaves the log. -/
structure Simulates (cfg : Config N) (c : Cluster N P) (s : AbstractLog N P) (a : Action N P)
    (b : Block N P) (s' : AbstractLog N P) : Prop where
  refines : Refines cfg (b.calls (c.runBlock b.actor b.node b.effects)) s'
  moved : cfg.Moved s s'
  follows : b.effects = [] ∨ Follows cfg b.actor s (c.disk b.actor) b.effects s' b.node
  reply : ∀ i, a = .replicateReply i → s'.log b.actor = s.log b.actor
  append : ∀ n i command payload, a = .proposeAppend n i →
    (c.proposals n)[i]? = some (.checked command payload) → s'.log n = s.log n ++
      [((c.node n).proposeLocked (cfg.threshold n) (cfg.peers n) command payload).2.2]

/-- Every block is simulated. -/
theorem Refines.step_run (h : Refines cfg c s) (hE : Elections cfg c) {a : Action N P}
    {b : Block N P} (hb : cfg.Runs c a b) (hm : Meets cfg c a b) :
    ∃ s', Simulates cfg c s a b s' := by
  have hrefl : cfg.Moved s s := Relation.ReflTransGen.refl
  have hself : ∀ n, Refines cfg (c.runBlock n (c.node n) []) s :=
    fun n => h.runBlock_quiet (h.at n) id
  have hsame : ∀ (c : Cluster N P) (r : AppendRpc N P), r ∈ c.appendRpcs → ∃ r₀ ∈ c.appendRpcs,
      r.sender = r₀.sender ∧ r.peer = r₀.peer ∧ r.request = r₀.request ∧
        r.response = r₀.response := fun _ r hr => ⟨r, hr, rfl, rfl, rfl, rfl⟩
  cases hb with
  | startElection n hn hnone hrole =>
      have hf := (h.at n).changes_startElection.follows
      refine ⟨_, h.runBlock_setElection hf ?_, hf.tracks.moved, Or.inr hf,
        by rintro _ ⟨⟩, by rintro _ _ _ _ ⟨⟩⟩
      rintro el ⟨⟩
      have hinfo := (h.node n).lastLogInfo (h.sound.aligned_log n)
      have hticket : (s.campaign n ((c.node n).currentTerm + 1)).ticket n
          ((c.node n).currentTerm + 1) = s.log n := by
        simp [LogState.campaign]
      refine ⟨⟨Or.inr ⟨rfl, rfl, rfl⟩, ?_, ?_⟩, fun _ => hticket.symm⟩
      · show List.length ((s.campaign n ((c.node n).currentTerm + 1)).ticket n
          ((c.node n).currentTerm + 1)) = (c.node n).lastLogInfo.1
        rw [hticket, hinfo]
      · show lastTerm LogEntry.term ((s.campaign n ((c.node n).currentTerm + 1)).ticket n
          ((c.node n).currentTerm + 1)) = (c.node n).lastLogInfo.2
        rw [hticket, hinfo]
  | @requestVote n term lastIdx lastLogTerm peer pending hel =>
      obtain ⟨htick, hcand⟩ := h.standing hel
      have hadd : Refines cfg { c with voteRpcs := c.voteRpcs ++
          [⟨n, peer, ⟨term, n, lastIdx, lastLogTerm⟩, none⟩] } s :=
        h.withVoteRpcs fun rpc hr => by
          rcases List.mem_append.mp hr with hr | hr
          · exact h.asked hr
          · rw [List.mem_singleton.mp hr]
            exact htick
      refine ⟨s, (hadd.runBlock_setElection (hadd.at n).changes_nil.follows
        (o := some ⟨term, lastIdx, lastLogTerm, pending, some c.voteRpcs.length⟩) ?_).congr rfl rfl rfl rfl (hsame _) rfl rfl, hrefl,
        Or.inl rfl,
        by rintro _ ⟨⟩, by rintro _ _ _ _ ⟨⟩⟩
      rintro el ⟨⟩
      exact ⟨htick, hcand⟩
  | @handleRequestVote i candidate peer request hrpc =>
      have hmem := List.mem_of_getElem? hrpc
      have hid := hE.candidateId hmem
      have hask := h.asked hmem
      simp only at hid hask
      rw [← hid] at hask
      obtain ⟨s', hf, hlog⟩ := (h.at peer).changes_handleRequestVote hask
      have hrun := h.runBlock hf.follows fun hr => by
        rcases RaftNode.handleRequestVote_role (c.node peer) request with hfol | ⟨hr', -, -⟩
        · rw [hfol] at hr
          cases hr
        · exact ⟨hr'.symm.trans hr, hlog⟩
      refine ⟨s', hrun.withVoteRpcs fun rpc hr => ?_, hf.tracks.moved, Or.inr hf.follows,
        by rintro _ ⟨⟩, by rintro _ _ _ _ ⟨⟩⟩
      rcases List.mem_or_eq_of_mem_set hr with hr | rfl
      · exact hrun.asked hr
      · rw [hid] at hask
        exact hask.grows (hf.tracks.grows h.sound)
  | @voteReply n term lastIdx lastLogTerm i pending rpc resp hel hrpc hresp =>
      obtain ⟨htick, hcand⟩ := h.standing hel
      rcases RaftNode.handleVoteResponse_cases (c.node n) resp with ⟨-, heq⟩ | ⟨-, heq⟩ | heq
      · rw [heq]
        have hf := ((h.at n).changes_becomeFollower resp.term none).follows
        exact ⟨_, h.runBlock_setElection hf (by intro el hsome; cases hsome), hf.tracks.moved,
          Or.inr hf,
        by rintro _ ⟨⟩, by rintro _ _ _ _ ⟨⟩⟩
      · rw [heq]
        refine ⟨s, h.runBlock_setElection (Changes.follows
          (At.changes_nil ((h.at n).congr rfl rfl rfl rfl rfl))) ?_, hrefl, Or.inl rfl,
        by rintro _ ⟨⟩, by rintro _ _ _ _ ⟨⟩⟩
        rintro el ⟨⟩
        exact ⟨htick, hcand⟩
      · rw [heq]
        refine ⟨s, h.runBlock_setElection (h.at n).changes_nil.follows ?_, hrefl, Or.inl rfl,
        by rintro _ ⟨⟩, by rintro _ _ _ _ ⟨⟩⟩
        rintro el ⟨⟩
        exact ⟨htick, hcand⟩
  | @voteLost n term lastIdx lastLogTerm i pending hel =>
      obtain ⟨htick, hcand⟩ := h.standing hel
      refine ⟨s, h.runBlock_setElection (h.at n).changes_nil.follows ?_, hrefl, Or.inl rfl,
        by rintro _ ⟨⟩, by rintro _ _ _ _ ⟨⟩⟩
      rintro el ⟨⟩
      exact ⟨htick, hcand⟩
  | winElection n hel hwin =>
      obtain ⟨s', hr, hmoved, -⟩ := h.becomeLeader hE hel hwin
      exact ⟨s', hr, hmoved, Or.inl rfl,
        by rintro _ ⟨⟩, by rintro _ _ _ _ ⟨⟩⟩
  | loseElection n hel =>
      exact ⟨s, h.runBlock_setElection (h.at n).changes_nil.follows
        (by intro el hsome; cases hsome), hrefl, Or.inl rfl,
        by rintro _ ⟨⟩, by rintro _ _ _ _ ⟨⟩⟩
  | stepDown n hn =>
      have hat := h.at n
      exact ⟨s, h.runBlock_quiet ⟨hat.sound, hat.node, hat.disk, hat.snap⟩ (by intro hr; cases hr),
        hrefl, Or.inl rfl,
        by rintro _ ⟨⟩, by rintro _ _ _ _ ⟨⟩⟩
  | @proposeAppend n i command payload hcall =>
      have hel := hm.elected n i rfl
      obtain ⟨s', hf, hlog, -⟩ := (h.at n).follows_proposeLocked (h.leads hel)
        (hE.elected hel).1 (hm.propose n i rfl) hm.fits
      have hq := RaftNode.quiet_proposeLocked (cfg.threshold n) (cfg.peers n) (c.node n) command
        payload
      -- a candidate has not been elected in its term
      have hset := h.runBlock_setElection (o := c.election n) hf fun el hsome => by
        obtain ⟨htick, -⟩ := h.standing hsome
        refine ⟨htick.grows (hf.tracks.grows h.sound), fun hr => ?_⟩
        obtain ⟨-, -, hfresh, S, -, hc⟩ := hE.standing hsome
        exact absurd ((hc (hq.role.symm.trans hr)).1 ▸ hel) hfresh
      refine ⟨s', hset.congr rfl rfl ?_ rfl (hsame _) rfl rfl, hf.tracks.moved, Or.inr hf,
        by rintro _ ⟨⟩, ?_⟩
      · show (c.perform n _).election = Function.update (c.perform n _).election n (c.election n)
        rw [Cluster.perform_election, Function.update_eq_self]
      · rintro _ _ command' payload' ⟨⟩ hcall'
        obtain ⟨rfl, rfl⟩ := ProposeCall.checked.inj (Option.some.inj (hcall.symm.trans hcall'))
        exact hlog
  | @replicate n peer hn hpeer hrole =>
      have hat := h.at n
      have hl := h.leads (hE.leader hrole)
      refine ⟨s, (hself n).withAppendRpcs fun rpc hr => ?_, hrefl, Or.inl rfl,
        by rintro _ ⟨⟩, by rintro _ _ _ _ ⟨⟩⟩
      rcases List.mem_append.mp hr with hr | hr
      · exact (hself n).sent hr
      · rw [List.mem_singleton.mp hr]
        refine ⟨hl, ?_, by intro r hr'; cases hr'⟩
        exact (hat.chained_buildAppendEntries hl (hm.replicate n peer rfl) peer).imp_left And.left
  | @handleAppendEntries i sender peer request waiting hrpc =>
      have hsent := h.sent (List.mem_of_getElem? hrpc)
      obtain ⟨s', hf, hcase, hsucc⟩ := (h.at peer).follows_handleAppendEntries
        (by rw [hsent.leader]; exact Option.some_ne_none sender) hsent.entries
        (hm.handle i _ rfl hrpc)
      have hg := hf.tracks.grows h.sound
      have hrun := h.runBlock hf fun hr => by
        rcases hcase with ⟨rfl, heq⟩ | ⟨hfol, -⟩
        · rw [heq] at hr
          exact ⟨hr, rfl⟩
        · rw [hfol] at hr
          cases hr
      refine ⟨s', hrun.setAppendRpc ?_, hf.tracks.moved, Or.inr hf,
        by rintro _ ⟨⟩, by rintro _ _ _ _ ⟨⟩⟩
      have hsent' := hsent.grows hg
      refine ⟨hsent'.leader, hsent'.entries, ?_⟩
      rintro r ⟨⟩ hs
      exact ⟨(hsucc hs).1.grows hg, (hsucc hs).2⟩
  | @replicateReply i sender peer request resp hrpc =>
      obtain ⟨s', hf, hlog⟩ := (h.at sender).follows_handleAppendResponse
        (hm.reply i _ resp rfl hrpc rfl) hm.fits
      have hrun := h.runBlock hf fun hr => by
        rcases RaftNode.handleAppendResponse_role (cfg.threshold sender) (cfg.peers sender) peer
          request (c.node sender) resp with hfol | ⟨hr', -, -⟩
        · rw [hfol] at hr
          cases hr
        · exact ⟨hr'.symm.trans hr, hlog⟩
      have hsent := (h.sent (List.mem_of_getElem? hrpc)).grows (hf.tracks.grows h.sound)
      exact ⟨s', hrun.setAppendRpc ⟨hsent.leader, hsent.entries, hsent.answered⟩,
        hf.tracks.moved, Or.inr hf, fun _ _ => hlog,
        by rintro _ _ _ _ ⟨⟩⟩
  | @replicateLost i sender peer request resp hrpc =>
      have hsent := h.sent (List.mem_of_getElem? hrpc)
      exact ⟨s, (hself sender).setAppendRpc ⟨hsent.leader, hsent.entries, hsent.answered⟩, hrefl,
        Or.inl rfl,
        by rintro _ ⟨⟩, by rintro _ _ _ _ ⟨⟩⟩
  | _ => exact ⟨s, (hself _).congr rfl rfl rfl rfl (hsame _) rfl rfl, hrefl, Or.inl rfl,
        by rintro _ ⟨⟩, by rintro _ _ _ _ ⟨⟩⟩

/-- A crash within the block is simulated: in the state the whole block reaches, or before the
block's first output. -/
theorem Refines.step_crash (h : Refines cfg c s) {a : Action N P} {b : Block N P}
    (hsim : Simulates cfg c s a b s') (k : ℕ) :
    ∃ s'', Refines cfg ((c.perform b.actor (b.effects.take k)).restart b.actor) s'' ∧
      cfg.Moved s s'' ∧ (s'' = s' ∨ ∀ e ∈ b.effects.take k, e.isOutput = false) := by
  rcases hsim.follows with heffs | hf
  · rw [heffs, List.take_nil]
    have ht : Tracks cfg b.actor s (c.disk b.actor) [] s :=
      .nil (Moves.refl h.sound) (h.disk b.actor)
    exact ⟨s, h.restart ht, .refl, Or.inr nofun⟩
  · obtain ⟨s'', ht, hout⟩ := hf.take h.sound (h.disk b.actor) k
    exact ⟨s'', h.restart ht, ht.moved, hout⟩

/-! ## Log matching -/

/-- Wherever two logs have an entry of one index and term, they are the same up to that index. -/
def LogsMatch (c : Cluster N P) : Prop :=
  ∀ n m, ∀ a ∈ (c.node n).log, ∀ b ∈ (c.node m).log, a.index = b.index → a.term = b.term →
    (c.node n).log.filter (fun e => decide (e.index ≤ a.index)) =
      (c.node m).log.filter (fun e => decide (e.index ≤ a.index))

/-- A state of a run without compaction that the abstract protocol simulates. -/
structure Uncompacted (cfg : Config N) (c : Cluster N P) : Prop where
  elections : Elections cfg c
  whole : ∀ n, (c.disk n).lastIncludedIndex = 0
  refines : ∃ s, Refines cfg c s

theorem Uncompacted.init : Uncompacted cfg (Cluster.init N P) :=
  ⟨Elections.init, fun _ => rfl, _, Refines.init⟩

omit [DecidableEq N] in
/-- Effects other than `save_snapshot` leave the stored snapshot. -/
theorem snapshot_foldl : ∀ {effs : List (Effect N P)} {d : RaftStorage N P},
    (∀ e ∈ effs, e.isSnapshot = false) →
      (effs.foldl RaftStorage.perform d).lastIncludedIndex = d.lastIncludedIndex ∧
      (effs.foldl RaftStorage.perform d).data = d.data
  | [], _, _ => ⟨rfl, rfl⟩
  | e :: effs, d, h => by
      obtain ⟨hidx, hdata⟩ :=
        snapshot_foldl (d := d.perform e) fun e he => h e (List.mem_cons_of_mem _ he)
      rw [List.foldl_cons, hidx, hdata]
      have he := h e List.mem_cons_self
      cases e with
      | saveSnapshot => cases he
      | _ => exact ⟨rfl, rfl⟩

/-- The blocks of a run without compaction store no snapshot. -/
theorem noCompaction_effects {ev : Event N P} {a : Action N P} {b : Block N P}
    (h : noCompaction cfg c ev = true) (ha : ev.action? = some a) (hb : cfg.block c a = some b) :
    ∀ e ∈ b.effects, e.isSnapshot = false := by
  intro e he
  simp only [noCompaction, ha, Option.bind_some, hb, Option.all_some, List.all_eq_true] at h
  simpa using h e he

omit [DecidableEq N] in
theorem fits_of_no_snapshot (h : ∀ e ∈ effs, e.isSnapshot = false) : Fits nd effs :=
  Or.inl fun k t data hm => by cases h _ hm

theorem perform_lastIncludedIndex (h : ∀ e ∈ effs, e.isSnapshot = false) (m : N) :
    ((c.perform n effs).disk m).lastIncludedIndex = (c.disk m).lastIncludedIndex := by
  by_cases hm : m = n
  · subst hm
    rw [Cluster.perform_disk_self, (snapshot_foldl h).1]
  · rw [Cluster.perform_disk_of_ne hm]

/-- A step without compaction is simulated by moves. -/
theorem Refines.step_whole (h : Refines cfg c s) (hE : Elections cfg c)
    (hwhole : ∀ n, (c.disk n).lastIncludedIndex = 0) {ev : Event N P}
    (hno : noCompaction cfg c ev = true) (happ : electedAppend c ev = true)
    (hs : cfg.step c ev = some c') :
    ∃ s', Refines cfg c' s' ∧ cfg.Moved s s' ∧ ∀ n, (c'.disk n).lastIncludedIndex = 0 := by
  have hzero : ∀ n, (c.node n).snapshotIndex = 0 := fun n => (h.snap n).symm.trans (hwhole n)
  obtain ⟨a, b, hb, ⟨rfl, rfl⟩ | ⟨k, hev, rfl⟩⟩ := Config.step_cases hs
  · have heffs := noCompaction_effects hno rfl hb
    have hruns := Config.runs_of_block hb
    obtain ⟨s', hsim⟩ := h.step_run hE hruns (.of_snapshotIndex (by
      rintro n i rfl
      exact of_decide_eq_true happ) hzero (fits_of_no_snapshot heffs))
    refine ⟨s', hsim.refines, hsim.moved, fun n => ?_⟩
    rw [(hruns.calls_frame _).2.1]
    exact (perform_lastIncludedIndex heffs n).trans (hwhole n)
  · have hruns := Config.runs_of_block hb
    obtain ⟨heffs, hel⟩ : (∀ e ∈ b.effects, e.isSnapshot = false) ∧
        ∀ n i, a = .proposeAppend n i → (n, (c.node n).currentTerm) ∈ c.elected := by
      rcases hev with rfl | ⟨rfl, rfl, heffs⟩
      · refine ⟨noCompaction_effects hno rfl hb, ?_⟩
        rintro n i rfl
        exact of_decide_eq_true happ
      · rw [heffs]
        exact ⟨by simp, nofun⟩
    obtain ⟨s₁, hsim⟩ := h.step_run hE hruns
      (.of_snapshotIndex hel hzero (fits_of_no_snapshot heffs))
    obtain ⟨s', href', hmoved, -⟩ := h.step_crash hsim k
    refine ⟨s', href', hmoved, fun n => ?_⟩
    exact (perform_lastIncludedIndex (fun e he => heffs e (List.mem_of_mem_take he)) n).trans
      (hwhole n)

theorem Uncompacted.step (h : Uncompacted cfg c) {ev : Event N P}
    (hno : noCompaction cfg c ev = true) (happ : electedAppend c ev = true)
    (hs : cfg.step c ev = some c') : Uncompacted cfg c' := by
  obtain ⟨s, href⟩ := h.refines
  obtain ⟨s', href', -, hwhole'⟩ := href.step_whole h.elections h.whole hno happ hs
  exact ⟨h.elections.step hs, hwhole', s', href'⟩

theorem Uncompacted.log_eq {s : AbstractLog N P} (h : Uncompacted cfg c) (href : Refines cfg c s)
    (n : N) : (c.node n).log = s.log n :=
  (href.node n).log_eq ((href.snap n).symm.trans (h.whole n))

theorem Uncompacted.logsMatch (h : Uncompacted cfg c) : LogsMatch c := by
  obtain ⟨s, href⟩ := h.refines
  intro n m a ha b hb hidx hterm
  rw [h.log_eq href n] at ha ⊢
  rw [h.log_eq href m] at hb ⊢
  have haln := href.sound.aligned_log n
  have halm := href.sound.aligned_log m
  obtain ⟨hpos, hga⟩ := haln.mem_iff.mp ha
  obtain ⟨-, hgb⟩ := halm.mem_iff.mp hb
  -- both logs agree with the chain of the term of `b`
  have hchain := href.sound.mem_chain_of_mem_log hgb
  rw [← hidx] at hchain hgb
  have htake := (href.sound.take_eq_of_term_eq hga hchain hterm).trans
    (href.sound.take_eq_of_term_eq hgb hchain rfl).symm
  rw [Nat.sub_add_cancel hpos] at htake
  have hcut := (haln.filter_index_lt a.index).trans (htake.trans (halm.filter_index_lt a.index).symm)
  simpa only [Nat.lt_succ_iff] using hcut

/-- **Log matching**, in every run without compaction in which the locked append of each `propose`
finds its node in a term the node was elected in. -/
theorem log_matching (cfg : Config N) (evs : List (Event N P)) (c : Cluster N P)
    (hrun : cfg.runWhile (fun c ev => noCompaction cfg c ev && electedAppend c ev)
      (Cluster.init N P) evs = some c) : LogsMatch c := by
  have hinv : Uncompacted cfg c := by
    refine Config.runWhile_induction (fun c ev c' h hC hs => ?_) Uncompacted.init hrun
    rw [Bool.and_eq_true] at hC
    exact h.step hC.1 hC.2 hs
  exact hinv.logsMatch

/-- A cluster of two with the default snapshot threshold. -/
def twoNodes : Config (Fin 2) := ⟨[0, 1], by decide, fun _ => 50, by decide⟩

/-- Node `0` is elected, appends and replicates its entry. -/
def replicatedProposal : List (Event (Fin 2) ℕ) :=
  electionEvents 0 0 [true] ++
    [.run (.proposeCheck 0 .addAlert 10), .run (.proposeAppend 0 0)] ++ replicateEvents 0 1 0

theorem log_matching_replicatedProposal :
    ∃ c, twoNodes.runWhile (fun c ev => noCompaction twoNodes c ev && electedAppend c ev)
        (Cluster.init (Fin 2) ℕ) replicatedProposal = some c ∧
      (c.node 0).log = [⟨1, 1, .addAlert, 10⟩] ∧ LogsMatch c := by
  have hrun : (twoNodes.runWhile
      (fun c ev => noCompaction twoNodes c ev && electedAppend c ev)
      (Cluster.init (Fin 2) ℕ) replicatedProposal).map (fun c => (c.node 0).log) =
        some [⟨1, 1, .addAlert, 10⟩] := by
    decide +kernel
  obtain ⟨c, hc, hlog⟩ := Option.map_eq_some_iff.mp hrun
  exact ⟨c, hc, hlog, log_matching twoNodes replicatedProposal c hc⟩

/-- Node `0` leads term `1` and `propose` finds it leader; node `1` is elected in term `2` with its
vote; then `propose` appends on node `0`, and another `propose` on node `1`. -/
def overtakenProposal : List (Event (Fin 2) ℕ) :=
  electionEvents 0 0 [true] ++ [.run (.replicate 0 1), .run (.replicateLost 0)] ++
    [.run (.proposeCheck 0 .addAlert 10)] ++
    electionEvents 1 1 [true] ++ [.run (.replicate 1 0), .run (.replicateLost 1)] ++
    [.run (.proposeAppend 0 0), .run (.proposeCheck 1 .addAlert 20), .run (.proposeAppend 1 0)]

/-- Log matching fails when the test of `is_leader()` is overtaken by an election. -/
theorem log_matching_counterexample :
    ¬∀ (cfg : Config (Fin 2)) (evs : List (Event (Fin 2) ℕ)) (c : Cluster (Fin 2) ℕ),
      cfg.runWhile (noCompaction cfg) (Cluster.init (Fin 2) ℕ) evs = some c → LogsMatch c := by
  intro h
  have hrun : (twoNodes.runWhile (noCompaction twoNodes) (Cluster.init (Fin 2) ℕ)
      overtakenProposal).map (fun c => ((c.node 0).log, (c.node 1).log)) =
        some ([⟨1, 2, .addAlert, 10⟩], [⟨1, 2, .addAlert, 20⟩]) := by
    decide +kernel
  obtain ⟨c, hc, hlogs⟩ := Option.map_eq_some_iff.mp hrun
  obtain ⟨hlog0, hlog1⟩ := Prod.mk.inj hlogs
  have hmatch := h twoNodes overtakenProposal c hc 0 1 ⟨1, 2, .addAlert, 10⟩ (by simp [hlog0])
    ⟨1, 2, .addAlert, 20⟩ (by simp [hlog1]) rfl rfl
  rw [hlog0, hlog1] at hmatch
  exact absurd hmatch (by decide)

end NanoFabric.Raft
