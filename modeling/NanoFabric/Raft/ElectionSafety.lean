import NanoFabric.Found.Quorum
import NanoFabric.Raft.NodeSpec
import NanoFabric.Raft.Runs

/-!
# Election safety

At most one node ever becomes the leader of a term, in every run of every cluster: whatever is
delayed, lost or compacted, whoever steps down or crashes.

* `VotesOf` — a node's votes on record agree with the term and vote it has stored.
* `Counting` — what a running `_start_election` has counted are votes on record, each once.
* `Elections`, `Elections.step` — the invariant, and that every event keeps it.
* `election_safety` — the theorem.

The role is what carries the argument: a node that is still a candidate has not changed its term
since it stood, so what it counts are votes for the term it is in.
-/

namespace NanoFabric.Raft

open Found

variable {N P : Type} [DecidableEq N]

/-! ## Votes on record -/

/-- The votes of `n` on record are of terms up to the stored one, the stored vote among them, and
one a term. -/
structure VotesOf (votes : List (N × ℕ × N)) (n : N) (s : ℕ × Option N) : Prop where
  le : ∀ {t v}, (n, t, v) ∈ votes → t < s.1 ∨ t = s.1 ∧ s.2 = some v
  once : ∀ {t v v'}, (n, t, v) ∈ votes → (n, t, v') ∈ votes → v = v'

omit [DecidableEq N] in
theorem VotesOf.forward {votes : List (N × ℕ × N)} {n : N} {s s' : ℕ × Option N}
    (h : VotesOf votes n s) (hs : Forward s s') {t : ℕ} {v : N} (hv : (n, t, v) ∈ votes) :
    t < s'.1 ∨ t = s'.1 ∧ s'.2 = some v := by
  rcases hs with hlt | ⟨heq, hsame⟩
  · rcases h.le hv with ht | ⟨rfl, -⟩
    · exact Or.inl (ht.trans hlt)
    · exact Or.inl hlt
  · rcases h.le hv with ht | ⟨rfl, hsv⟩
    · exact Or.inl (heq ▸ ht)
    · refine Or.inr ⟨heq, ?_⟩
      rcases hsame with hnone | hsame
      · rw [hnone] at hsv
        cases hsv
      · exact hsame.trans hsv

/-- A forward effect keeps one vote a term. -/
theorem VotesOf.performOne {c : Cluster N P} {n : N} {s : ℕ × Option N} (h : VotesOf c.votes n s)
    {e : Effect N P} (he : Forward s (e.stored s)) :
    VotesOf (c.performOne n e).votes n (e.stored s) := by
  have hold : ∀ {t v}, (n, t, v) ∈ c.votes → t < (e.stored s).1 ∨
      t = (e.stored s).1 ∧ (e.stored s).2 = some v := fun hv => h.forward he hv
  cases e with
  | setState t₀ v₀ =>
      cases v₀ with
      | none => exact ⟨hold, h.once⟩
      | some v₀ =>
          -- an earlier vote in the stored term is the vote stored now
          have hsame : ∀ {v}, (n, t₀, v) ∈ c.votes → v = v₀ := by
            intro v hv
            rcases hold hv with hlt | ⟨-, hsv⟩
            · exact absurd hlt (lt_irrefl t₀)
            · exact (Option.some.inj hsv).symm
          have hmem : ∀ {t v}, (n, t, v) ∈ (n, t₀, v₀) :: c.votes →
              t = t₀ ∧ v = v₀ ∨ (n, t, v) ∈ c.votes := by
            intro t v hv
            simpa using hv
          refine ⟨fun hv => ?_, fun hv hv' => ?_⟩
          · rcases hmem hv with ⟨rfl, rfl⟩ | hv
            · exact Or.inr ⟨rfl, rfl⟩
            · exact hold hv
          · rcases hmem hv with ⟨rfl, rfl⟩ | hvo
            · rcases hmem hv' with ⟨-, rfl⟩ | hvo'
              · rfl
              · exact (hsame hvo').symm
            · rcases hmem hv' with ⟨rfl, rfl⟩ | hvo'
              · exact hsame hvo
              · exact h.once hvo hvo'
  | _ => exact ⟨hold, h.once⟩

theorem VotesOf.perform {n : N} : ∀ {effs : List (Effect N P)} {c : Cluster N P}
    {s s' : ℕ × Option N}, VotesOf c.votes n s → Forwards s effs s' →
      VotesOf (c.perform n effs).votes n s'
  | [], _, _, _, h, hf => by
      obtain rfl := hf
      exact h
  | e :: effs, c, _, _, h, hf =>
      (h.performOne hf.1).perform hf.2

omit [DecidableEq N] in
theorem Forwards.le : ∀ {effs : List (Effect N P)} {s s' : ℕ × Option N}, Forwards s effs s' →
    s.1 ≤ s'.1
  | [], _, _, h => by
      obtain rfl := h
      exact le_rfl
  | _ :: _, _, _, h => le_trans (h.1.elim le_of_lt fun heq => heq.1.le) h.2.le

omit [DecidableEq N] in
/-- The stored term and vote after effects are those the effects move to. -/
theorem Forwards.foldl : ∀ {effs : List (Effect N P)} {d : RaftStorage N P} {s' : ℕ × Option N},
    Forwards (d.currentTerm, d.votedFor) effs s' →
      ((effs.foldl RaftStorage.perform d).currentTerm,
        (effs.foldl RaftStorage.perform d).votedFor) = s'
  | [], _, _, h => h
  | e :: effs, d, s', h => by
      have he : e.stored (d.currentTerm, d.votedFor) =
          ((d.perform e).currentTerm, (d.perform e).votedFor) := by
        cases e <;> rfl
      rw [List.foldl_cons]
      exact Forwards.foldl (he ▸ h.2)

theorem votes_subset_perform (c : Cluster N P) (n : N) (effs : List (Effect N P)) :
    c.votes ⊆ (c.perform n effs).votes :=
  fun _ hv => Cluster.mem_perform_votes.mpr (Or.inl hv)

theorem votesOf_perform_of_ne {c : Cluster N P} {n m : N} {s : ℕ × Option N} (hm : m ≠ n)
    (h : VotesOf c.votes m s) (effs : List (Effect N P)) :
    VotesOf (c.perform n effs).votes m s := by
  have hiff : ∀ {t v}, (m, t, v) ∈ (c.perform n effs).votes → (m, t, v) ∈ c.votes := fun hv =>
    (Cluster.mem_perform_votes.mp hv).resolve_right fun h => hm h.1
  exact ⟨fun hv => h.le (hiff hv), fun hv hv' => h.once (hiff hv) (hiff hv')⟩

/-! ## The invariant -/

variable (cfg : Config N)

/-- `S` are the nodes whose votes a running election of `n` may have counted; those it has not
asked yet, or waits for, are not among them. -/
structure Counting (c : Cluster N P) (n : N) (el : ElectionCall N) (S : Finset N) : Prop where
  member : n ∈ cfg.members
  voters : ∀ m ∈ S, m ∈ cfg.members ∧ (m, el.term, n) ∈ c.votes
  nodup : el.pending.Nodup
  pending : ∀ p ∈ el.pending, p ∈ cfg.members ∧ p ∉ S
  awaiting : ∀ i, el.awaiting = some i → ∃ rpc, c.voteRpcs[i]? = some rpc ∧ rpc.candidate = n ∧
    rpc.request.term = el.term ∧ rpc.peer ∈ cfg.members ∧ rpc.peer ∉ S ∧ rpc.peer ∉ el.pending

/-- A running election of `n` stands in a term `n` has reached and has not led, and counts votes
of that term; while `n` is a candidate the term is its own. -/
structure Standing (c : Cluster N P) (n : N) (el : ElectionCall N) : Prop where
  pos : 0 < el.term
  le : el.term ≤ (c.node n).currentTerm
  fresh : (n, el.term) ∉ c.elected
  counting : ∃ S, Counting cfg c n el S ∧ ((c.node n).role = .candidate →
    el.term = (c.node n).currentTerm ∧ (c.node n).votesReceived ≤ S.card)

/-- **The invariant of elections.** -/
structure Elections (c : Cluster N P) : Prop where
  /-- Term and vote are stored before a lock is released. -/
  stored : ∀ n, ((c.disk n).currentTerm, (c.disk n).votedFor) = (c.node n).stored
  /-- Votes on record agree with what is stored. -/
  votes : ∀ n, VotesOf c.votes n (c.node n).stored
  /-- Candidates ask for themselves. -/
  candidateId : ∀ {rpc}, rpc ∈ c.voteRpcs → rpc.request.candidateId = rpc.candidate
  /-- A granted vote is on record. -/
  granted : ∀ {rpc resp}, rpc ∈ c.voteRpcs → rpc.response = some resp →
    resp.voteGranted = true → (rpc.peer, rpc.request.term, rpc.candidate) ∈ c.votes
  /-- Running elections. -/
  standing : ∀ {n el}, c.election n = some el → Standing cfg c n el
  /-- Whoever became leader of a term had the votes of a majority in it. -/
  elected : ∀ {n t}, (n, t) ∈ c.elected → 0 < t ∧ t ≤ (c.node n).currentTerm ∧
    ∃ R, (QuorumSystem.majority cfg.members).IsQuorum R ∧ ∀ m ∈ R, (m, t, n) ∈ c.votes
  /-- A leader became leader of the term it is in. -/
  leader : ∀ {n}, (c.node n).role = .leader → (n, (c.node n).currentTerm) ∈ c.elected
  /-- Only members are elected. -/
  member : ∀ {n t}, (n, t) ∈ c.elected → n ∈ cfg.members

variable {cfg}

omit [DecidableEq N] in
theorem Counting.mono {c c' : Cluster N P} {n : N} {el : ElectionCall N} {S : Finset N}
    (h : Counting cfg c n el S) (hvotes : c.votes ⊆ c'.votes)
    (hrpcs : ∀ {i : ℕ} {rpc}, c.voteRpcs[i]? = some rpc → ∃ rpc', c'.voteRpcs[i]? = some rpc' ∧
      rpc'.candidate = rpc.candidate ∧ rpc'.peer = rpc.peer ∧ rpc'.request = rpc.request) :
    Counting cfg c' n el S where
  member := h.member
  voters m hm := ⟨(h.voters m hm).1, hvotes (h.voters m hm).2⟩
  nodup := h.nodup
  pending := h.pending
  awaiting := by
    intro i hi
    obtain ⟨rpc, hrpc, hc, ht, hp, hS, hpend⟩ := h.awaiting i hi
    obtain ⟨rpc', hrpc', hc', hp', hr'⟩ := hrpcs hrpc
    exact ⟨rpc', hrpc', hc'.trans hc, hr' ▸ ht, hp' ▸ hp, hp' ▸ hS, hp' ▸ hpend⟩

/-- The invariant reads these fields only. -/
theorem Elections.congr {c c' : Cluster N P} (h : Elections cfg c) (hnode : c'.node = c.node)
    (hdisk : c'.disk = c.disk) (hel : c'.election = c.election)
    (hrpcs : c'.voteRpcs = c.voteRpcs) (helected : c'.elected = c.elected)
    (hvotes : c'.votes = c.votes) : Elections cfg c' := by
  obtain ⟨node, disk, election, voteRpcs, _, _, elected, votes, _, _⟩ := c'
  simp only at hnode hdisk hel hrpcs helected hvotes
  subst hnode hdisk hel hrpcs helected hvotes
  exact ⟨h.stored, h.votes, h.candidateId, h.granted,
    fun hn => ⟨(h.standing hn).pos, (h.standing hn).le, (h.standing hn).fresh,
      (h.standing hn).counting.imp fun _ hS =>
        ⟨hS.1.mono (fun _ hv => hv) fun hr => ⟨_, hr, rfl, rfl, rfl⟩, hS.2⟩⟩,
    h.elected, h.leader, h.member⟩

theorem Elections.init : Elections cfg (Cluster.init N P) where
  stored _ := rfl
  votes _ := ⟨fun h => by simp [Cluster.init] at h, fun h => by simp [Cluster.init] at h⟩
  candidateId h := by simp [Cluster.init] at h
  granted h := by simp [Cluster.init] at h
  standing h := by simp [Cluster.init] at h
  elected h := by simp [Cluster.init] at h
  leader h := by cases h
  member h := by simp [Cluster.init] at h

/-! ## What keeps it -/

/-- A block that stores terms and votes forward keeps the invariant, once its node's election is
accounted for. -/
theorem Elections.runBlock_setElection {c : Cluster N P} (h : Elections cfg c) {n : N}
    {nd : RaftNode N P} {effs : List (Effect N P)} {o : Option (ElectionCall N)}
    (hf : Forwards (c.node n).stored effs nd.stored)
    (hlead : nd.role = .leader → (n, nd.currentTerm) ∈ c.elected)
    (hel : ∀ el, o = some el → Standing cfg (c.runBlock n nd effs) n el) :
    Elections cfg ((c.runBlock n nd effs).setElection n o) := by
  have hle : (c.node n).currentTerm ≤ nd.currentTerm := hf.le
  have hsub : c.votes ⊆ (c.perform n effs).votes := votes_subset_perform c n effs
  have hself : (c.runBlock n nd effs).node n = nd := Function.update_self ..
  have hother : ∀ {m}, m ≠ n → (c.runBlock n nd effs).node m = c.node m :=
    fun hm => Function.update_of_ne hm ..
  exact
    { stored := by
        intro m
        show (((c.perform n effs).disk m).currentTerm, ((c.perform n effs).disk m).votedFor) =
          ((c.runBlock n nd effs).node m).stored
        by_cases hm : m = n
        · subst hm
          rw [hself, Cluster.perform_disk_self]
          exact Forwards.foldl (h.stored m ▸ hf)
        · rw [hother hm, Cluster.perform_disk_of_ne hm]
          exact h.stored m
      votes := by
        intro m
        show VotesOf (c.perform n effs).votes m ((c.runBlock n nd effs).node m).stored
        by_cases hm : m = n
        · subst hm
          rw [hself]
          exact (h.votes m).perform hf
        · rw [hother hm]
          exact votesOf_perform_of_ne hm (h.votes m) effs
      candidateId := fun hrpc => h.candidateId ((c.perform_voteRpcs n effs) ▸ hrpc)
      granted := fun hrpc hr hg => hsub (h.granted ((c.perform_voteRpcs n effs) ▸ hrpc) hr hg)
      standing := by
        intro m el hm'
        have hmv : ∀ {S}, Counting cfg c m el S →
            Counting cfg ((c.runBlock n nd effs).setElection n o) m el S := fun hS =>
          hS.mono hsub fun {i rpc} hr =>
            ⟨rpc, by rw [← hr]; exact congrArg (·[i]?) (c.perform_voteRpcs n effs), rfl, rfl, rfl⟩
        by_cases hm : m = n
        · subst hm
          have ho : o = some el := by
            rw [← hm']
            exact (Function.update_self m o (c.perform m effs).election).symm
          obtain ⟨hpos, hle', hfresh, S, hS, hcand⟩ := hel el ho
          exact ⟨hpos, hle', hfresh, S, hS.mono (fun _ hv => hv) fun hr => ⟨_, hr, rfl, rfl, rfl⟩,
            hcand⟩
        · have hm'' : c.election m = some el := by
            rw [← hm']
            show c.election m = Function.update (c.perform n effs).election n o m
            rw [Function.update_of_ne hm, Cluster.perform_election]
          obtain ⟨hpos, hle', hfresh, S, hS, hcand⟩ := h.standing hm''
          refine ⟨hpos, ?_, ?_, S, hmv hS, ?_⟩
          · show el.term ≤ ((c.runBlock n nd effs).node m).currentTerm
            rwa [hother hm]
          · show (m, el.term) ∉ (c.perform n effs).elected
            rwa [Cluster.perform_elected]
          · show ((c.runBlock n nd effs).node m).role = .candidate → _
            intro hr
            rw [hother hm] at hr
            refine ⟨?_, ?_⟩
            · show el.term = ((c.runBlock n nd effs).node m).currentTerm
              rw [hother hm]
              exact (hcand hr).1
            · show ((c.runBlock n nd effs).node m).votesReceived ≤ S.card
              rw [hother hm]
              exact (hcand hr).2
      elected := by
        intro m t hmt
        obtain ⟨hpos, hle', R, hR, hv⟩ := h.elected ((c.perform_elected n effs) ▸ hmt)
        refine ⟨hpos, ?_, R, hR, fun m' hm' => hsub (hv m' hm')⟩
        show t ≤ ((c.runBlock n nd effs).node m).currentTerm
        by_cases hm : m = n
        · subst hm
          rw [hself]
          exact hle'.trans hle
        · rwa [hother hm]
      leader := by
        intro m hr
        show (m, ((c.runBlock n nd effs).node m).currentTerm) ∈ (c.perform n effs).elected
        rw [Cluster.perform_elected]
        have hr' : ((c.runBlock n nd effs).node m).role = .leader := hr
        by_cases hm : m = n
        · subst hm
          rw [hself] at hr' ⊢
          exact hlead hr'
        · rw [hother hm] at hr' ⊢
          exact h.leader hr'
      member := fun hmt => h.member ((c.perform_elected n effs) ▸ hmt) }

/-- An election goes on through a block of its node that keeps the term of a candidate and adds no
votes to its count. -/
theorem Standing.runBlock {c : Cluster N P} {n : N} {el : ElectionCall N}
    (h : Standing cfg c n el) {nd : RaftNode N P} {effs : List (Effect N P)}
    (hf : Forwards (c.node n).stored effs nd.stored)
    (hcand : nd.role = .candidate → (c.node n).role = .candidate ∧
      nd.currentTerm = (c.node n).currentTerm ∧ nd.votesReceived ≤ (c.node n).votesReceived) :
    Standing cfg (c.runBlock n nd effs) n el := by
  have hself : (c.runBlock n nd effs).node n = nd := Function.update_self ..
  obtain ⟨hpos, hle, hfresh, S, hS, hc⟩ := h
  refine ⟨hpos, ?_, ?_, S, ?_, ?_⟩
  · rw [hself]
    exact hle.trans hf.le
  · show (n, el.term) ∉ (c.perform n effs).elected
    rwa [Cluster.perform_elected]
  · exact hS.mono (votes_subset_perform c n effs) fun {i rpc} hr =>
      ⟨rpc, by rw [← hr]; exact congrArg (·[i]?) (c.perform_voteRpcs n effs), rfl, rfl, rfl⟩
  · rw [hself]
    intro hr
    obtain ⟨hr', ht, hv⟩ := hcand hr
    exact ⟨(hc hr').1.trans ht.symm, hv.trans (hc hr').2⟩

/-- Blocks that do not touch the election of their node. -/
theorem Elections.runBlock {c : Cluster N P} (h : Elections cfg c) {n : N}
    {nd : RaftNode N P} {effs : List (Effect N P)}
    (hf : Forwards (c.node n).stored effs nd.stored)
    (hlead : nd.role = .leader → (n, nd.currentTerm) ∈ c.elected)
    (hcand : nd.role = .candidate → (c.node n).role = .candidate ∧
      nd.currentTerm = (c.node n).currentTerm ∧ nd.votesReceived ≤ (c.node n).votesReceived) :
    Elections cfg (c.runBlock n nd effs) := by
  have hset := h.runBlock_setElection (o := c.election n) hf hlead
    fun el hel => (h.standing hel).runBlock hf hcand
  refine hset.congr rfl rfl ?_ rfl rfl rfl
  show (c.perform n effs).election = Function.update (c.perform n effs).election n (c.election n)
  rw [Cluster.perform_election, Function.update_eq_self]

/-- Blocks that leave the node as it is. -/
theorem Elections.runBlock_self {c : Cluster N P} (h : Elections cfg c) (n : N) :
    Elections cfg (c.runBlock n (c.node n) []) :=
  h.runBlock rfl h.leader fun hr => ⟨hr, rfl, le_rfl⟩

/-- A crash keeps the invariant: term and vote are reloaded, the election is gone. -/
theorem Elections.restart {c : Cluster N P} (h : Elections cfg c) {n : N}
    {effs : List (Effect N P)} {s' : ℕ × Option N} (hf : Forwards (c.node n).stored effs s') :
    Elections cfg ((c.perform n effs).restart n) := by
  have hstored : (RaftNode.boot ((c.perform n effs).disk n)).stored = s' := by
    rw [RaftNode.boot_eq, Cluster.perform_disk_self]
    exact Forwards.foldl (h.stored n ▸ hf)
  have hset : Elections cfg ((c.runBlock n (RaftNode.boot ((c.perform n effs).disk n))
      effs).setElection n none) := h.runBlock_setElection (hstored ▸ hf)
    (by rw [RaftNode.boot_eq]; intro hr; cases hr) (by intro el hel; cases hel)
  refine hset.congr ?_ rfl rfl rfl rfl rfl
  show Function.update (c.perform n effs).node n _ = Function.update c.node n _
  rw [Cluster.perform_node]

theorem Elections.addVoteRpc {c : Cluster N P} (h : Elections cfg c) {rpc : VoteRpc N}
    (hid : rpc.request.candidateId = rpc.candidate) (hresp : rpc.response = none) :
    Elections cfg { c with voteRpcs := c.voteRpcs ++ [rpc] } := by
  refine ⟨h.stored, h.votes, fun hr => ?_, fun hr hres hg => ?_,
    fun hel => ?_, h.elected, h.leader, h.member⟩
  · rcases List.mem_append.mp hr with hr | hr
    · exact h.candidateId hr
    · rw [List.mem_singleton.mp hr]
      exact hid
  · rcases List.mem_append.mp hr with hr | hr
    · exact h.granted hr hres hg
    · rw [List.mem_singleton.mp hr, hresp] at hres
      cases hres
  · obtain ⟨hpos, hle, hfresh, S, hS, hc⟩ := h.standing hel
    refine ⟨hpos, hle, hfresh, S, hS.mono (fun _ hv => hv) fun {i r} hr => ⟨r, ?_, rfl, rfl, rfl⟩, hc⟩
    rw [List.getElem?_append_left (List.getElem?_eq_some_iff.mp hr).1]
    exact hr

theorem Elections.answerVoteRpc {c : Cluster N P} (h : Elections cfg c) {i : ℕ}
    {candidate peer : N} {request : RequestVoteRequest N} {resp : RequestVoteResponse}
    (hrpc : c.voteRpcs[i]? = some ⟨candidate, peer, request, none⟩)
    (hvote : resp.voteGranted = true → (peer, request.term, candidate) ∈ c.votes) :
    Elections cfg { c with voteRpcs := c.voteRpcs.set i ⟨candidate, peer, request, some resp⟩ } := by
  refine ⟨h.stored, h.votes, fun hr => ?_, fun hr hres hg => ?_,
    fun hel => ?_, h.elected, h.leader, h.member⟩
  · rcases List.mem_or_eq_of_mem_set hr with hr | rfl
    · exact h.candidateId hr
    · have hid := h.candidateId (List.mem_of_getElem? hrpc)
      exact hid
  · rcases List.mem_or_eq_of_mem_set hr with hr | rfl
    · exact h.granted hr hres hg
    · obtain rfl := Option.some.inj hres
      exact hvote hg
  · obtain ⟨hpos, hle, hfresh, S, hS, hc⟩ := h.standing hel
    refine ⟨hpos, hle, hfresh, S, hS.mono (fun _ hv => hv) fun {j r} hr => ?_, hc⟩
    by_cases hij : i = j
    · subst hij
      obtain rfl := Option.some.inj (hrpc.symm.trans hr)
      exact ⟨_, List.getElem?_set_self (List.getElem?_eq_some_iff.mp hrpc).1, rfl, rfl, rfl⟩
    · refine ⟨r, ?_, rfl, rfl, rfl⟩
      show (c.voteRpcs.set i _)[j]? = _
      rw [List.getElem?_set_ne hij]
      exact hr

/-! ## Every event keeps it -/

theorem mem_peers {n p : N} : p ∈ cfg.peers n ↔ p ∈ cfg.members ∧ p ≠ n := by
  simp [Config.peers]

/-- A member has one peer fewer than there are members. -/
theorem length_peers {n : N} (hn : n ∈ cfg.members) :
    (cfg.peers n).length + 1 = cfg.members.length := by
  have hcount : (cfg.members.filter fun p => decide (p = n)).length = 1 := by
    rw [← List.countP_eq_length_filter]
    have h1 := List.count_eq_one_of_mem cfg.nodup hn
    rw [List.count] at h1
    rw [← h1]
    exact List.countP_congr fun p _ => by simp
  have hsum := List.length_eq_length_filter_add (l := cfg.members) (fun p => decide (p = n))
  have hpeers : cfg.peers n = cfg.members.filter fun p => !decide (p = n) :=
    List.filter_congr fun p _ => by simp
  rw [hpeers]
  omega

/-- As many votes as `majority_count` asks for are those of a quorum. -/
theorem isQuorum_of_majorityCount {n : N} (hn : n ∈ cfg.members) {S : Finset N}
    (hS : ∀ m ∈ S, m ∈ cfg.members) (hcard : majorityCount (cfg.peers n).length ≤ S.card) :
    (QuorumSystem.majority cfg.members).IsQuorum S := by
  refine ⟨fun m hm => List.mem_toFinset.mpr (hS m hm), ?_⟩
  have hlen := length_peers hn
  unfold majorityCount at hcard
  omega

/-- The candidate that wins has the votes of a quorum in the term it is in. -/
theorem Elections.winner {c : Cluster N P} (h : Elections cfg c) {n : N}
    {el : ElectionCall N} (hel : c.election n = some el)
    (hwin : (c.node n).winsElection (cfg.peers n) = true) :
    el.term = (c.node n).currentTerm ∧ ∃ R, (QuorumSystem.majority cfg.members).IsQuorum R ∧
      ∀ m ∈ R, (m, (c.node n).currentTerm, n) ∈ c.votes := by
  simp only [RaftNode.winsElection, Bool.and_eq_true, decide_eq_true_eq] at hwin
  obtain ⟨-, -, -, S, hS, hc⟩ := h.standing hel
  obtain ⟨ht, hcard⟩ := hc hwin.1
  refine ⟨ht, S, isQuorum_of_majorityCount hS.member (fun m hm => (hS.voters m hm).1)
    (hwin.2.trans hcard), fun m hm => ?_⟩
  rw [← ht]
  exact (hS.voters m hm).2

/-- Becoming leader keeps the invariant. -/
theorem Elections.becomeLeader {c : Cluster N P} (h : Elections cfg c) {n : N}
    {el : ElectionCall N} (hel : c.election n = some el)
    (hwin : (c.node n).winsElection (cfg.peers n) = true) :
    Elections cfg { (c.runBlock n ((c.node n).becomeLeader n (cfg.peers n)) []).setElection n none
      with elected := (n, (c.node n).currentTerm) :: c.elected } := by
  obtain ⟨ht, R, hR, hv⟩ := h.winner hel hwin
  have hst := h.standing hel
  have hnew : Elections cfg { c.setElection n none with
      elected := (n, (c.node n).currentTerm) :: c.elected } := by
    refine ⟨h.stored, h.votes, h.candidateId, h.granted,
      fun {m el'} hm => ?_, fun hmt => ?_, fun hr => List.mem_cons_of_mem _ (h.leader hr),
      fun hmt => ?_⟩
    · obtain ⟨hmn, hm⟩ := Cluster.election_setElection_none hm
      obtain ⟨hpos, hle, hfresh, S, hS, hc⟩ := h.standing hm
      refine ⟨hpos, hle, ?_, S, hS.mono (fun _ hv => hv) fun hr => ⟨_, hr, rfl, rfl, rfl⟩, hc⟩
      intro hmem
      rcases List.mem_cons.mp hmem with heq | hmem
      · exact hmn (Prod.mk.inj heq).1
      · exact hfresh hmem
    · rcases List.mem_cons.mp hmt with heq | hmt
      · obtain ⟨rfl, rfl⟩ := Prod.mk.inj heq
        exact ⟨ht ▸ hst.pos, le_rfl, R, hR, hv⟩
      · exact h.elected hmt
    · rcases List.mem_cons.mp hmt with heq | hmt
      · obtain ⟨S, hS, -⟩ := hst.counting
        rw [(Prod.mk.inj heq).1]
        exact hS.member
      · exact h.member hmt
  have hlead : (n, (c.node n).currentTerm) ∈ (n, (c.node n).currentTerm) :: c.elected :=
    List.mem_cons_self
  have hforward : Forwards (P := P) (c.node n).stored []
      ((c.node n).becomeLeader n (cfg.peers n)).stored := rfl
  exact (hnew.runBlock hforward (fun _ => hlead) (by intro hr; cases hr)).congr rfl rfl rfl rfl rfl
    rfl

/-- Handling a vote response keeps the invariant. -/
theorem Elections.voteReply {c : Cluster N P} (h : Elections cfg c) {n : N}
    {term lastIdx lastTerm i : ℕ} {pending : List N} {rpc : VoteRpc N} {resp : RequestVoteResponse}
    (hel : c.election n = some ⟨term, lastIdx, lastTerm, pending, some i⟩)
    (hrpc : c.voteRpcs[i]? = some rpc) (hresp : rpc.response = some resp) :
    Elections cfg ((c.runBlock n ((c.node n).handleVoteResponse resp).1
      ((c.node n).handleVoteResponse resp).2.1).setElection n
        (if ((c.node n).handleVoteResponse resp).2.2 then
          some ⟨term, lastIdx, lastTerm, pending, none⟩ else none)) := by
  obtain ⟨hpos, hle, hfresh, S, hS, hc⟩ := h.standing hel
  obtain ⟨rpc', hrpc', hcand, ht, hp, hpS, hpend⟩ := hS.awaiting i rfl
  obtain rfl := Option.some.inj (hrpc.symm.trans hrpc')
  have hf := (c.node n).forwards_handleVoteResponse resp
  have hself : ∀ nd effs, (c.runBlock n nd effs).node n = nd := fun _ _ => Function.update_self ..
  rcases RaftNode.handleVoteResponse_cases (c.node n) resp with ⟨-, heq⟩ | ⟨hgrant, heq⟩ | heq
  · rw [heq] at hf ⊢
    exact h.runBlock_setElection hf (by intro hr; cases hr) (by intro el hsome; cases hsome)
  · rw [heq] at hf ⊢
    refine h.runBlock_setElection hf h.leader ?_
    rintro el ⟨⟩
    -- the peer that answered joins the voters
    refine ⟨hpos, ?_, hfresh, insert rpc.peer S, ?_, ?_⟩
    · rw [hself]
      exact hle
    · refine ⟨hS.member, ?_, hS.nodup, ?_, by intro j hj; cases hj⟩
      · intro m hm
        rcases Finset.mem_insert.mp hm with rfl | hm
        · refine ⟨hp, ?_⟩
          have hg := h.granted (List.mem_of_getElem? hrpc) hresp hgrant
          rw [ht, hcand] at hg
          exact hg
        · exact hS.voters m hm
      · intro p hpp
        refine ⟨(hS.pending p hpp).1, ?_⟩
        rw [Finset.mem_insert, not_or]
        exact ⟨fun heq => hpend (heq ▸ hpp), (hS.pending p hpp).2⟩
    · rw [hself]
      intro hr
      refine ⟨(hc hr).1, ?_⟩
      rw [Finset.card_insert_of_notMem hpS]
      exact Nat.succ_le_succ (hc hr).2
  · rw [heq] at hf ⊢
    refine h.runBlock_setElection hf h.leader ?_
    rintro el ⟨⟩
    refine ⟨hpos, ?_, hfresh, S, ⟨hS.member, hS.voters, hS.nodup, hS.pending, by
      intro j hj; cases hj⟩, ?_⟩
    · rw [hself]
      exact hle
    · rw [hself]
      exact hc

/-- **Every event keeps the invariant of elections.** -/
theorem Elections.step {c c' : Cluster N P} {ev : Event N P} (h : Elections cfg c)
    (hs : cfg.step c ev = some c') : Elections cfg c' := by
  obtain ⟨a, b, hblock, ⟨-, rfl⟩ | ⟨k, -, rfl⟩⟩ := Config.step_cases hs
  · cases Config.runs_of_block hblock with
    | startElection n hn hnone hrole =>
        refine h.runBlock_setElection ((c.node n).forwards_startElection n) (by intro hr; cases hr) ?_
        rintro el ⟨⟩
        have hself : ∀ nd effs, (c.runBlock n nd effs).node n = nd :=
          fun _ _ => Function.update_self ..
        refine ⟨Nat.succ_pos _, ?_, ?_, {n}, ⟨hn, ?_, ?_, ?_, by intro i hi; cases hi⟩, ?_⟩
        · rw [hself]
        · intro hmem
          have hle := (h.elected ((c.perform_elected _ _) ▸ hmem)).2.1
          exact absurd hle (Nat.not_succ_le_self _)
        · intro m hm
          obtain rfl := Finset.mem_singleton.mp hm
          refine ⟨hn, Cluster.mem_perform_votes.mpr (Or.inr ⟨rfl, ?_⟩)⟩
          exact List.mem_singleton.mpr rfl
        · exact cfg.nodup.filter _
        · intro p hp
          obtain ⟨hp, hpn⟩ := mem_peers.mp hp
          exact ⟨hp, fun hmem => hpn (Finset.mem_singleton.mp hmem)⟩
        · rw [hself]
          exact fun _ => ⟨rfl, (Finset.card_singleton n).ge⟩
    | @requestVote n term lastIdx lastTerm peer pending hel =>
        obtain ⟨hpos, hle, hfresh, S, hS, hc⟩ := h.standing hel
        have hpeer := hS.pending peer List.mem_cons_self
        have hnd := List.nodup_cons.mp hS.nodup
        have hadd : Elections cfg { c with voteRpcs := c.voteRpcs ++
            [⟨n, peer, ⟨term, n, lastIdx, lastTerm⟩, none⟩] } := h.addVoteRpc rfl rfl
        have hforward : Forwards (P := P) (c.node n).stored [] (c.node n).stored := rfl
        refine (hadd.runBlock_setElection hforward h.leader
          (o := some ⟨term, lastIdx, lastTerm, pending, some c.voteRpcs.length⟩)
          ?_).congr rfl rfl rfl rfl rfl rfl
        rintro el ⟨⟩
        have hself : ((({ c with voteRpcs := c.voteRpcs ++
            [⟨n, peer, ⟨term, n, lastIdx, lastTerm⟩, none⟩] } : Cluster N P).runBlock n
              (c.node n) []).node n) = c.node n := Function.update_self ..
        refine ⟨hpos, by rw [hself]; exact hle, hfresh, S, ⟨hS.member, hS.voters, hnd.2,
          fun p hp => hS.pending p (List.mem_cons_of_mem _ hp), ?_⟩, by rw [hself]; exact hc⟩
        rintro i ⟨⟩
        refine ⟨⟨n, peer, ⟨term, n, lastIdx, lastTerm⟩, none⟩, ?_, rfl, rfl, hpeer.1, hpeer.2, hnd.1⟩
        exact List.getElem?_concat_length
    | @handleRequestVote i candidate peer request hrpc =>
        have hrun := h.runBlock ((c.node peer).forwards_handleRequestVote request)
          (by
            intro hr
            rcases RaftNode.handleRequestVote_role (c.node peer) request with hf | ⟨hr', ht, -⟩
            · rw [hf] at hr
              cases hr
            · rw [ht]
              exact h.leader (hr'.symm.trans hr))
          (by
            intro hr
            rcases RaftNode.handleRequestVote_role (c.node peer) request with hf | ⟨hr', ht, hv⟩
            · rw [hf] at hr
              cases hr
            · exact ⟨hr'.symm.trans hr, ht, hv.le⟩)
        refine hrun.answerVoteRpc (by rw [← hrpc]; exact congrArg (·[i]?) (c.perform_voteRpcs _ _)) ?_
        intro hg
        have hid := h.candidateId (List.mem_of_getElem? hrpc)
        simp only at hid
        rw [← hid]
        exact Cluster.mem_perform_votes.mpr (Or.inr ⟨rfl, RaftNode.handleRequestVote_granted hg⟩)
    | voteReply n hel hrpc hresp => exact h.voteReply hel hrpc hresp
    | @voteLost n term lastIdx lastTerm i pending hel =>
        obtain ⟨hpos, hle, hfresh, S, hS, hc⟩ := h.standing hel
        refine h.runBlock_setElection rfl h.leader ?_
        rintro el ⟨⟩
        have hself : (c.runBlock n (c.node n) []).node n = c.node n := Function.update_self ..
        exact ⟨hpos, by rw [hself]; exact hle, hfresh, S, ⟨hS.member, hS.voters, hS.nodup,
          hS.pending, by intro j hj; cases hj⟩, by rw [hself]; exact hc⟩
    | winElection n hel hwin => exact h.becomeLeader hel hwin
    | loseElection n hel => exact h.runBlock_setElection rfl h.leader (by intro el hel; cases hel)
    | stepDown n hn =>
        exact h.runBlock rfl (by intro hr; cases hr) (by intro hr; cases hr)
    | proposeAppend n i hcall =>
        have hq := RaftNode.quiet_proposeLocked (cfg.threshold n) (cfg.peers n) (c.node n)
        refine (h.runBlock (hq _ _).forwards ?_ ?_).congr rfl rfl rfl rfl rfl rfl
        · intro hr
          rw [(hq _ _).term]
          exact h.leader ((hq _ _).role.symm.trans hr)
        · exact fun hr => ⟨(hq _ _).role.symm.trans hr, (hq _ _).term, (hq _ _).votesReceived.le⟩
    | @handleAppendEntries i sender peer request waiting hrpc =>
        refine (h.runBlock ((c.node peer).forwards_handleAppendEntries request) ?_ ?_).congr
          rfl rfl rfl rfl rfl rfl
        · intro hr
          rcases (c.node peer).handleAppendEntries_role request with hf | heq
          · rw [hf] at hr
            cases hr
          · rw [heq] at hr ⊢
            exact h.leader hr
        · intro hr
          rcases (c.node peer).handleAppendEntries_role request with hf | heq
          · rw [hf] at hr
            cases hr
          · rw [heq] at hr ⊢
            exact ⟨hr, rfl, le_rfl⟩
    | @replicateReply i sender peer request resp hrpc =>
        have hrole := RaftNode.handleAppendResponse_role (cfg.threshold sender) (cfg.peers sender)
          peer request (c.node sender) resp
        refine (h.runBlock (RaftNode.forwards_handleAppendResponse ..) ?_ ?_).congr
          rfl rfl rfl rfl rfl rfl
        · intro hr
          rcases hrole with hf | ⟨hr', ht, -⟩
          · rw [hf] at hr
            cases hr
          · rw [ht]
            exact h.leader (hr'.symm.trans hr)
        · intro hr
          rcases hrole with hf | ⟨hr', ht, hv⟩
          · rw [hf] at hr
            cases hr
          · exact ⟨hr'.symm.trans hr, ht, hv.le⟩
    | _ => exact (h.runBlock_self _).congr rfl rfl rfl rfl rfl rfl
  · have hf : ∃ s', Forwards (c.node b.actor).stored b.effects s' := by
      cases Config.runs_of_block hblock with
      | startElection n => exact ⟨_, (c.node n).forwards_startElection n⟩
      | handleRequestVote => exact ⟨_, RaftNode.forwards_handleRequestVote _ _⟩
      | voteReply n => exact ⟨_, RaftNode.forwards_handleVoteResponse _ _⟩
      | proposeAppend => exact ⟨_, (RaftNode.quiet_proposeLocked ..).forwards⟩
      | handleAppendEntries => exact ⟨_, RaftNode.forwards_handleAppendEntries _ _⟩
      | replicateReply => exact ⟨_, RaftNode.forwards_handleAppendResponse ..⟩
      | _ => exact ⟨_, rfl⟩
    obtain ⟨s', hs'⟩ := hf
    obtain ⟨s'', hs''⟩ := hs'.take k
    exact h.restart hs''

theorem Elections.runWhile {C : Cluster N P → Event N P → Bool}
    {evs : List (Event N P)} {c : Cluster N P}
    (hr : cfg.runWhile C (Cluster.init N P) evs = some c) : Elections cfg c :=
  Config.runWhile_induction (fun _ _ _ h _ hs => h.step hs) Elections.init hr

/-- A term has at most one leader on record. -/
theorem Elections.leader_unique {c : Cluster N P} (h : Elections cfg c) {t : ℕ} {n m : N}
    (hn : (n, t) ∈ c.elected) (hm : (m, t) ∈ c.elected) : n = m := by
  obtain ⟨-, -, R, hR, hv⟩ := h.elected hn
  obtain ⟨-, -, R', hR', hv'⟩ := h.elected hm
  obtain ⟨v, hvR, hvR'⟩ := (QuorumSystem.majority cfg.members).meet hR hR'
  exact (h.votes v).once (hv v hvR) (hv' v hvR')

/-- **Election safety.** In every run of every cluster, at most one node ever becomes the leader of
a term. -/
theorem election_safety (cfg : Config N) (evs : List (Event N P)) (c : Cluster N P)
    (hrun : cfg.run evs = some c) (t : ℕ) (n m : N) (hn : (n, t) ∈ c.elected)
    (hm : (m, t) ∈ c.elected) : n = m :=
  (Elections.runWhile hrun).leader_unique hn hm

/-- A cluster of three with the default snapshot threshold. -/
def threeNodes : Config (Fin 3) := ⟨[0, 1, 2], by decide, fun _ => 50, by decide⟩

/-- Node `0` stands and wins with the votes of both peers, then node `1` stands and wins. -/
def twoElections : List (Event (Fin 3) ℕ) :=
  electionEvents 0 0 [true, true] ++ electionEvents 1 2 [true, false]

theorem election_safety_twoElections :
    ∃ c, threeNodes.run twoElections = some c ∧ c.elected = [(1, 2), (0, 1)] ∧
      ∀ n, (n, 2) ∈ c.elected → n = 1 := by
  have hrun : (threeNodes.run twoElections).map Cluster.elected = some [(1, 2), (0, 1)] := by
    decide +kernel
  obtain ⟨c, hc, helected⟩ := Option.map_eq_some_iff.mp hrun
  refine ⟨c, hc, helected, fun n hn => ?_⟩
  exact election_safety threeNodes twoElections c hc 2 n 1 hn (by rw [helected]; decide)

end NanoFabric.Raft
