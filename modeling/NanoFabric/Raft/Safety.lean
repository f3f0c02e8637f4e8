import NanoFabric.Raft.CommitSafety

/-!
# What nodes commit and apply

What the invariant of commits gives for runs, each with the condition on its steps that the code
does not check, and a run without it that goes wrong.

* `Safe`, `Commits.step`, `Safe.step` — states the abstract protocol simulates, commits included.
* `commit_majority` — what `_advance_commit_index` commits is held by a majority.
* `state_machine_safety` — no two nodes apply different entries at one position.
* `propose_sound` — what `propose` reports as committed is what is applied at its index.
-/

namespace NanoFabric.Raft

open Found Found.ReplicatedLog

variable {N P : Type} [DecidableEq N]

variable {cfg : Config N} {c c' : Cluster N P} {s : AbstractLog N P} {n : N}

/-! ## Runs -/

/-- A state that the abstract protocol simulates, commits included. -/
structure Safe (cfg : Config N) (c : Cluster N P) : Prop where
  elections : Elections cfg c
  commits : ∃ s, Refines cfg c s ∧ Commits cfg c s

theorem Safe.init : Safe cfg (Cluster.init N P) :=
  ⟨Elections.init, _, Refines.init, Commits.init⟩

/-- A step that appends on an elected node, reads positions of whole logs only and counts responses in
the term of their request is simulated by moves, commits included. -/
theorem Commits.step (hC : Commits cfg c s) (href : Refines cfg c s) (hE : Elections cfg c)
    {ev : Event N P} (happ : electedAppend c ev = true) (hreads : readsWholeLog cfg c ev = true)
    (hfresh : freshResponse c ev = true) (hs : cfg.step c ev = some c') :
    ∃ s', Refines cfg c' s' ∧ Commits cfg c' s' ∧ cfg.Moved s s' := by
  have hfits : ∀ n effs, Fits (c.node n) effs := fun n _ => Or.inr (hC.caught n).le
  obtain ⟨a, b, hb, hcase⟩ := Config.step_cases hs
  have hruns := Config.runs_of_block hb
  obtain ⟨hm, hf⟩ : Meets cfg c a b ∧ Fresh c a := by
    have hconds : ev.action? = some a → Meets cfg c a b ∧ Fresh c a := by
      intro ha
      refine ⟨.of_conditions ha happ hreads (hfits _ _), ?_⟩
      rintro i rpc resp rfl hrpc hresp hsucc
      unfold freshResponse at hfresh
      rw [ha] at hfresh
      simpa [hrpc, hresp, hsucc] using hfresh
    rcases hcase with ⟨rfl, -⟩ | ⟨k, rfl | ⟨-, rfl, -⟩, -⟩
    · exact hconds rfl
    · exact hconds rfl
    · refine ⟨⟨?_, ?_, ?_, ?_, ?_, hfits _ _⟩, ?_⟩
      · rintro _ _ ⟨⟩
      · rintro _ _ ⟨⟩
      · rintro _ _ ⟨⟩
      · rintro _ _ ⟨⟩
      · rintro _ _ _ ⟨⟩
      · rintro _ _ _ ⟨⟩
  obtain ⟨s', hsim⟩ := href.step_run hE hruns hm
  rcases hcase with ⟨-, rfl⟩ | ⟨k, -, rfl⟩
  · exact ⟨s', hsim.refines, hC.step_run href hE hruns hm hf hsim, hsim.moved⟩
  · obtain ⟨s'', href'', hmoved, hout⟩ := href.step_crash hsim k
    exact ⟨s'', href'', hC.crash href href'' hmoved (hsim.delivers href hE hC hruns hm hf).1 hout,
      hmoved⟩

/-- Such a step keeps it. -/
theorem Safe.step (h : Safe cfg c) {ev : Event N P} (happ : electedAppend c ev = true)
    (hreads : readsWholeLog cfg c ev = true) (hfresh : freshResponse c ev = true)
    (hs : cfg.step c ev = some c') : Safe cfg c' := by
  obtain ⟨s, href, hC⟩ := h.commits
  obtain ⟨s', href', hC', -⟩ := hC.step href h.elections happ hreads hfresh hs
  exact ⟨h.elections.step hs, s', href', hC'⟩

/-! ## The commit rule -/

/-- A majority of the members has the entry that node `n` has at position `k` of its log. -/
def HeldByMajority (cfg : Config N) (c : Cluster N P) (n : N) (k : ℕ) : Prop :=
  ∃ e, (c.node n).log[k - 1]? = some e ∧ e.index = k ∧
    ∃ R : Finset N, R ⊆ cfg.members.toFinset ∧ majorityCount (cfg.peers n).length ≤ R.card ∧
      ∀ m ∈ R, (c.node m).log[k - 1]? = some e

/-- The blocks that call `_advance_commit_index`. -/
def Action.advancesCommit : Action N P → Bool
  | .proposeAppend _ _ => true
  | .replicateReply _ => true
  | _ => false

/-- Where the step's `_advance_commit_index` raises a commit index, a majority holds the entry. -/
def CommitsHeld (cfg : Config N) (c c' : Cluster N P) (a : Action N P) : Prop :=
  a.advancesCommit = true → ∀ n, (c.node n).commitIndex < (c'.node n).commitIndex →
    HeldByMajority cfg c' n (c'.node n).commitIndex

/-- What a node counts as committed is held by those that have acknowledged it. -/
theorem Commits.heldByMajority (h : Commits cfg c s) (href : Refines cfg c s)
    (hzero : ∀ m, (c.node m).snapshotIndex = 0) (hn : n ∈ cfg.members)
    (hpos : 0 < (c.node n).commitIndex) : HeldByMajority cfg c n (c.node n).commitIndex := by
  have hlog : ∀ m, (c.node m).log = s.log m := fun m => (href.node m).log_eq (hzero m)
  obtain h0 | ⟨t, X, hX, -, hk, hL⟩ := h.committed n
  · omega
  obtain ⟨R, ⟨hsub, hcard⟩, hacked⟩ := hX.2
  -- all of the quorum hold `X`, and `n` holds it up to its commit index
  have hlt : (c.node n).commitIndex - 1 < X.length := by omega
  have hget : (s.log n)[(c.node n).commitIndex - 1]? =
      some (X[(c.node n).commitIndex - 1]) := by
    refine getElem?_mono hL ?_
    rw [List.getElem?_take_of_lt (by omega), List.getElem?_eq_getElem hlt]
  refine ⟨_, (hlog n ▸ hget), ?_, R, hsub, ?_, fun m hm => ?_⟩
  · rw [href.sound.aligned_log n _ _ hget]
    omega
  · have hlen := length_peers hn
    unfold majorityCount
    omega
  · rw [hlog m]
    exact getElem?_mono (href.sound.inv.chosen_log hX (hacked m hm))
      (List.getElem?_eq_getElem hlt)

theorem readsWholeLog_of_zero (hzero : ∀ n, (c.node n).snapshotIndex = 0) (ev : Event N P) :
    readsWholeLog cfg c ev = true := by
  unfold readsWholeLog
  split
  all_goals simp [hzero]

/-- The node of a block that raises a commit index by counting replicas is a member. -/
theorem mem_members_of_advancesCommit (href : Refines cfg c s) (hE : Elections cfg c)
    {a : Action N P} {b : Block N P} (hb : cfg.Runs c a b) (happ : electedAppend c (.run a) = true)
    (ha : a.advancesCommit = true) : b.actor ∈ cfg.members := by
  cases hb with
  | proposeAppend n i => exact hE.member (of_decide_eq_true happ)
  | replicateReply i hrpc =>
      exact hE.member ((href.leader _ _).mp (href.sent (List.mem_of_getElem? hrpc)).leader)
  | _ => cases ha

/-- The conditions under which the commit rule is sound. -/
def countsFreshly (cfg : Config N) (c : Cluster N P) (ev : Event N P) : Bool :=
  noCompaction cfg c ev && electedAppend c ev && freshResponse c ev

/-- What the conditions keep. -/
theorem Safe.step_countsFreshly (h : Uncompacted cfg c ∧ Safe cfg c) {ev : Event N P}
    (hcond : countsFreshly cfg c ev = true) (hs : cfg.step c ev = some c') :
    Uncompacted cfg c' ∧ Safe cfg c' := by
  obtain ⟨hwhole, hsafe⟩ := h
  simp only [countsFreshly, Bool.and_eq_true] at hcond
  refine ⟨hwhole.step hcond.1.1 hcond.1.2 hs, hsafe.step hcond.1.2 ?_ hcond.2 hs⟩
  obtain ⟨s, href⟩ := hwhole.refines
  exact readsWholeLog_of_zero (fun n => (href.snap n).symm.trans (hwhole.whole n)) ev

/-- **Soundness of the commit rule**, in every run without compaction in which `propose` appends on
elected nodes and success responses are handled in the term of their request. -/
theorem commit_majority (cfg : Config N) (evs : List (Event N P)) (c c' : Cluster N P)
    (a : Action N P) (hrun : cfg.runWhile (countsFreshly cfg) (Cluster.init N P) evs = some c)
    (hcond : countsFreshly cfg c (.run a) = true) (hstep : cfg.step c (.run a) = some c') :
    CommitsHeld cfg c c' a := by
  have hc : Uncompacted cfg c ∧ Safe cfg c := Config.runWhile_induction
    (fun _ _ _ h hC hs => Safe.step_countsFreshly h hC hs) ⟨Uncompacted.init, Safe.init⟩ hrun
  obtain ⟨hwhole', hsafe'⟩ := Safe.step_countsFreshly hc hcond hstep
  intro ha n hraise
  obtain ⟨s, href, -⟩ := hc.2.commits
  obtain ⟨s', href', hC'⟩ := hsafe'.commits
  obtain ⟨b, hb, rfl⟩ := Option.map_eq_some_iff.mp hstep
  have hruns := Config.runs_of_block hb
  simp only [countsFreshly, Bool.and_eq_true] at hcond
  have hmem : n ∈ cfg.members := by
    by_cases hn : n = b.actor
    · rw [hn]
      exact mem_members_of_advancesCommit href hc.2.elections hruns hcond.1.2 ha
    · rw [(hruns.calls_frame _).1] at hraise
      exact absurd hraise (by simp [Cluster.runBlock, hn])
  exact hC'.heldByMajority href'
    (fun m => (href'.snap m).symm.trans (hwhole'.whole m)) hmem (Nat.zero_lt_of_lt hraise)

theorem commit_majority_replicatedProposal :
    ∃ c c', twoNodes.runWhile (countsFreshly twoNodes) (Cluster.init (Fin 2) ℕ)
        replicatedProposal.dropLast = some c ∧ twoNodes.step c (.run (.replicateReply 0)) = some c' ∧
      (c.node 0).commitIndex = 0 ∧ (c'.node 0).commitIndex = 1 ∧
      CommitsHeld twoNodes c c' (.replicateReply 0) := by
  have hrun : (twoNodes.runWhile (countsFreshly twoNodes) (Cluster.init (Fin 2) ℕ)
      replicatedProposal.dropLast).map (fun c => ((c.node 0).commitIndex,
        countsFreshly twoNodes c (.run (.replicateReply 0)),
        (twoNodes.step c (.run (.replicateReply 0))).map fun c' => (c'.node 0).commitIndex)) =
      some (0, true, some 1) := by
    decide +kernel
  obtain ⟨c, hc, hfacts⟩ := Option.map_eq_some_iff.mp hrun
  obtain ⟨hbefore, hrest⟩ := Prod.mk.inj hfacts
  obtain ⟨hcond, hstep⟩ := Prod.mk.inj hrest
  obtain ⟨c', hc', hafter⟩ := Option.map_eq_some_iff.mp hstep
  exact ⟨c, c', hc, hc', hbefore, hafter,
    commit_majority twoNodes replicatedProposal.dropLast c c' (.replicateReply 0) hc hcond hc'⟩

/-- A cluster of five with the default snapshot threshold. -/
def fiveNodes : Config (Fin 5) := ⟨[0, 1, 2, 3, 4], by decide, fun _ => 50, by decide⟩

/-- Node `0` leads term `1` and sends two entries to node `1`, whose answer is not handled yet. Node
`3` leads term `2` and overwrites them on node `0`. Node `0` leads term `3`, appends an entry at
position `2`, handles the old answer, and replicates to node `2`. -/
def lateAnswer : List (Event (Fin 5) ℕ) :=
  electionEvents 0 0 [true, true, false, false] ++
    [.run (.handleRequestVote 2), .run (.handleRequestVote 3)] ++
    [.run (.proposeCheck 0 .addAlert 1), .run (.proposeAppend 0 0)] ++
    [.run (.proposeCheck 0 .addAlert 2), .run (.proposeAppend 0 1)] ++
    [.run (.replicate 0 1), .run (.handleAppendEntries 0)] ++
    electionEvents 3 4 [false, false, true, true] ++
    [.run (.proposeCheck 3 .addAlert 3), .run (.proposeAppend 3 0)] ++ replicateEvents 3 0 1 ++
    electionEvents 0 8 [false, true, false, true] ++
    [.run (.proposeCheck 0 .addAlert 4), .run (.proposeAppend 0 2), .run (.replicateReply 0)] ++
    replicateEvents 0 2 2 ++ [.run (.replicate 0 2), .run (.handleAppendEntries 3)]

/-- The commit rule is unsound when a response is counted in a later term than its request's. -/
theorem commit_majority_counterexample :
    ¬∀ (cfg : Config (Fin 5)) (evs : List (Event (Fin 5) ℕ)) (c c' : Cluster (Fin 5) ℕ)
      (a : Action (Fin 5) ℕ), cfg.runWhile (noCompaction cfg) (Cluster.init (Fin 5) ℕ) evs = some c →
        noCompaction cfg c (.run a) = true → cfg.step c (.run a) = some c' →
          CommitsHeld cfg c c' a := by
  intro h
  have hrun : (fiveNodes.runWhile (noCompaction fiveNodes) (Cluster.init (Fin 5) ℕ)
      lateAnswer).map (fun c => ((c.node 0).commitIndex,
        noCompaction fiveNodes c (.run (.replicateReply 3)),
        (fiveNodes.step c (.run (.replicateReply 3))).map fun c' => ((c'.node 0).commitIndex,
          [0, 1, 2, 3, 4].map fun m => (c'.node m).log[1]?.map LogEntry.payload))) =
      some (0, true, some (2, [some 4, some 2, some 4, none, none])) := by
    decide +kernel
  obtain ⟨c, hc, hfacts⟩ := Option.map_eq_some_iff.mp hrun
  obtain ⟨hbefore, hrest⟩ := Prod.mk.inj hfacts
  obtain ⟨hcond, hstep⟩ := Prod.mk.inj hrest
  obtain ⟨c', hc', hafter⟩ := Option.map_eq_some_iff.mp hstep
  obtain ⟨hcommit, hlogs⟩ := Prod.mk.inj hafter
  obtain ⟨e, he, -, R, hmembers, hcard, hR⟩ := h fiveNodes lateAnswer c c' (.replicateReply 3) hc hcond hc'
    rfl 0 (by rw [hbefore, hcommit]; decide)
  rw [hcommit] at he hR
  have hpayload : ∀ m, (c'.node m).log[1]? = some e →
      (c'.node m).log[1]?.map LogEntry.payload = some e.payload :=
    fun m hm => congrArg (Option.map LogEntry.payload) hm
  simp only [List.map_cons, List.map_nil, List.cons.injEq, and_true] at hlogs
  obtain ⟨h0, h1, -, h3, h4⟩ := hlogs
  have hfour : 4 = e.payload := Option.some.inj (h0.symm.trans (hpayload 0 he))
  -- nodes `0` and `2` only have the entry of node `0`
  have hsub : R ⊆ {0, 2} := by
    intro m hm
    have hval := hpayload m (hR m hm)
    rw [← hfour] at hval
    have hmem := List.mem_toFinset.mp (hmembers hm)
    simp only [fiveNodes, List.mem_cons, List.not_mem_nil, or_false] at hmem
    rcases hmem with rfl | rfl | rfl | rfl | rfl
    · simp
    · exact absurd (h1.symm.trans hval) (by decide)
    · simp
    · exact absurd (h3.symm.trans hval) (by decide)
    · exact absurd (h4.symm.trans hval) (by decide)
  have hle := (Finset.card_le_card hsub).trans (Finset.card_le_two)
  have hthree : majorityCount (fiveNodes.peers 0).length = 3 := by decide
  omega

/-! ## State machines -/

/-- Node `n` counts `e` as its `k`-th applied entry: it handed it to `apply` as such, or has a
snapshot that absorbed it. -/
def CountsApplied (c : Cluster N P) (n : N) (k : ℕ) (e : LogEntry P) : Prop :=
  (n, k, e) ∈ c.applied ∨ k ≤ (c.disk n).lastIncludedIndex ∧ (k, e) ∈ (c.disk n).data

/-- State machine safety. -/
structure StateMachineSafe (c : Cluster N P) : Prop where
  /-- Two nodes count the same entry as their `k`-th. -/
  agree : ∀ n m k e e', CountsApplied c n k e → CountsApplied c m k e' → e = e'
  /-- Its index is `k`. -/
  index : ∀ n k e, CountsApplied c n k e → e.index = k
  /-- A node's state machine has every position up to `last_applied`, in order. -/
  order : ∀ n, (c.node n).stateMachine.map Prod.fst = List.range' 1 (c.node n).lastApplied
  /-- What it has at them, the node counts as applied. -/
  counted : ∀ n, ∀ p ∈ (c.node n).stateMachine, CountsApplied c n p.1 p.2

/-- What a node counts as applied is settled. -/
theorem Commits.settled_of_countsApplied (h : Commits cfg c s) {k : ℕ} {e : LogEntry P}
    (he : CountsApplied c n k e) : Settled LogEntry.term cfg.quorums s k e := by
  rcases he with he | ⟨-, he⟩
  · exact h.applied he
  · exact h.applied ((h.data n).2 _ he)

theorem Safe.stateMachineSafe (h : Safe cfg c) : StateMachineSafe c := by
  obtain ⟨s, href, hC⟩ := h.commits
  constructor
  · intro n m k e e' he he'
    exact (hC.settled_of_countsApplied he).unique href.sound.inv (hC.settled_of_countsApplied he')
  · intro n k e he
    obtain ⟨t, X, hX, hk, hget⟩ := hC.settled_of_countsApplied he
    rw [href.sound.aligned t _ _ (getElem?_mono hX.1.1 hget)]
    omega
  · intro n
    exact (hC.machine n).1
  · intro n p hp
    exact Or.inl ((hC.machine n).2 p hp)

/-- The conditions under which state machines are safe. -/
def readsRightly (cfg : Config N) (c : Cluster N P) (ev : Event N P) : Bool :=
  readsWholeLog cfg c ev && electedAppend c ev && freshResponse c ev

theorem Safe.step_readsRightly (h : Safe cfg c) {ev : Event N P}
    (hcond : readsRightly cfg c ev = true) (hs : cfg.step c ev = some c') : Safe cfg c' := by
  simp only [readsRightly, Bool.and_eq_true] at hcond
  exact h.step hcond.1.2 hcond.1.1 hcond.2 hs

/-- **State machine safety**, in every run, with compaction, in which positions are read of logs
that nothing was compacted from, `propose` appends on elected nodes and success responses are
handled in the term of their request. -/
theorem state_machine_safety (cfg : Config N) (evs : List (Event N P)) (c : Cluster N P)
    (hrun : cfg.runWhile (readsRightly cfg) (Cluster.init N P) evs = some c) :
    StateMachineSafe c := by
  have hsafe : Safe cfg c :=
    Config.runWhile_induction (fun _ _ _ h hC hs => h.step_readsRightly hC hs) Safe.init hrun
  exact hsafe.stateMachineSafe

/-- Two nodes that compact as soon as they can. -/
def eagerNodes : Config (Fin 2) :=
  { twoNodes with threshold := fun _ => 1, threshold_pos := fun _ => le_rfl }

theorem state_machine_safety_eagerNodes :
    ∃ c, eagerNodes.runWhile (readsRightly eagerNodes) (Cluster.init (Fin 2) ℕ)
        (replicatedProposal ++ [.restart 0]) = some c ∧
      c.applied = [(0, 1, ⟨1, 1, .addAlert, 10⟩)] ∧ (c.disk 0).lastIncludedIndex = 1 ∧
      StateMachineSafe c := by
  have hrun : (eagerNodes.runWhile (readsRightly eagerNodes) (Cluster.init (Fin 2) ℕ)
      (replicatedProposal ++ [.restart 0])).map (fun c =>
        (c.applied, (c.disk 0).lastIncludedIndex)) =
      some ([(0, 1, ⟨1, 1, .addAlert, 10⟩)], 1) := by
    decide +kernel
  obtain ⟨c, hc, hfacts⟩ := Option.map_eq_some_iff.mp hrun
  obtain ⟨happlied, hsnap⟩ := Prod.mk.inj hfacts
  exact ⟨c, hc, happlied, hsnap,
    state_machine_safety eagerNodes (replicatedProposal ++ [.restart 0]) c hc⟩

/-- A node without peers that compacts as soon as it can. -/
def singleNode : Config (Fin 1) := ⟨[0], by decide, fun _ => 1, by decide⟩

/-- Node `0` is elected and appends three entries. -/
def threeProposals : List (Event (Fin 1) ℕ) :=
  electionEvents 0 0 [] ++ [.run (.proposeCheck 0 .addAlert 10), .run (.proposeAppend 0 0)] ++
    [.run (.proposeCheck 0 .addAlert 20), .run (.proposeAppend 0 1)] ++
    [.run (.proposeCheck 0 .addAlert 30), .run (.proposeAppend 0 2)]

/-- The snapshot of the first entry shifts the log: the third entry, at position `2`, is applied as
the second. -/
theorem state_machine_safety_counterexample :
    ¬∀ (cfg : Config (Fin 1)) (evs : List (Event (Fin 1) ℕ)) (c : Cluster (Fin 1) ℕ),
      cfg.run evs = some c → StateMachineSafe c := by
  intro h
  have hrun : (singleNode.run threeProposals).map Cluster.applied =
      some [(0, 2, ⟨3, 1, .addAlert, 30⟩), (0, 1, ⟨1, 1, .addAlert, 10⟩)] := by
    decide +kernel
  obtain ⟨c, hc, happlied⟩ := Option.map_eq_some_iff.mp hrun
  have hthird : CountsApplied c 0 2 ⟨3, 1, .addAlert, 30⟩ := by
    refine Or.inl ?_
    rw [happlied]
    decide
  exact absurd ((h singleNode threeProposals c hc).index 0 2 _ hthird) (by decide)

/-! ## `propose` -/

/-- What `propose` reports as committed is: the entry it appended is applied at the reported index,
and no other entry ever is. -/
def ProposesSoundly (c : Cluster N P) : Prop :=
  ∀ n o r, (n, o, r) ∈ c.results → r.success = true → ∃ e, o = some e ∧ CountsApplied c n r.index e ∧
    ∀ m e', CountsApplied c m r.index e' → e' = e

/-- A `propose` that finds its index committed still has its entry: in the log, or among what the
node has applied. -/
def entryHeld [DecidableEq P] (c : Cluster N P) (ev : Event N P) : Bool :=
  match ev.action? with
  | some (.proposePoll n i) => (c.proposals n)[i]?.all fun call => match call with
      | .waiting entry => decide ((c.node n).commitIndex < entry.index) ||
          decide (entry ∈ (c.node n).log) || decide ((entry.index, entry) ∈ (c.node n).stateMachine)
      | .checked _ _ => true
  | _ => true

/-- A committed entry of a node's log is what the node has applied at its index. -/
theorem Commits.applied_of_mem_log (h : Commits cfg c s) (href : Refines cfg c s)
    {e : LogEntry P} (he : e ∈ (c.node n).log) (hcommit : e.index ≤ (c.node n).commitIndex) :
    (n, e.index, e) ∈ c.applied := by
  have hal := href.sound.aligned_log n
  rw [(href.node n).log] at he
  obtain ⟨hpos, hget⟩ := hal.mem_iff.mp (List.mem_of_mem_drop he)
  have hsettled := (h.committed n).settled hpos hcommit hget
  have hmem : e.index ∈ (c.node n).stateMachine.map Prod.fst := by
    rw [(h.machine n).1, List.mem_range'_1, h.caught n]
    omega
  obtain ⟨⟨k, e'⟩, hp, rfl⟩ := List.mem_map.mp hmem
  have happ := (h.machine n).2 _ hp
  rwa [(h.applied happ).unique href.sound.inv hsettled] at happ

/-- Every result that reports success is of an entry its node has applied. -/
def Answered (c : Cluster N P) : Prop :=
  ∀ n o r, (n, o, r) ∈ c.results → r.success = true →
    ∃ e, o = some e ∧ r.index = e.index ∧ (n, e.index, e) ∈ c.applied

/-- The results a block adds. -/
theorem Config.Runs.calls_results {a : Action N P} {b : Block N P} (hb : cfg.Runs c a b)
    (x : Cluster N P) {n : N} {o : Option (LogEntry P)} {r : ProposeResult}
    (hr : (n, o, r) ∈ (b.calls x).results) (hsucc : r.success = true) :
    (n, o, r) ∈ x.results ∨ ∃ i e, a = .proposePoll n i ∧ o = some e ∧ r.index = e.index ∧
      (c.proposals n)[i]? = some (.waiting e) ∧ e.index ≤ (c.node n).commitIndex := by
  cases hb with
  | proposeRefuse =>
      rcases List.mem_cons.mp hr with heq | hr
      · obtain ⟨-, -, rfl⟩ := heq
        cases hsucc
      · exact Or.inl hr
  | @proposeDone m i entry hcall hcommit =>
      rcases List.mem_cons.mp hr with heq | hr
      · obtain ⟨rfl, rfl, rfl⟩ := heq
        exact Or.inr ⟨i, entry, rfl, rfl, rfl, hcall, hcommit⟩
      · exact Or.inl hr
  | proposeLost =>
      rcases List.mem_cons.mp hr with heq | hr
      · obtain ⟨-, -, rfl⟩ := heq
        cases hsucc
      · exact Or.inl hr
  | proposeTimeout =>
      rcases List.mem_cons.mp hr with heq | hr
      · obtain ⟨-, -, rfl⟩ := heq
        cases hsucc
      · exact Or.inl hr
  | _ => exact Or.inl hr

theorem Answered.step [DecidableEq P] (h : Answered c) (hsafe : Safe cfg c) {ev : Event N P}
    (hheld : entryHeld c ev = true) (hs : cfg.step c ev = some c') : Answered c' := by
  obtain ⟨s, href, hC⟩ := hsafe.commits
  obtain ⟨a, b, hb, ⟨rfl, rfl⟩ | ⟨k, -, rfl⟩⟩ := Config.step_cases hs
  · have hruns := Config.runs_of_block hb
    have happ : (b.calls (c.runBlock b.actor b.node b.effects)).applied =
        (c.perform b.actor b.effects).applied := (hruns.calls_frame _).2.2.1
    intro n o r hr hsucc
    rw [happ]
    rcases hruns.calls_results _ hr hsucc with hr | ⟨i, e, rfl, rfl, hidx, hcall, hcommit⟩
    · obtain ⟨e, ho, hidx, he⟩ := h n o r ((c.perform_results _ _) ▸ hr) hsucc
      exact ⟨e, ho, hidx, applied_subset_perform _ _ _ he⟩
    · refine ⟨e, rfl, hidx, applied_subset_perform _ _ _ ?_⟩
      simp only [entryHeld, Event.action?, hcall, Option.all_some, Bool.or_eq_true,
        decide_eq_true_eq] at hheld
      rcases hheld with (hlt | hlog) | hmachine
      · omega
      · exact hC.applied_of_mem_log href hlog hcommit
      · exact (hC.machine n).2 _ hmachine
  · intro n o r hr hsucc
    obtain ⟨e, ho, hidx, he⟩ := h n o r ((c.perform_results _ _) ▸ hr) hsucc
    exact ⟨e, ho, hidx, applied_subset_perform _ _ _ he⟩

/-- The conditions under which `propose` is sound. -/
def reportsRightly [DecidableEq P] (cfg : Config N) (c : Cluster N P) (ev : Event N P) : Bool :=
  readsRightly cfg c ev && entryHeld c ev

/-- **Soundness of `propose`**, in every run that keeps state machines safe and in which each
`propose` that reports success still has the entry it appended. -/
theorem propose_sound [DecidableEq P] (cfg : Config N) (evs : List (Event N P)) (c : Cluster N P)
    (hrun : cfg.runWhile (reportsRightly cfg) (Cluster.init N P) evs = some c) :
    ProposesSoundly c := by
  have hinv : Safe cfg c ∧ Answered c := by
    refine Config.runWhile_induction (I := fun c => Safe cfg c ∧ Answered c)
      (fun c ev c' h hC hs => ?_) ⟨Safe.init, ?_⟩ hrun
    · simp only [reportsRightly, Bool.and_eq_true] at hC
      exact ⟨h.1.step_readsRightly hC.1 hs, h.2.step h.1 hC.2 hs⟩
    · intro n o r hr
      simp [Cluster.init] at hr
  intro n o r hr hsucc
  obtain ⟨e, ho, hidx, he⟩ := hinv.2 n o r hr hsucc
  rw [hidx]
  exact ⟨e, ho, Or.inl he, fun m e' he' => hinv.1.stateMachineSafe.agree m n _ e' e he' (Or.inl he)⟩

theorem propose_sound_replicatedProposal :
    ∃ c, twoNodes.runWhile (reportsRightly twoNodes) (Cluster.init (Fin 2) ℕ)
        (replicatedProposal ++ [.run (.proposePoll 0 0)]) = some c ∧
      c.results = [(0, some ⟨1, 1, .addAlert, 10⟩, ⟨true, 1, none⟩)] ∧ ProposesSoundly c := by
  have hrun : (twoNodes.runWhile (reportsRightly twoNodes) (Cluster.init (Fin 2) ℕ)
      (replicatedProposal ++ [.run (.proposePoll 0 0)])).map Cluster.results =
        some [(0, some ⟨1, 1, .addAlert, 10⟩, ⟨true, 1, none⟩)] := by
    decide +kernel
  obtain ⟨c, hc, hresults⟩ := Option.map_eq_some_iff.mp hrun
  exact ⟨c, hc, hresults,
    propose_sound twoNodes (replicatedProposal ++ [.run (.proposePoll 0 0)]) c hc⟩

/-- Node `n` leads term `1` and appends an entry it does not replicate. Node `m` leads term `2` with
the vote of node `v`, appends and commits another entry at the same index and replicates it to node
`n`, which drops its own. Then the `propose` on node `n` looks at its commit index. -/
def overwrittenProposal (n v m : N) : List (Event N ℕ) :=
  electionEvents n 0 [true, true] ++
    [.run (.proposeCheck n .addAlert 10), .run (.proposeAppend n 0)] ++
    electionEvents m 2 [false, true] ++
    [.run (.proposeCheck m .addAlert 20), .run (.proposeAppend m 0)] ++
    replicateEvents m v 0 ++ replicateEvents m n 1 ++ [.run (.proposePoll n 0)]

/-- `propose` reports the index of an entry that was overwritten before it was committed. -/
theorem propose_sound_counterexample :
    ¬∀ (cfg : Config (Fin 3)) (evs : List (Event (Fin 3) ℕ)) (c : Cluster (Fin 3) ℕ),
      cfg.run evs = some c → ProposesSoundly c := by
  intro h
  have hrun : (threeNodes.run (overwrittenProposal 0 1 2)).map (fun c =>
      decide (c.results = [(0, some ⟨1, 1, .addAlert, 10⟩, ⟨true, 1, none⟩)] ∧
        c.applied = [(0, 1, ⟨1, 2, .addAlert, 20⟩), (2, 1, ⟨1, 2, .addAlert, 20⟩)])) =
      some true := by
    decide +kernel
  obtain ⟨c, hc, hfacts⟩ := Option.map_eq_some_iff.mp hrun
  obtain ⟨hresults, happlied⟩ := of_decide_eq_true hfacts
  obtain ⟨e, he, -, honly⟩ := h threeNodes (overwrittenProposal 0 1 2) c hc 0 _ _
    (by rw [hresults]; exact List.mem_singleton_self _) rfl
  have hother : CountsApplied c 0 1 ⟨1, 2, .addAlert, 20⟩ := by
    refine Or.inl ?_
    rw [happlied]
    decide
  have hsame := honly 0 _ hother
  rw [← Option.some.inj he] at hsame
  exact absurd hsame (by decide)

end NanoFabric.Raft
