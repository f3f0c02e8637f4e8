import NanoFabric.Raft.Delivery

/-!
# The invariant of commits

What a node counts as committed, has applied, or tells its followers is committed, is a prefix
chosen in the abstract protocol.

* `Commits` — the invariant.
* `Commits.deliver`, `Commits.crash` — a block that delivers keeps it, and so does a crash within.
* `Commits.delivers_…`, `Simulates.delivers` — every block delivers.
* `Commits.step_run` — every block keeps it.
-/

namespace NanoFabric.Raft

open Found Found.ReplicatedLog

variable {N P : Type} [DecidableEq N]

/-! ## The invariant -/

/-- The entries a state machine of node `n` was made from: the first `k` positions in order, each
handed to `apply` on the node. -/
def Whole (c : Cluster N P) (n : N) (es : Applied P) (k : ℕ) : Prop :=
  es.map Prod.fst = List.range' 1 k ∧ ∀ p ∈ es, (n, p.1, p.2) ∈ c.applied

/-- A request carries a commit index that its leader's chain has committed, and the entries up to
it. -/
def SentCommitted (cfg : Config N) (s : AbstractLog N P) (req : AppendEntriesRequest N P) : Prop :=
  CommittedUpTo LogEntry.term cfg.quorums s req.term (s.chain req.term) req.leaderCommit ∧
    req.leaderCommit ≤ req.prevLogIndex + req.entries.length

/-- **The invariant of commits**, over the simulation relation. -/
structure Commits (cfg : Config N) (c : Cluster N P) (s : AbstractLog N P) : Prop where
  /-- The match indexes of a node elected in its term are acknowledged in that term. -/
  matched : ∀ n, (n, (c.node n).currentTerm) ∈ c.elected → ∀ p ∈ cfg.peers n,
    ((c.node n).matchIndex p).getD 0 ≤ s.acked (c.node n).currentTerm p
  /-- What a node counts as committed is. -/
  committed : ∀ n, CommittedUpTo LogEntry.term cfg.quorums s (s.term n) (s.log n)
    (c.node n).commitIndex
  /-- A node has applied what it has committed. -/
  caught : ∀ n, (c.node n).lastApplied = (c.node n).commitIndex
  /-- A snapshot is of committed entries. -/
  snap_le : ∀ n, (c.node n).snapshotIndex ≤ (c.node n).commitIndex
  /-- Requests that continue their leader's chain. -/
  sent : ∀ {rpc}, rpc ∈ c.appendRpcs → Chained s rpc.request → SentCommitted cfg s rpc.request
  /-- What was handed to `apply` is settled. -/
  applied : ∀ {n k e}, (n, k, e) ∈ c.applied → Settled LogEntry.term cfg.quorums s k e
  /-- State machines in memory. -/
  machine : ∀ n, Whole c n (c.node n).stateMachine (c.node n).lastApplied
  /-- State machines in storage. -/
  data : ∀ n, Whole c n (c.disk n).data (c.disk n).lastIncludedIndex

variable {cfg : Config N} {c c' : Cluster N P} {s s' s'' : AbstractLog N P} {n : N}
  {nd nd' : RaftNode N P} {effs : List (Effect N P)} {rpc : AppendRpc N P}

theorem Commits.init : Commits cfg (Cluster.init N P) (LogState.init N (LogEntry P)) where
  matched n hn := by simp [Cluster.init] at hn
  committed _ := Or.inl rfl
  caught _ := rfl
  snap_le _ := le_rfl
  sent h := by simp [Cluster.init] at h
  applied h := by simp [Cluster.init] at h
  machine _ := ⟨rfl, nofun⟩
  data _ := ⟨rfl, nofun⟩

omit [DecidableEq N] in
theorem Whole.mono {es : Applied P} {k : ℕ} (h : Whole c n es k) (hsub : c.applied ⊆ c'.applied) :
    Whole c' n es k :=
  ⟨h.1, fun p hp => hsub (h.2 p hp)⟩

theorem SentCommitted.grows {req : AppendEntriesRequest N P} (h : SentCommitted cfg s req)
    (hg : Grows s s') : SentCommitted cfg s' req :=
  ⟨h.1.grows hg (hg.chain _), h.2⟩

/-- A request that names a previous entry without a term never continues a chain. -/
theorem Sent.chained (h : Sent s rpc) (hs : Sound cfg s') (hc : Chained s' rpc.request) :
    Chained s rpc.request := by
  rcases h.entries with h | ⟨hpos, hzero⟩
  · exact h
  · obtain ⟨e, he, het⟩ := Option.map_eq_some_iff.mp (hc.prev hpos)
    have := hs.pos (List.mem_of_getElem? he)
    omega

/-! ## What a delivery records -/

/-- The entries a block delivers are settled. -/
theorem Delivers.settled (h : Delivers cfg s' n nd nd' effs) {k : ℕ} {e : LogEntry P}
    (he : (k, e) ∈ delivered s' n nd nd') : Settled LogEntry.term cfg.quorums s' k e := by
  obtain ⟨hlt, hle, hget⟩ := mem_entriesFrom.mp he
  have := h.le
  have := h.caught
  exact h.committed.settled (by omega) (by omega) hget

/-- The calls of `apply` among the effects of a block are those of its delivery. -/
theorem Delivers.mem_applyEffects (h : Delivers cfg s' n nd nd' effs) {k : ℕ} {e : LogEntry P} :
    Effect.apply k e ∈ effs ↔ (k, e) ∈ delivered s' n nd nd' := by
  obtain ⟨changes, saved, rfl, hno, hsaves⟩ := h.split
  rw [List.mem_append, List.mem_append, NanoFabric.Raft.mem_applyEffects]
  constructor
  · rintro (hc | hd | hsv)
    · cases hno _ hc
    · exact hd
    · rcases hsaves with ⟨rfl, -⟩ | ⟨-, term, rfl⟩
      · cases hsv
      · simp at hsv
  · exact fun hd => Or.inr (Or.inl hd)

omit [DecidableEq N] in
theorem isSnapshot_of_isOutput {e : Effect N P} (h : e.isOutput = false) : e.isSnapshot = false := by
  cases e <;> first | rfl | cases h

omit [DecidableEq N] in
theorem isSnapshot_applyEffects (es : Applied P) :
    ∀ e ∈ applyEffects (N := N) es, e.isSnapshot = false := by
  intro e he
  obtain ⟨p, -, rfl⟩ := List.mem_map.mp he
  rfl

theorem applied_subset_perform (c : Cluster N P) (n : N) (effs : List (Effect N P)) :
    c.applied ⊆ (c.perform n effs).applied :=
  fun _ hv => Cluster.mem_perform_applied.mpr (Or.inl hv)

/-- The state machine a block leaves is whole. -/
theorem Delivers.whole (h : Delivers cfg s' n nd nd' effs)
    (hw : Whole c n nd.stateMachine nd.lastApplied) :
    Whole (c.perform n effs) n nd'.stateMachine nd'.lastApplied := by
  have hlen := h.committed.le_length
  have hle := h.le
  have hcaught := h.caught
  rw [h.stateMachine]
  refine ⟨?_, fun p hp => Cluster.mem_perform_applied.mpr ?_⟩
  · rw [List.map_append, hw.1, entriesFrom_fst (by omega), Nat.add_comm nd.lastApplied 1,
      List.range'_append_1]
    congr 1
    omega
  · rcases List.mem_append.mp hp with hp | hp
    · exact Or.inl (hw.2 p hp)
    · exact Or.inr ⟨rfl, h.mem_applyEffects.mpr hp⟩

/-- The snapshot in storage while a block runs is the old one, or, at its end, one of all that its
node has applied. -/
theorem Delivers.stored (h : Delivers cfg s' n nd nd' effs) (d : RaftStorage N P) (k : ℕ) :
    (((effs.take k).foldl RaftStorage.perform d).lastIncludedIndex = d.lastIncludedIndex ∧
      ((effs.take k).foldl RaftStorage.perform d).data = d.data) ∨
    (effs.take k = effs ∧
      ((effs.take k).foldl RaftStorage.perform d).lastIncludedIndex = nd'.lastApplied ∧
      ((effs.take k).foldl RaftStorage.perform d).data = nd'.stateMachine) := by
  obtain ⟨changes, saved, rfl, hno, hsaves⟩ := h.split
  have hquiet : ∀ e ∈ changes ++ applyEffects (delivered s' n nd nd'), e.isSnapshot = false := by
    intro e he
    rcases List.mem_append.mp he with he | he
    · exact isSnapshot_of_isOutput (hno e he)
    · exact isSnapshot_applyEffects _ e he
  rw [← List.append_assoc]
  rcases Nat.lt_or_ge (changes ++ applyEffects (delivered s' n nd nd')).length k with hk | hk
  · rcases hsaves with ⟨rfl, -⟩ | ⟨-, term, rfl⟩
    · rw [List.append_nil]
      exact Or.inl (snapshot_foldl fun e he => hquiet e (List.mem_of_mem_take he))
    · rw [List.take_of_length_le (by rw [List.length_append, List.length_singleton]; exact hk),
        List.foldl_append]
      exact Or.inr ⟨rfl, rfl, rfl⟩
  · rw [List.take_append_of_le_length hk]
    exact Or.inl (snapshot_foldl fun e he => hquiet e (List.mem_of_mem_take he))

/-! ## What steps keep -/

/-- The parts of the invariant that are about what has been recorded, after a block or a part of
one. -/
theorem Commits.deliver (h : Commits cfg c s) (href : Refines cfg c s)
    (hmoved : cfg.Moved s s') (hnode : c'.node = Function.update c.node n nd')
    (hdisk : c'.disk = (c.perform n effs).disk) (happ : c'.applied = (c.perform n effs).applied)
    (hd : Delivers cfg s' n (c.node n) nd' effs)
    (helected : ∀ m t, (m, t) ∈ c'.elected → m ≠ n → (m, t) ∈ c.elected)
    (hmatch : (n, nd'.currentTerm) ∈ c'.elected → ∀ p ∈ cfg.peers n,
      (nd'.matchIndex p).getD 0 ≤ s'.acked nd'.currentTerm p)
    (hsent : ∀ rpc ∈ c'.appendRpcs, Chained s' rpc.request → SentCommitted cfg s' rpc.request) :
    Commits cfg c' s' := by
  have hg := Steps.grows hmoved href.sound.inv
  have hself : c'.node n = nd' := by rw [hnode, Function.update_self]
  have hother : ∀ {m}, m ≠ n → c'.node m = c.node m := fun hm => by
    rw [hnode, Function.update_of_ne hm]
  have hkept : ∀ m, CommittedUpTo LogEntry.term cfg.quorums s' (s'.term m) (s'.log m)
      (c.node m).commitIndex := fun m => (h.committed m).kept hmoved href.sound.inv
  have hsub : c.applied ⊆ c'.applied := happ ▸ applied_subset_perform c n effs
  have hwhole : Whole c' n nd'.stateMachine nd'.lastApplied :=
    (hd.whole (h.machine n)).mono (happ ▸ List.Subset.refl _)
  refine ⟨fun m => ?_, fun m => ?_, fun m => ?_, fun m => ?_, hsent _, fun {m k e} hm => ?_,
    fun m => ?_, fun m => ?_⟩
  · by_cases hm : m = n
    · subst hm
      rw [hself]
      exact hmatch
    · rw [hother hm]
      exact fun hel p hp => (h.matched m (helected _ _ hel hm) p hp).trans (hg.acked _ p)
  · by_cases hm : m = n
    · subst hm
      rw [hself]
      exact hd.committed
    · rw [hother hm]
      exact hkept m
  · by_cases hm : m = n
    · subst hm
      rw [hself]
      exact hd.caught
    · rw [hother hm]
      exact h.caught m
  · by_cases hm : m = n
    · subst hm
      rw [hself]
      obtain ⟨-, saved, -, -, ⟨-, hs⟩ | ⟨hs, -⟩⟩ := hd.split
      · have := h.snap_le m
        have := h.caught m
        have := hd.caught
        have := hd.le
        omega
      · exact (hs.trans hd.caught).le
    · rw [hother hm]
      exact h.snap_le m
  · rw [happ] at hm
    rcases Cluster.mem_perform_applied.mp hm with hold | ⟨rfl, he⟩
    · exact (h.applied hold).grows hg
    · exact hd.settled (hd.mem_applyEffects.mp he)
  · by_cases hm : m = n
    · subst hm
      rw [hself]
      exact hwhole
    · rw [hother hm]
      exact (h.machine m).mono hsub
  · rw [hdisk]
    by_cases hm : m = n
    · subst hm
      rw [Cluster.perform_disk_self]
      have hstored := hd.stored (c.disk m) effs.length
      rw [List.take_length] at hstored
      rcases hstored with ⟨hidx, hdata⟩ | ⟨-, hidx, hdata⟩
      · rw [hidx, hdata]
        exact (h.data m).mono hsub
      · rw [hidx, hdata]
        exact hwhole
    · rw [Cluster.perform_disk_of_ne hm]
      exact (h.data m).mono hsub

/-- Requests in flight stay what they are. -/
theorem Commits.sent_grows (h : Commits cfg c s) (href : Refines cfg c s) (hs : Sound cfg s')
    (hg : Grows s s') (hr : rpc ∈ c.appendRpcs) (hc : Chained s' rpc.request) :
    SentCommitted cfg s' rpc.request :=
  (h.sent hr ((href.sent hr).chained hs hc)).grows hg

omit [DecidableEq N] in
/-- A node starts again with the commit index of its snapshot. -/
theorem Whole.boot {d : RaftStorage N P} (h : Whole c n d.data d.lastIncludedIndex) :
    Whole c n (RaftNode.boot d).stateMachine (RaftNode.boot d).lastApplied := by
  rw [RaftNode.boot_eq]
  by_cases h0 : d.lastIncludedIndex = 0
  · simp [Whole, h0]
  · simpa [h0] using h

/-- A crash within a block. -/
theorem Commits.crash (h : Commits cfg c s) (href : Refines cfg c s) {k : ℕ}
    (href' : Refines cfg ((c.perform n (effs.take k)).restart n) s'') (hmoved : cfg.Moved s s'')
    (hd : Delivers cfg s' n (c.node n) nd' effs)
    (hcase : s'' = s' ∨ ∀ e ∈ effs.take k, e.isOutput = false) :
    Commits cfg ((c.perform n (effs.take k)).restart n) s'' := by
  have hg := Steps.grows hmoved href.sound.inv
  have hkept : ∀ m, CommittedUpTo LogEntry.term cfg.quorums s'' (s''.term m) (s''.log m)
      (c.node m).commitIndex := fun m => (h.committed m).kept hmoved href.sound.inv
  have hsub : c.applied ⊆ (c.perform n (effs.take k)).applied := applied_subset_perform c n _
  have hdisk : (c.perform n (effs.take k)).disk n =
      (effs.take k).foldl RaftStorage.perform (c.disk n) := Cluster.perform_disk_self n _ c
  have hself : ((c.perform n (effs.take k)).restart n).node n =
      RaftNode.boot ((c.perform n (effs.take k)).disk n) := Function.update_self ..
  have hother : ∀ {m}, m ≠ n →
      ((c.perform n (effs.take k)).restart n).node m = c.node m := fun {m} hm => by
    show Function.update (c.perform n (effs.take k)).node n _ m = c.node m
    rw [Function.update_of_ne hm, Cluster.perform_node]
  -- the snapshot in storage is the old one, or the new one in the state the whole block reaches
  obtain ⟨hdata, hle⟩ : Whole (c.perform n (effs.take k)) n
      ((c.perform n (effs.take k)).disk n).data
      ((c.perform n (effs.take k)).disk n).lastIncludedIndex ∧
      CommittedUpTo LogEntry.term cfg.quorums s'' (s''.term n) (s''.log n)
        ((c.perform n (effs.take k)).disk n).lastIncludedIndex := by
    have hold : CommittedUpTo LogEntry.term cfg.quorums s'' (s''.term n) (s''.log n)
        (c.disk n).lastIncludedIndex := (hkept n).mono (href.snap n ▸ h.snap_le n)
    rw [hdisk]
    rcases hd.stored (c.disk n) k with ⟨hidx, hdata⟩ | ⟨hall, hidx, hdata⟩
    · rw [hidx, hdata]
      exact ⟨(h.data n).mono hsub, hold⟩
    · rw [hidx, hdata, hall]
      refine ⟨hd.whole (h.machine n), ?_⟩
      rcases hcase with rfl | hno
      · exact hd.caught ▸ hd.committed
      · -- without outputs there is no snapshot either
        have hsame := (snapshot_foldl (d := c.disk n) fun e he =>
          isSnapshot_of_isOutput (hno e he)).1
        rw [hidx] at hsame
        exact hsame ▸ hold
  refine ⟨fun m => ?_, fun m => ?_, fun m => ?_, fun m => ?_, fun {r} hr => ?_,
    fun {m k' e} hm => ?_, fun m => ?_, fun m => ?_⟩
  · by_cases hm : m = n
    · subst hm
      rw [hself, RaftNode.boot_eq]
      exact fun _ _ _ => Nat.zero_le _
    · rw [hother hm]
      intro hel p hp
      have hel' : (m, (c.node m).currentTerm) ∈ c.elected :=
        (c.perform_elected n (effs.take k)) ▸ hel
      exact (h.matched m hel' p hp).trans (hg.acked _ p)
  · by_cases hm : m = n
    · subst hm
      rw [hself, RaftNode.boot_eq]
      exact hle
    · rw [hother hm]
      exact hkept m
  · by_cases hm : m = n
    · subst hm
      rw [hself, RaftNode.boot_eq]
    · rw [hother hm]
      exact h.caught m
  · by_cases hm : m = n
    · subst hm
      rw [hself, RaftNode.boot_eq]
    · rw [hother hm]
      exact h.snap_le m
  · intro hc
    obtain ⟨r₀, hr₀, rfl⟩ := List.mem_map.mp hr
    have hreq : (if r₀.sender = n then { r₀ with waiting := false } else r₀).request =
        r₀.request := by split_ifs <;> rfl
    rw [hreq] at hc ⊢
    exact h.sent_grows href href'.sound hg ((c.perform_appendRpcs n (effs.take k)) ▸ hr₀) hc
  · rcases Cluster.mem_perform_applied.mp hm with hold | ⟨rfl, he⟩
    · exact (h.applied hold).grows hg
    · rcases hcase with rfl | hno
      · exact hd.settled (hd.mem_applyEffects.mp (List.mem_of_mem_take he))
      · cases hno _ he
  · by_cases hm : m = n
    · subst hm
      rw [hself]
      exact hdata.boot
    · rw [hother hm]
      exact (h.machine m).mono hsub
  · by_cases hm : m = n
    · subst hm
      exact hdata
    · show Whole _ m ((c.perform n (effs.take k)).disk m).data
        ((c.perform n (effs.take k)).disk m).lastIncludedIndex
      rw [Cluster.perform_disk_of_ne hm]
      exact (h.data m).mono hsub

/-! ## Every block delivers -/

/-- The responses that a block counts are handled in the term their requests were sent in. -/
def Fresh (c : Cluster N P) (a : Action N P) : Prop :=
  ∀ i rpc resp, a = .replicateReply i → c.appendRpcs[i]? = some rpc → rpc.response = some resp →
    resp.success = true → (c.node rpc.sender).currentTerm = rpc.request.term

/-- What a block does to the match indexes: nothing, or they are acknowledged in the node's term. -/
def Counts (cfg : Config N) (s' : AbstractLog N P) (n : N) (nd nd' : RaftNode N P) : Prop :=
  nd'.matchIndex = nd.matchIndex ∨
    ∀ p ∈ cfg.peers n, (nd'.matchIndex p).getD 0 ≤ s'.acked nd'.currentTerm p

/-- What a node has committed is still committed in it after moves. -/
theorem Commits.kept (h : Commits cfg c s) (href : Refines cfg c s) (hmoved : cfg.Moved s s')
    (n : N) : CommittedUpTo LogEntry.term cfg.quorums s' (s'.term n) (s'.log n)
      (c.node n).commitIndex :=
  (h.committed n).kept hmoved href.sound.inv

/-- A block of a node that leaves it as it is. -/
theorem Commits.delivers_self (h : Commits cfg c s) (href : Refines cfg c s)
    (hmoved : cfg.Moved s s') (n : N) : Delivers cfg s' n (c.node n) (c.node n) [] :=
  .of_idle ⟨rfl, rfl, rfl, rfl, rfl, by simp⟩ (h.caught n) (h.kept href hmoved n)

/-- The locked append of `propose`. -/
theorem Commits.delivers_proposeLocked (h : Commits cfg c s) (href : Refines cfg c s)
    (hE : Elections cfg c) (hmoved : cfg.Moved s s') (hs : Sound cfg s') {command : CommandType}
    {payload : P} (hel : (n, (c.node n).currentTerm) ∈ c.elected)
    (hsnap : cfg.peers n = [] → (c.node n).snapshotIndex = 0)
    (hterm : s'.term n = (c.node n).currentTerm)
    (hlog : s'.log n = s.log n ++
      [((c.node n).proposeLocked (cfg.threshold n) (cfg.peers n) command payload).2.2]) :
    Delivers cfg s' n (c.node n)
        ((c.node n).proposeLocked (cfg.threshold n) (cfg.peers n) command payload).1
        ((c.node n).proposeLocked (cfg.threshold n) (cfg.peers n) command payload).2.1 ∧
      ((c.node n).proposeLocked (cfg.threshold n) (cfg.peers n) command payload).1.matchIndex =
        (c.node n).matchIndex := by
  have hg := Steps.grows hmoved href.sound.inv
  have hidle : Idle (c.node n) ((c.node n).appendLocalEntry command payload).1
      ((c.node n).appendLocalEntry command payload).2.1 :=
    ⟨rfl, rfl, rfl, rfl, rfl, by simp [RaftNode.appendLocalEntry, Effect.isOutput]⟩
  rcases RaftNode.proposeLocked_cases (cfg.threshold n) (cfg.peers n) (c.node n) command payload with
    ⟨-, heq⟩ | ⟨hpeers, heq⟩
  · rw [heq]
    exact ⟨.of_idle hidle (h.caught n) (h.kept href hmoved n), rfl⟩
  · rw [heq] at hlog ⊢
    have hadv := delivers_advanceCommitIndex ((c.node n).appendLocalEntry command payload).1
      hs ?_ hterm (hg.leader (href.leads hel)) (hE.member hel) ?_ (h.caught n)
      (h.kept href hmoved n) (cfg.threshold n)
    · exact ⟨.of_idle_append hidle hadv, (RaftNode.advanceCommitIndex_peers ..).2⟩
    · rw [hlog, ← (href.node n).log_eq (hsnap hpeers)]
      rfl
    · intro p hp
      rw [hpeers] at hp
      cases hp

/-- `handle_append_entries`: what a request's commit index covers is in the log that has accepted
it. -/
theorem Commits.delivers_handleAppendEntries (h : Commits cfg c s) (href : Refines cfg c s)
    (hmoved : cfg.Moved s s') (hs : Sound cfg s') (hr : rpc ∈ c.appendRpcs)
    (hnode : HoldsNode s' rpc.peer ((c.node rpc.peer).handleAppendEntries rpc.request).1)
    (hsnap : (c.node rpc.peer).currentTerm ≤ rpc.request.term →
      (c.node rpc.peer).snapshotIndex = 0)
    (hanswer : ((c.node rpc.peer).handleAppendEntries rpc.request).2.2.success = true →
      Chained s' rpc.request ∧
        rpc.request.prevLogIndex + rpc.request.entries.length ≤
          s'.acked rpc.request.term rpc.peer) :
    Delivers cfg s' rpc.peer (c.node rpc.peer)
        ((c.node rpc.peer).handleAppendEntries rpc.request).1
        ((c.node rpc.peer).handleAppendEntries rpc.request).2.1 ∧
      ((c.node rpc.peer).handleAppendEntries rpc.request).1.matchIndex =
        (c.node rpc.peer).matchIndex := by
  have hg := Steps.grows hmoved href.sound.inv
  have hkept := h.kept href hmoved rpc.peer
  rcases RaftNode.handleAppendEntries_cases (c.node rpc.peer) rpc.request with
    ⟨-, heq⟩ | ⟨nd', effs, hle, rfl, rfl, heq | ⟨-, heq⟩⟩
  · rw [heq]
    exact ⟨h.delivers_self href hmoved rpc.peer, rfl⟩
  · rw [heq]
    have hidle := (c.node rpc.peer).idle_becomeFollower rpc.request.term (some rpc.request.leaderId)
    exact ⟨.of_idle hidle (h.caught _) hkept, hidle.matchIndex⟩
  rw [heq] at hnode hanswer ⊢
  have hfol := (c.node rpc.peer).idle_becomeFollower rpc.request.term (some rpc.request.leaderId)
  set nd₁ : RaftNode N P :=
    { ((c.node rpc.peer).becomeFollower rpc.request.term (some rpc.request.leaderId)).1 with
      log := (RaftNode.appendLoop (N := N) (c.node rpc.peer).log rpc.request.entries).1 } with hnd₁
  have hidle : Idle (c.node rpc.peer) nd₁
      (((c.node rpc.peer).becomeFollower rpc.request.term (some rpc.request.leaderId)).2 ++
        (RaftNode.appendLoop (c.node rpc.peer).log rpc.request.entries).2 ++
        RaftNode.storeEntries rpc.request.entries) := by
    refine ⟨hfol.commitIndex, hfol.lastApplied, hfol.snapshotIndex, hfol.stateMachine,
      hfol.matchIndex, fun e he => ?_⟩
    rcases List.mem_append.mp he with he | he
    · exact (List.mem_append.mp he).elim (hfol.noOutput e) (RaftNode.isOutput_appendLoop _ _ e)
    · exact RaftNode.isOutput_storeEntries _ e he
  obtain ⟨-, hsamelog, hsamesnap, -, hsamematch⟩ := nd₁.followCommit_frame rpc.request.leaderCommit
  -- the node is in the term of the request, so its log has what it acknowledged
  have hterm : s'.term rpc.peer = rpc.request.term := by
    rw [hnode.term, (RaftNode.quiet_followCommit _ _).term]
    exact (RaftNode.becomeFollower_currentTerm _ _ (some rpc.request.leaderId)).trans
      (max_eq_right hle)
  obtain ⟨hchained, hacked⟩ := hanswer rfl
  obtain ⟨hsent, hcover⟩ := h.sent_grows href hs hg hr hchained
  have hnow := hs.inv.acked_now rpc.peer
  rw [hterm] at hnow
  have hleader : CommittedUpTo LogEntry.term cfg.quorums s' (s'.term rpc.peer) (s'.log rpc.peer)
      rpc.request.leaderCommit :=
    hsent.transfer hterm.ge ((List.take_prefix_take_left (hcover.trans hacked)).trans hnow)
  have hlog : nd₁.log = s'.log rpc.peer := by
    rw [← hsamelog]
    exact hnode.log_eq (hsamesnap.trans (hidle.snapshotIndex.trans (hsnap hle)))
  have hcaught : nd₁.lastApplied = nd₁.commitIndex := by
    rw [hidle.lastApplied, hidle.commitIndex]
    exact h.caught _
  exact ⟨.of_idle_append hidle (delivers_followCommit hlog hcaught (hidle.commitIndex ▸ hkept)
    hleader), hsamematch.trans hidle.matchIndex⟩

omit [DecidableEq N] in
/-- The last entry of a request that continues a chain has the index of its place in it. -/
theorem Chained.last_index {req : AppendEntriesRequest N P} (h : Chained s req)
    (hal : Aligned (s.chain req.term)) {last : LogEntry P} (hlast : req.entries.getLast? = some last) :
    last.index = req.prevLogIndex + req.entries.length := by
  obtain ⟨front, hfront⟩ := List.getLast?_eq_some_iff.mp hlast
  have hlen : ((s.chain req.term).take req.prevLogIndex).length = req.prevLogIndex := by
    rw [List.length_take, min_eq_left h.le]
  have hget : (s.chain req.term)[req.prevLogIndex + front.length]? = some last := by
    refine getElem?_mono h.entries ?_
    rw [hfront, List.getElem?_append_right (by omega), hlen, Nat.add_sub_cancel_left,
      List.getElem?_append_right le_rfl, Nat.sub_self]
    rfl
  rw [hal _ _ hget, hfront, List.length_append, List.length_singleton, Nat.add_assoc]

/-- The response block of `_replicate_to_peer`, on a response to a request of the node's term. -/
theorem Commits.delivers_handleAppendResponse (h : Commits cfg c s) (href : Refines cfg c s)
    (hE : Elections cfg c) (hmoved : cfg.Moved s s') (hs : Sound cfg s') (hr : rpc ∈ c.appendRpcs)
    {resp : AppendEntriesResponse} (hresp : rpc.response = some resp)
    (hfresh : resp.success = true → (c.node rpc.sender).currentTerm = rpc.request.term)
    (hsnap : resp.success = true → (c.node rpc.sender).snapshotIndex = 0)
    (hlog : s'.log rpc.sender = s.log rpc.sender)
    (hterm : s'.term rpc.sender =
      (RaftNode.handleAppendResponse (cfg.threshold rpc.sender) (cfg.peers rpc.sender) rpc.peer
        rpc.request (c.node rpc.sender) resp).1.currentTerm) :
    Delivers cfg s' rpc.sender (c.node rpc.sender)
        (RaftNode.handleAppendResponse (cfg.threshold rpc.sender) (cfg.peers rpc.sender) rpc.peer
          rpc.request (c.node rpc.sender) resp).1
        (RaftNode.handleAppendResponse (cfg.threshold rpc.sender) (cfg.peers rpc.sender) rpc.peer
          rpc.request (c.node rpc.sender) resp).2 ∧
      Counts cfg s' rpc.sender (c.node rpc.sender)
        (RaftNode.handleAppendResponse (cfg.threshold rpc.sender) (cfg.peers rpc.sender) rpc.peer
          rpc.request (c.node rpc.sender) resp).1 := by
  have hg := Steps.grows hmoved href.sound.inv
  have hkept := h.kept href hmoved rpc.sender
  rcases RaftNode.handleAppendResponse_cases (cfg.threshold rpc.sender) (cfg.peers rpc.sender)
    rpc.peer rpc.request (c.node rpc.sender) resp with
    ⟨-, heq⟩ | ⟨-, hsucc, next, matched, hlast, hnil, heq⟩ | ⟨-, -, next, heq⟩
  · rw [heq]
    have hidle := (c.node rpc.sender).idle_becomeFollower resp.term none
    exact ⟨.of_idle hidle (h.caught _) hkept, Or.inl hidle.matchIndex⟩
  · rw [heq] at hterm ⊢
    have hsent := href.sent hr
    obtain ⟨hchained, hacked⟩ := hsent.answered resp hresp hsucc
    have hl := hsent.leader
    rw [← hfresh hsucc] at hl hacked
    -- the new match index is what the peer acknowledged
    have hmatched : matched ≤ rpc.request.prevLogIndex + rpc.request.entries.length := by
      cases hcase : rpc.request.entries.getLast? with
      | none =>
          rw [hnil (List.getLast?_eq_none_iff.mp hcase)]
          exact Nat.le_add_right _ _
      | some last =>
          rw [hlast last hcase]
          exact (hchained.last_index (href.sound.aligned _) hcase).le
    have hmatch : ∀ p ∈ cfg.peers rpc.sender,
        ((Function.update (c.node rpc.sender).matchIndex rpc.peer (some matched)) p).getD 0 ≤
          s'.acked (c.node rpc.sender).currentTerm p := by
      intro p hp
      refine le_trans ?_ (hg.acked _ p)
      by_cases hpeer : p = rpc.peer
      · rw [hpeer, Function.update_self]
        exact hmatched.trans hacked
      · rw [Function.update_of_ne hpeer]
        exact h.matched _ ((href.leader _ _).mp hl) p hp
    have hnd : (c.node rpc.sender).log = s'.log rpc.sender := by
      rw [hlog, (href.node _).log_eq (hsnap hsucc)]
    have hadv := delivers_advanceCommitIndex
      { c.node rpc.sender with
        nextIndex := next
        matchIndex := Function.update (c.node rpc.sender).matchIndex rpc.peer (some matched) }
      hs hnd (hterm.trans (RaftNode.quiet_advanceCommitIndex ..).term) (hg.leader hl) (hE.member ((href.leader _ _).mp hl)) hmatch (h.caught _)
      hkept (cfg.threshold rpc.sender)
    refine ⟨⟨hadv.split, hadv.stateMachine, hadv.caught, hadv.le, hadv.committed⟩, Or.inr ?_⟩
    rw [(RaftNode.advanceCommitIndex_peers ..).2, (RaftNode.quiet_advanceCommitIndex ..).term]
    exact hmatch
  · rw [heq]
    exact ⟨.of_idle ⟨rfl, rfl, rfl, rfl, rfl, by simp⟩ (h.caught _) hkept, Or.inl rfl⟩

/-- Only winning an election records a leader, with match indexes of zero. -/
theorem Config.Runs.calls_elected {a : Action N P} {b : Block N P} (hb : cfg.Runs c a b)
    (x : Cluster N P) : (b.calls x).elected = x.elected ∨
      (∃ t, (b.calls x).elected = (b.actor, t) :: x.elected) ∧
        ∀ p ∈ cfg.peers b.actor, (b.node.matchIndex p).getD 0 = 0 := by
  cases hb with
  | winElection n =>
      refine Or.inr ⟨⟨_, rfl⟩, fun p hp => ?_⟩
      show (if p ∈ cfg.peers n then some 0 else (c.node n).matchIndex p).getD 0 = 0
      rw [if_pos hp]
      rfl
  | _ => exact Or.inl rfl

/-- Only `_replicate_to_peer` sends a request. -/
theorem Config.Runs.calls_requests {a : Action N P} {b : Block N P} (hb : cfg.Runs c a b)
    {x : Cluster N P} (hx : x.appendRpcs = c.appendRpcs) (hr : rpc ∈ (b.calls x).appendRpcs) :
    (∃ r₀ ∈ c.appendRpcs, r₀.request = rpc.request) ∨
      (c.node b.actor).role = .leader ∧ b.node = c.node b.actor ∧
        (∃ peer, a = .replicate b.actor peer) ∧
        ∃ peer, rpc.request = (c.node b.actor).buildAppendEntries b.actor peer := by
  cases hb with
  | replicate n peer hn hpeer hrole =>
      rcases List.mem_append.mp hr with hr | hr
      · exact Or.inl ⟨rpc, hx ▸ hr, rfl⟩
      · rw [List.mem_singleton.mp hr]
        exact Or.inr ⟨hrole, rfl, ⟨peer, rfl⟩, peer, rfl⟩
  | handleAppendEntries i hrpc =>
      rcases List.mem_or_eq_of_mem_set hr with hr | rfl
      · exact Or.inl ⟨rpc, hx ▸ hr, rfl⟩
      · exact Or.inl ⟨_, List.mem_of_getElem? hrpc, rfl⟩
  | replicateReply i hrpc =>
      rcases List.mem_or_eq_of_mem_set hr with hr | rfl
      · exact Or.inl ⟨rpc, hx ▸ hr, rfl⟩
      · exact Or.inl ⟨_, List.mem_of_getElem? hrpc, rfl⟩
  | replicateLost i hrpc =>
      rcases List.mem_or_eq_of_mem_set hr with hr | rfl
      · exact Or.inl ⟨rpc, hx ▸ hr, rfl⟩
      · exact Or.inl ⟨_, List.mem_of_getElem? hrpc, rfl⟩
  | _ => exact Or.inl ⟨rpc, hx ▸ hr, rfl⟩

/-- A simulated block leaves its node as the abstract node has it. -/
theorem Simulates.holdsNode {a : Action N P} {b : Block N P} (hsim : Simulates cfg c s a b s')
    (hb : cfg.Runs c a b) : HoldsNode s' b.actor b.node := by
  have hnode := hsim.refines.node b.actor
  rw [(hb.calls_frame _).1] at hnode
  rwa [show (c.runBlock b.actor b.node b.effects).node b.actor = b.node from
    Function.update_self ..] at hnode

/-- Every block delivers. -/
theorem Simulates.delivers {a : Action N P} {b : Block N P} (hsim : Simulates cfg c s a b s')
    (href : Refines cfg c s) (hE : Elections cfg c) (hC : Commits cfg c s) (hb : cfg.Runs c a b)
    (hm : Meets cfg c a b) (hfresh : Fresh c a) :
    Delivers cfg s' b.actor (c.node b.actor) b.node b.effects ∧
      Counts cfg s' b.actor (c.node b.actor) b.node := by
  have hself : ∀ n, Delivers cfg s' n (c.node n) (c.node n) [] :=
    fun n => hC.delivers_self href hsim.moved n
  have hidle : ∀ {n nd' effs}, Idle (c.node n) nd' effs →
      Delivers cfg s' n (c.node n) nd' effs ∧ Counts cfg s' n (c.node n) nd' := fun {n _ _} h =>
    ⟨.of_idle h (hC.caught n) (hC.kept href hsim.moved n), Or.inl h.matchIndex⟩
  have hnode := hsim.holdsNode hb
  have hs := hsim.refines.sound
  cases hb with
  | startElection n =>
      exact hidle ⟨rfl, rfl, rfl, rfl, rfl, by simp [RaftNode.startElection, RaftNode.persistState,
        Effect.isOutput]⟩
  | handleRequestVote => exact hidle (RaftNode.idle_handleRequestVote ..)
  | voteReply => exact hidle (RaftNode.idle_handleVoteResponse ..)
  | winElection n =>
      have hd := hself n
      refine ⟨⟨hd.split, hd.stateMachine, hd.caught, hd.le, hd.committed⟩, Or.inr fun p hp => ?_⟩
      show (if p ∈ cfg.peers n then some 0 else (c.node n).matchIndex p).getD 0 ≤ _
      rw [if_pos hp]
      exact Nat.zero_le _
  | stepDown n => exact hidle ⟨rfl, rfl, rfl, rfl, rfl, by simp⟩
  | @proposeAppend n i command payload hcall =>
      have hquiet := RaftNode.quiet_proposeLocked (cfg.threshold n) (cfg.peers n) (c.node n) command
        payload
      obtain ⟨hd, hmatch⟩ := hC.delivers_proposeLocked href hE hsim.moved hs (hm.elected n i rfl)
        (hm.propose n i rfl) (hnode.term.trans hquiet.term)
        (hsim.append n i command payload rfl hcall)
      exact ⟨hd, Or.inl hmatch⟩
  | @handleAppendEntries i sender peer request waiting hrpc =>
      have hlt : i < (c.perform peer
          ((c.node peer).handleAppendEntries request).2.1).appendRpcs.length := by
        rw [Cluster.perform_appendRpcs]
        exact (List.getElem?_eq_some_iff.mp hrpc).1
      obtain ⟨hd, hmatch⟩ := hC.delivers_handleAppendEntries href hsim.moved hs
        (List.mem_of_getElem? hrpc) hnode (hm.handle i _ rfl hrpc) fun hsucc =>
          (hsim.refines.sent (List.mem_set hlt _)).answered _ rfl hsucc
      exact ⟨hd, Or.inl hmatch⟩
  | @replicateReply i sender peer request resp hrpc =>
      exact hC.delivers_handleAppendResponse href hE hsim.moved hs (List.mem_of_getElem? hrpc) rfl
        (hfresh i _ resp rfl hrpc rfl) (hm.reply i _ resp rfl hrpc rfl) (hsim.reply i rfl) hnode.term
  | _ => exact ⟨hself _, Or.inl rfl⟩

/-- A block that runs to its end keeps the invariant. -/
theorem Commits.step_run (h : Commits cfg c s) (href : Refines cfg c s) (hE : Elections cfg c)
    {a : Action N P} {b : Block N P} (hb : cfg.Runs c a b) (hm : Meets cfg c a b)
    (hfresh : Fresh c a) (hsim : Simulates cfg c s a b s') :
    Commits cfg (b.calls (c.runBlock b.actor b.node b.effects)) s' := by
  have hg := Steps.grows hsim.moved href.sound.inv
  have hs := hsim.refines.sound
  have hnode := hsim.holdsNode hb
  obtain ⟨hd, hcounts⟩ := hsim.delivers href hE h hb hm hfresh
  obtain ⟨hframe, hdisk, happ, -⟩ := hb.calls_frame (c.runBlock b.actor b.node b.effects)
  have helected : (c.runBlock b.actor b.node b.effects).elected = c.elected :=
    c.perform_elected b.actor b.effects
  refine h.deliver href hsim.moved hframe hdisk happ hd (fun m t hmt hne => ?_) (fun hel p hp => ?_)
    fun rpc hr hc => ?_
  · rcases hb.calls_elected (c.runBlock b.actor b.node b.effects) with heq | ⟨⟨t', heq⟩, -⟩
    · rwa [heq, helected] at hmt
    · rw [heq, helected] at hmt
      exact (List.mem_cons.mp hmt).resolve_left fun h => hne (Prod.mk.inj h).1
  · rcases hcounts with hsame | hcounts
    · rcases hb.calls_elected (c.runBlock b.actor b.node b.effects) with heq | ⟨-, hzero⟩
      · -- the node is still in the term it was elected in
        rw [heq, helected] at hel
        have hle := (hE.elected hel).2.1
        have hge := hg.term b.actor
        rw [(href.node b.actor).term, hnode.term] at hge
        have hterm := le_antisymm hle hge
        rw [hterm] at hel ⊢
        rw [hsame]
        exact (h.matched _ hel p hp).trans (hg.acked _ p)
      · rw [hzero p hp]
        exact Nat.zero_le _
    · exact hcounts p hp
  · have hx : (c.runBlock b.actor b.node b.effects).appendRpcs = c.appendRpcs :=
      c.perform_appendRpcs b.actor b.effects
    rcases hb.calls_requests hx hr with
      ⟨r₀, hr₀, hreq⟩ | ⟨hrole, hsame, ⟨peer', ha⟩, peer, hreq⟩
    · rw [← hreq] at hc ⊢
      exact h.sent_grows href hs hg hr₀ hc
    · rw [hsame] at hnode
      have hl := hg.leader (href.leads (hE.leader hrole))
      have hlog : s'.log b.actor = s'.chain (c.node b.actor).currentTerm := by
        have hl' := hl
        rw [← hnode.term] at hl' ⊢
        exact hs.inv.leader_log hl'
      have hzero := hm.replicate _ _ ha
      have hkept := h.kept href hsim.moved b.actor
      have hcommit : CommittedUpTo LogEntry.term cfg.quorums s' rpc.request.term
          (s'.chain rpc.request.term) rpc.request.leaderCommit := by
        rw [hnode.term, hlog] at hkept
        rw [hreq]
        exact hkept
      refine ⟨hcommit, ?_⟩
      have hat : At cfg s' b.actor (c.node b.actor) ((b.calls (c.runBlock b.actor b.node
          b.effects)).disk b.actor) := ⟨hs, hnode, hsim.refines.disk _, by
        rw [hsim.refines.snap, hframe]
        show (Function.update c.node b.actor b.node b.actor).snapshotIndex = _
        rw [Function.update_self, hsame]⟩
      rcases hat.chained_buildAppendEntries hl hzero peer with ⟨-, hlen⟩ | ⟨hpos, hterm⟩
      · rw [hreq, hlen, hnode.log_eq hzero]
        exact hkept.le_length
      · rw [← hreq] at hpos hterm
        obtain ⟨e, he, het⟩ := Option.map_eq_some_iff.mp (hc.prev hpos)
        have := hs.pos (List.mem_of_getElem? he)
        omega

end NanoFabric.Raft
