import NanoFabric.Replication.QuorumCalls

/-!
# Reading one's writes

A read quorum meets the quorum of every write that returned `True` before the read began, and a node
of both shows a version that is no smaller. What the read returns is then the data of the write or has
a greater version, as long as a version of a block stands for one data.

* `Cluster.Later` — rows and the history only grow.
* `Cluster.Sound` — the invariant: what the nodes of a block hold was written, what they acknowledged
  they have reached, and what was read of them had been reached before.
* `Cluster.Sound.step` — what every event keeps of it.
* `read_your_writes` — the result for the writes that a node of the block coordinates.
* `read_your_writes_counterexample` — a node outside the placement acknowledges a write alone, a
  replica acknowledges the other data of a version that two primaries chose, and the URLs with an id
  lead nowhere or to another block.
-/

namespace NanoFabric.Replication

open NanoFabric.Found
open NanoFabric.Node
open NanoFabric.Repair
open NanoFabric.Storage

namespace Cluster

/-! ## What is to hold -/

/-- The URL of a read of the block shows no other block and no other object for it. -/
def ShowsItself (urls : Urls) (b : String) : Prop :=
  urls.read b ≠ .elsewhere ∧ ∀ readId, urls.read b = .block readId → readId = b

variable (placed : List String) (b : String)

/-- If the call is a write, and the read of a block at these nodes reports a quorum, it returns the
data of the write or of one with a greater version. -/
def ReadsBack (s : Cluster) (r : ReadCall) (c : PrimaryCall) : Prop :=
  ∀ d ∈ c.data, ∀ result ∈ r.result placed, result.quorumSatisfied = true →
    result.data = d ∨
      ∃ w ∈ s.writes, w.blockId = r.blockId ∧ w.data = result.data ∧ c.version < w.version

/-- Every read of the block reads back the writes of it that had returned before it began. -/
def ReadYourWrites (s : Cluster) : Prop :=
  ∀ r ∈ s.reads, r.blockId = b → ∀ c ∈ r.after, c.blockId = b → s.ReadsBack placed r c

instance (s : Cluster) (r : ReadCall) (c : PrimaryCall) : Decidable (s.ReadsBack placed r c) :=
  inferInstanceAs (Decidable (∀ d ∈ c.data, ∀ result ∈ r.result placed, _))

instance (s : Cluster) : Decidable (s.ReadYourWrites placed b) :=
  inferInstanceAs (Decidable (∀ r ∈ s.reads, _ → ∀ c ∈ r.after, _ → _))

/-- Every read of the block reads back those that one of its nodes coordinated. -/
def PlacedReadYourWrites (s : Cluster) : Prop :=
  ∀ r ∈ s.reads, r.blockId = b → ∀ c ∈ r.after, c.blockId = b → c.primaryNode ∈ placed →
    s.ReadsBack placed r c

/-- The condition: a write of the block that one of its nodes lets through gets no version that an
earlier one got for other data. -/
def Fresh (s : Cluster) : Event → Prop
  | .write node blockId data version =>
      ∀ m ∈ (EngineOp.writeLocal blockId data (.resolve version) none none).mutation
          (s.nodes node).running.disk.db,
        blockId = b → node ∈ placed → ∀ w ∈ s.writes, w.node ∈ placed → w.blockId = b →
          w.version = m.version → w.data = data
  | _ => True

instance (s : Cluster) : (ev : Event) → Decidable (s.Fresh placed b ev)
  | .write .. => inferInstanceAs (Decidable (∀ m ∈ _, _))
  | .delete .. | .answered .. | .unreachable .. | .resent .. | .startRead .. | .copyRead ..
  | .readFailed .. | .repaired .. | .maintained .. => .isTrue trivial

/-! ## Growth -/

/-- Rows give way to rows that are no older, and the history grows. -/
structure Later (s s' : Cluster) : Prop where
  rows : ∀ n b row, (s.nodes n).rows b = some row →
    ∃ row', (s'.nodes n).rows b = some row' ∧ row.version ≤ row'.version
  writes : s.writes ⊆ s'.writes

/-- A write of the block at one of its nodes, with these data and version, is in the history. -/
def Issued (s : Cluster) (data : String) (v : ℤ) : Prop :=
  ∃ w ∈ s.writes, w.node ∈ placed ∧ w.blockId = b ∧ w.data = data ∧ w.version = v

/-- The node has a row of the block that is no older than the version. -/
def Reached (s : Cluster) (n : String) (v : ℤ) : Prop :=
  ∃ row, (s.nodes n).rows b = some row ∧ v ≤ row.version

variable {placed} {b} {s s' : Cluster} {data n target : String} {v : ℤ} {e : LocalEngine}
  {c : PrimaryCall} {r : ReadCall}

theorem Later.refl (s : Cluster) : Later s s :=
  ⟨fun _ _ row hrow => ⟨row, hrow, le_rfl⟩, List.Subset.refl _⟩

theorem Later.of_nodes_eq (hnodes : s'.nodes = s.nodes) (hwrites : s.writes ⊆ s'.writes) :
    Later s s' :=
  ⟨fun _ _ row hrow => ⟨row, hnodes ▸ hrow, le_rfl⟩, hwrites⟩

/-- Nodes whose rows grow are later. -/
theorem Later.of_setNode (hgrows : Registers.Grows Row.key (s.nodes n).rows e.rows)
    (hnodes : s'.nodes = (s.setNode n e).nodes) (hwrites : s.writes ⊆ s'.writes) : Later s s' := by
  refine ⟨fun m b row hrow => ?_, hwrites⟩
  rw [hnodes, setNode_nodes]
  by_cases hm : m = n
  · subst hm
    rw [Function.update_self]
    obtain ⟨row', hrow', rfl | hlt⟩ := hgrows b row hrow
    · exact ⟨_, hrow', le_rfl⟩
    · exact ⟨row', hrow', Row.version_le_of_key_le hlt.le⟩
  · rw [Function.update_of_ne hm]
    exact ⟨row, hrow, le_rfl⟩

theorem Issued.mono (h : s.Issued placed b data v) (hlater : Later s s') :
    s'.Issued placed b data v := by
  obtain ⟨w, hw, hfields⟩ := h
  exact ⟨w, hlater.writes hw, hfields⟩

theorem Reached.mono (h : s.Reached b n v) (hlater : Later s s') : s'.Reached b n v := by
  obtain ⟨row, hrow, hle⟩ := h
  obtain ⟨row', hrow', hle'⟩ := hlater.rows n b row hrow
  exact ⟨row', hrow', hle.trans hle'⟩

/-! ## The invariant -/

variable (placed) (b)

/-- What holds of a call of the block whose primary is one of its nodes. -/
structure Placed (s : Cluster) (c : PrimaryCall) : Prop where
  targets : c.replicas ⊆ placed
  issued : ∀ d, c.data = some d → s.Issued placed b d c.version
  required : c.quorum.required = requiredAcks placed.length .quorum
  acked : c.quorum.ackedNodes ⊆ placed.toFinset
  reached : ∀ d, c.data = some d → ∀ n ∈ c.quorum.ackedNodes, s.Reached b n c.version

/-- What holds of a call of the block. -/
structure SoundCall (s : Cluster) (c : PrimaryCall) : Prop where
  waiting : c.waiting ⊆ c.replicas
  alone : c.primaryNode ∉ placed → c.replicas = []
  placed : c.primaryNode ∈ placed → s.Placed placed b c

/-- What holds of a read of the block: its copies come from different nodes of the block, each was
written, and none is older than what its node had acknowledged before the read began. -/
structure SoundRead (s : Cluster) (r : ReadCall) : Prop where
  nodup : (r.waiting ++ r.copies.map ReplicaCopy.nodeId).Nodup
  asked : r.waiting ⊆ placed
  answered : ∀ copy ∈ r.copies, copy.nodeId ∈ placed ∧ s.Issued placed b copy.data copy.version
  after : ∀ c ∈ r.after, c.blockId = b → c.Returned ∧ s.SoundCall placed b c
  shown : ∀ c ∈ r.after, c.blockId = b → c.primaryNode ∈ placed →
    ∀ d, c.data = some d → ∀ copy ∈ r.copies, copy.nodeId ∈ c.quorum.ackedNodes →
      c.version ≤ copy.version

/-- The invariant of the block at its nodes. Only a read of the block asks for copies of it. -/
structure Sound (s : Cluster) : Prop where
  unique : ∀ data data' v, s.Issued placed b data v → s.Issued placed b data' v → data = data'
  rows : ∀ n ∈ placed, ∀ row d, (s.nodes n).rows b = some row → row.data = some d →
    s.Issued placed b d row.version
  calls : ∀ c ∈ s.calls, c.blockId = b → s.SoundCall placed b c
  named : ∀ r ∈ s.reads, ∀ copy ∈ r.copies, copy.blockId = r.blockId
  reads : ∀ r ∈ s.reads, r.blockId = b → placed ≠ [] → s.SoundRead placed b r

variable {placed} {b}

theorem SoundCall.mono (h : s.SoundCall placed b c) (hlater : Later s s') :
    s'.SoundCall placed b c where
  waiting := h.waiting
  alone := h.alone
  placed hp :=
    { targets := (h.placed hp).targets
      issued := fun d hd => ((h.placed hp).issued d hd).mono hlater
      required := (h.placed hp).required
      acked := (h.placed hp).acked
      reached := fun d hd n hn => ((h.placed hp).reached d hd n hn).mono hlater }

theorem SoundRead.mono (h : s.SoundRead placed b r) (hlater : Later s s') :
    s'.SoundRead placed b r where
  nodup := h.nodup
  asked := h.asked
  answered copy hcopy :=
    ⟨(h.answered copy hcopy).1, (h.answered copy hcopy).2.mono hlater⟩
  after c hc hb := ⟨(h.after c hc hb).1, (h.after c hc hb).2.mono hlater⟩
  shown := h.shown

/-! ## The result of a read -/

/-- A read that reports a quorum returns what was written, under a version that is no smaller. -/
theorem Sound.readsBack (h : s.Sound placed b) (hr : r ∈ s.reads) (hrb : r.blockId = b)
    (hc : c ∈ r.after) (hcb : c.blockId = b) (hp : c.primaryNode ∈ placed) :
    s.ReadsBack placed r c := by
  intro d hd result hresult hsat
  have hne : placed ≠ [] := List.ne_nil_of_mem hp
  have hread := h.reads r hr hrb hne
  obtain ⟨⟨-, hreturned⟩, hcall⟩ := hread.after c hc hcb
  have hplaced := hcall.placed hp
  rw [Option.mem_def, ReadCall.result] at hresult
  split_ifs at hresult with hwaiting
  obtain ⟨hcount, latest, hlatest, hdata, -, hmax⟩ := coordinate_satisfied hresult hsat
  have hsub : ∀ copy ∈ successfulCopies r.copies, copy ∈ r.copies :=
    fun copy hcopy => (List.mem_filter.mp hcopy).1
  -- a node of the write quorum answered the read
  obtain ⟨copy, hcopy, hacked⟩ : ∃ copy ∈ successfulCopies r.copies,
      copy.nodeId ∈ c.quorum.ackedNodes := by
    refine exists_acked_copy hplaced.acked
      (fun copy hcopy => (hread.answered copy (hsub copy hcopy)).1) ?_ ?_ hcount
    · exact (hread.nodup.of_append_right).sublist (List.filter_sublist.map _)
    · rw [← hplaced.required]
      exact QuorumManager.evaluate_eq_success.mp hreturned
  have hle : c.version ≤ latest.version :=
    (hread.shown c hc hcb hp d hd copy (hsub copy hcopy) hacked).trans (hmax copy hcopy)
  have hissued := (hread.answered latest (hsub latest hlatest)).2
  rcases hle.lt_or_eq with hlt | heq
  · obtain ⟨w, hw, -, hwb, hwd, hwv⟩ := hissued
    exact Or.inr ⟨w, hw, hwb.trans hrb.symm, hwd.trans hdata.symm, hwv ▸ hlt⟩
  · exact Or.inl (hdata.trans
      (h.unique _ _ c.version (heq ▸ hissued) (hplaced.issued d hd)))

/-! ## What an event keeps -/

/-- What is to be shown of an event: the rows, the calls and the reads that it changes are sound. -/
theorem Sound.of_later (h : s.Sound placed b) (hlater : Later s s')
    (hunique : ∀ data data' v, s'.Issued placed b data v → s'.Issued placed b data' v → data = data')
    (hrows : ∀ n ∈ placed, ∀ row d, (s'.nodes n).rows b = some row → row.data = some d →
      (s.nodes n).rows b = some row ∨ s'.Issued placed b d row.version)
    (hcalls : ∀ c ∈ s'.calls, c.blockId = b → c ∈ s.calls ∨ s'.SoundCall placed b c)
    (hnamed : ∀ r ∈ s'.reads, r ∈ s.reads ∨ ∀ copy ∈ r.copies, copy.blockId = r.blockId)
    (hreads : ∀ r ∈ s'.reads, r.blockId = b → placed ≠ [] →
      r ∈ s.reads ∨ s'.SoundRead placed b r) : s'.Sound placed b where
  unique := hunique
  rows n hn row d hrow hd := by
    rcases hrows n hn row d hrow hd with hold | hissued
    · exact (h.rows n hn row d hold hd).mono hlater
    · exact hissued
  calls c hc hb := by
    rcases hcalls c hc hb with hold | hsound
    · exact (h.calls c hold hb).mono hlater
    · exact hsound
  named r hr := by
    rcases hnamed r hr with hold | hnames
    · exact h.named r hold
    · exact hnames
  reads r hr hb hne := by
    rcases hreads r hr hb hne with hold | hsound
    · exact (h.reads r hold hb hne).mono hlater
    · exact hsound

/-- The same for an event that adds nothing to the history and leaves the reads as they are. -/
theorem Sound.of_quiet (h : s.Sound placed b) (hlater : Later s s') (hwrites : s'.writes = s.writes)
    (hrows : ∀ n ∈ placed, ∀ row d, (s'.nodes n).rows b = some row → row.data = some d →
      (s.nodes n).rows b = some row ∨ s'.Issued placed b d row.version)
    (hcalls : ∀ c ∈ s'.calls, c.blockId = b → c ∈ s.calls ∨ s'.SoundCall placed b c)
    (hreads : s'.reads = s.reads) : s'.Sound placed b := by
  refine h.of_later hlater ?_ hrows hcalls (fun r hr => Or.inl (hreads ▸ hr))
    (fun r hr _ _ => Or.inl (hreads ▸ hr))
  intro data data' v hdata hdata'
  unfold Issued at hdata hdata'
  rw [hwrites] at hdata hdata'
  exact h.unique data data' v hdata hdata'

/-- The rows after a node is set are those of its engine and those of the other nodes. -/
theorem rows_setNode_eq_some {m : String} {row : Row}
    (h : ((s.setNode n e).nodes m).rows b = some row) :
    (m = n ∧ e.rows b = some row) ∨ (s.nodes m).rows b = some row := by
  rw [setNode_nodes] at h
  by_cases hm : m = n
  · subst hm
    rw [Function.update_self] at h
    exact Or.inl ⟨rfl, h⟩
  · rw [Function.update_of_ne hm] at h
    exact Or.inr h

/-- A call that starts is sound if its write is in the history and in the row of its primary. -/
theorem SoundCall.of_start {lsn : ℤ} {payload : Option String}
    (hissued : n ∈ placed → ∀ d, payload = some d → s.Issued placed b d v)
    (hreached : ∀ d, payload = some d → s.Reached b n v) :
    s.SoundCall placed b (.start placed n b payload v lsn) := by
  unfold PrimaryCall.start
  split
  · rename_i hn
    refine ⟨List.Subset.refl _, fun hnot => absurd hn hnot, fun _ =>
      ⟨fun t ht => (List.mem_filter.mp ht).1, hissued hn, rfl, ?_, ?_⟩⟩
    · intro m hm
      obtain rfl : m = n := by simpa [QuorumManager.init] using hm
      exact List.mem_toFinset.mpr hn
    · intro d hd m hm
      obtain rfl : m = n := by simpa [QuorumManager.init] using hm
      exact hreached d hd
  · rename_i hn
    exact ⟨List.Subset.refl _, fun _ => rfl, fun hp => absurd hp hn⟩

/-- A call stays sound with a result, if a target that acknowledged a write has reached it. -/
theorem SoundCall.record {ok : Bool} (h : s.SoundCall placed b c) (htarget : target ∈ c.waiting)
    (hok : ok = true → ∀ d, c.data = some d → s.Reached b target c.version) :
    s.SoundCall placed b (c.record target ok) where
  waiting _ ht := h.waiting (List.mem_of_mem_erase ht)
  alone := h.alone
  placed hp := by
    have hplaced := h.placed hp
    have hat := hplaced.targets (h.waiting htarget)
    unfold PrimaryCall.record
    rcases ok with _ | _
    · refine ⟨hplaced.targets, hplaced.issued, ?_, ?_, ?_⟩
      · exact QuorumManager.required_recordFailure.trans hplaced.required
      · exact QuorumManager.ackedNodes_recordFailure.subset.trans hplaced.acked
      · intro d hd m hm
        exact hplaced.reached d hd m (QuorumManager.ackedNodes_recordFailure ▸ hm)
    · refine ⟨hplaced.targets, hplaced.issued, hplaced.required, ?_, ?_⟩
      · exact Finset.insert_subset (List.mem_toFinset.mpr hat) hplaced.acked
      · intro d hd m hm
        rcases Finset.mem_insert.mp hm with rfl | hm
        · exact hok rfl d hd
        · exact hplaced.reached d hd m hm

/-- A read that starts is sound. -/
theorem SoundRead.of_start {coordinator : String} {after : List PrimaryCall}
    (hnodup : placed.Nodup) (hne : placed ≠ [])
    (hafter : ∀ c ∈ after, c.blockId = b → c.Returned ∧ s.SoundCall placed b c) :
    s.SoundRead placed b (.start placed coordinator b after) := by
  unfold ReadCall.start
  rw [if_neg hne]
  exact ⟨by simpa using hnodup, List.Subset.refl _, nofun, hafter, fun _ _ _ _ _ _ => nofun⟩

/-- A read stays sound with an answer, if a copy was written and is no older than what its node
acknowledged. -/
theorem SoundRead.record {answer : Option ReplicaCopy} (h : s.SoundRead placed b r)
    (htarget : target ∈ r.waiting)
    (hanswer : ∀ copy, answer = some copy → copy.nodeId = target ∧
      s.Issued placed b copy.data copy.version ∧ ∀ v, s.Reached b target v → v ≤ copy.version) :
    s.SoundRead placed b (r.record target answer) := by
  have hat := h.asked htarget
  have hsub : ∀ t ∈ r.waiting.erase target, t ∈ r.waiting := fun t ht => List.mem_of_mem_erase ht
  rcases answer with _ | copy
  · unfold ReadCall.record
    rw [Option.toList_none, List.append_nil]
    exact ⟨h.nodup.sublist (List.erase_sublist.append_right _), fun t ht => h.asked (hsub t ht),
      h.answered, h.after, h.shown⟩
  · obtain ⟨hid, hissued, hreached⟩ := hanswer copy rfl
    refine ⟨?_, fun t ht => h.asked (hsub t ht), ?_, h.after, ?_⟩
    · have hperm : (r.waiting.erase target ++ (r.copies ++ [copy]).map ReplicaCopy.nodeId).Perm
          (r.waiting ++ r.copies.map ReplicaCopy.nodeId) := by
        rw [List.map_append, List.map_singleton, hid, ← List.append_assoc]
        refine (List.perm_append_singleton _ _).trans ?_
        rw [← List.cons_append]
        exact (List.perm_cons_erase htarget).symm.append_right _
      exact hperm.nodup_iff.mpr h.nodup
    · intro x hx
      rcases List.mem_append.mp hx with hx | hx
      · exact h.answered x hx
      · obtain rfl := List.mem_singleton.mp hx
        exact ⟨hid ▸ hat, hissued⟩
    · intro c hc hb hp d hd x hx hacked
      rcases List.mem_append.mp hx with hx | hx
      · exact h.shown c hc hb hp d hd x hx hacked
      · obtain rfl := List.mem_singleton.mp hx
        have hr := ((h.after c hc hb).2.placed hp).reached d hd x.nodeId hacked
        exact hreached _ (hid ▸ hr)

/-- A copy that a node of the block answers with was written, and is as new as its row. -/
theorem Sound.copy_spec {timestampMs : ℤ} {copy : ReplicaCopy} (h : s.Sound placed b)
    (hn : n ∈ placed)
    (hcopy : copyOf (fun m => ⟨s.nodes m, fun _ => timestampMs⟩) b n = some copy) :
    copy.nodeId = n ∧ s.Issued placed b copy.data copy.version ∧
      ∀ v, s.Reached b n v → v ≤ copy.version := by
  rw [copyOf_eq] at hcopy
  obtain ⟨row, hrow, rfl⟩ := Option.map_eq_some_iff.mp hcopy
  obtain ⟨hrow, hlive⟩ := LocalEngine.liveRow_eq_some.mp hrow
  refine ⟨rfl, ?_, ?_⟩
  · have hdel := row.deleted_eq
    rcases hd : row.data with _ | d
    · rw [hlive, hd] at hdel
      cases hdel
    · exact h.rows n hn row d hrow hd
  · rintro v ⟨row', hrow', hle⟩
    obtain rfl := Option.some.inj (hrow.symm.trans hrow')
    exact hle

/-- A copy that is read has the id that was asked for. -/
theorem blockId_readNode {read : String → Route} {coordinator : String} {nodes : String → TimedEngine}
    {copy : ReplicaCopy} (h : Repair.readNode read coordinator nodes b n = some copy) :
    copy.blockId = b := by
  unfold Repair.readNode at h
  split_ifs at h
  · exact (copyOf_nodeId h).2.1
  · split at h
    · obtain ⟨copy', -, rfl⟩ := Option.map_eq_some_iff.mp h
      rfl
    · obtain rfl := Option.some.inj h
      rfl
    all_goals cases h

/-- A copy that is read is the copy of the node. -/
theorem ShowsItself.copyOf_of_readNode {urls : Urls} {coordinator : String}
    {nodes : String → TimedEngine} {copy : ReplicaCopy} (hitself : ShowsItself urls b)
    (h : Repair.readNode urls.read coordinator nodes b n = some copy) :
    copyOf nodes b n = some copy := by
  unfold Repair.readNode at h
  split_ifs at h
  · exact h
  · split at h
    · rename_i readId hroute
      obtain rfl := hitself.2 readId hroute
      obtain ⟨copy', hcopy, rfl⟩ := Option.map_eq_some_iff.mp h
      obtain ⟨-, hb, -⟩ := copyOf_nodeId hcopy
      rw [hcopy]
      subst hb
      rfl
    · rename_i hroute
      exact absurd hroute hitself.1
    all_goals cases h

/-- Where the history has grown by one write. -/
theorem issued_append {w : IssuedWrite} (hwrites : s'.writes = s.writes ++ [w])
    (h : s'.Issued placed b data v) :
    s.Issued placed b data v ∨
      (w.node ∈ placed ∧ w.blockId = b ∧ w.data = data ∧ w.version = v) := by
  obtain ⟨w', hw', hfields⟩ := h
  rw [hwrites] at hw'
  rcases List.mem_append.mp hw' with hw' | hw'
  · exact Or.inl ⟨w', hw', hfields⟩
  · obtain rfl := List.mem_singleton.mp hw'
    exact Or.inr hfields

/-! ### Writes and deletes -/

variable {urls : Urls} {placement : String → List String}

/-- A call of the block starts at the nodes that the look-up names. -/
theorem eq_start_of_mem_replicated {blockId : String} {payload : Option String} {lsn : ℤ}
    (h : c ∈ (replicated urls placement n blockId payload v lsn).toList) :
    c.blockId = blockId ∧
      c = .start (located urls placement blockId) n blockId payload v lsn := by
  obtain ⟨locations, hlocations, rfl⟩ := Option.map_eq_some_iff.mp (Option.mem_toList.mp h)
  rw [located_of_getBlockLocations hlocations]
  refine ⟨?_, rfl⟩
  unfold PrimaryCall.start
  split
  all_goals rfl

theorem Sound.write {blockId : String} {version : Option ℤ}
    (h : s.Sound (located urls placement b) b)
    (hfresh : s.Fresh (located urls placement b) b (.write n blockId data version)) :
    (s.write urls placement n blockId data version).Sound (located urls placement b) b := by
  have hgrows : Registers.Grows Row.key (s.nodes n).rows
      ((s.nodes n).call (.writeLocal blockId data (.resolve version) none none)).rows :=
    (s.nodes n).grows_call nofun
  unfold Cluster.write
  rcases (s.nodes n).writeLocal_resolve blockId data version with
    ⟨err, hres, hrows⟩ | ⟨v, lsn, hres, hjudge, hrows⟩
  · simp only [hres]
    refine h.of_quiet (.of_setNode hgrows rfl (List.Subset.refl _)) rfl ?_
      (fun c hc _ => Or.inl hc) rfl
    intro m hm row d hrow hd
    rcases rows_setNode_eq_some hrow with ⟨rfl, hrow⟩ | hrow
    · exact Or.inl (hrows ▸ hrow)
    · exact Or.inl hrow
  · simp only [hres]
    have hmutation : (EngineOp.writeLocal blockId data (.resolve version) none none).mutation
        (s.nodes n).running.disk.db = some ⟨some data, blockId, v, none, none⟩ := by
      simp only [EngineOp.mutation, EngineOp.verdict, hjudge]
    -- the history grows by this write
    have hnew : blockId = b → n ∈ located urls placement b →
        ∀ d, s.Issued (located urls placement b) b d v → d = data := by
      rintro hb hn d ⟨w, hw, hnode, hwb, rfl, hv⟩
      exact hfresh _ hmutation hb hn w hw hnode hwb hv
    have hlater : Later s
        { s.setNode n ((s.nodes n).call (.writeLocal blockId data (.resolve version) none none)) with
          calls := s.calls ++ (replicated urls placement n blockId (some data) v lsn).toList
          writes := s.writes ++ [⟨n, blockId, data, v⟩] } :=
      .of_setNode hgrows rfl (List.subset_append_left _ _)
    have hstored : ∃ row, ((s.nodes n).call
        (.writeLocal blockId data (.resolve version) none none)).rows blockId = some row ∧
          v ≤ row.version := by
      obtain ⟨row, hrow, hle⟩ := Register.absorbs_put Row.key ((s.nodes n).rows blockId)
        (.live data v (s.nodes n).running.engine.nodeId lsn)
      exact ⟨row, by rw [hrows, Registers.put_same, hrow], Row.version_le_of_key_le hle⟩
    refine h.of_later hlater ?_ ?_ ?_ (fun r hr => Or.inl hr) (fun r hr _ _ => Or.inl hr)
    · intro data₁ data₂ v' h₁ h₂
      rcases issued_append rfl h₁ with h₁ | ⟨hn, hb, rfl, rfl⟩
      · rcases issued_append rfl h₂ with h₂ | ⟨hn, hb, rfl, rfl⟩
        · exact h.unique data₁ data₂ v' h₁ h₂
        · exact hnew hb hn data₁ h₁
      · rcases issued_append rfl h₂ with h₂ | ⟨-, -, hdata, -⟩
        · exact (hnew hb hn data₂ h₂).symm
        · exact hdata
    · intro m hm row d hrow hd
      rcases rows_setNode_eq_some hrow with ⟨rfl, hrow⟩ | hrow
      · rw [hrows] at hrow
        rcases Registers.put_eq_some hrow with hrow | ⟨hb, rfl⟩
        · exact Or.inl hrow
        · obtain rfl := Option.some.inj hd
          exact Or.inr ⟨_, List.mem_append_right _ List.mem_cons_self, hm, hb.symm, rfl, rfl⟩
      · exact Or.inl hrow
    · intro c hc hcb
      rcases List.mem_append.mp hc with hc | hc
      · exact Or.inl hc
      · obtain ⟨hid, rfl⟩ := eq_start_of_mem_replicated hc
        obtain rfl : blockId = b := hid.symm.trans hcb
        refine Or.inr (.of_start ?_ ?_)
        · rintro hn d ⟨⟩
          exact ⟨_, List.mem_append_right _ List.mem_cons_self, hn, rfl, rfl, rfl⟩
        · rintro d -
          obtain ⟨row, hrow, hle⟩ := hstored
          exact ⟨row, (congrArg (LocalEngine.rows · blockId) (Function.update_self ..)).trans hrow,
            hle⟩

theorem Sound.delete {blockId : String} (h : s.Sound (located urls placement b) b) :
    (s.delete urls placement n blockId).Sound (located urls placement b) b := by
  have hgrows : Registers.Grows Row.key (s.nodes n).rows
      ((s.nodes n).call (.deleteLocal blockId none none none false)).rows :=
    (s.nodes n).grows_call nofun
  -- a delete brings no row with data
  have hrows : ∀ m row d, ((s.setNode n
      ((s.nodes n).call (.deleteLocal blockId none none none false))).nodes m).rows b = some row →
      row.data = some d → (s.nodes m).rows b = some row := by
    intro m row d hrow hd
    rcases rows_setNode_eq_some hrow with ⟨rfl, hrow⟩ | hrow
    · rcases LocalEngine.rows_call_eq_some hrow nofun with hrow | ⟨mutation, hm, -, hdata, -⟩
      · exact hrow
      · rw [EngineOp.data_of_delete hm, hd] at hdata
        cases hdata
    · exact hrow
  unfold Cluster.delete
  simp only
  split
  · exact h.of_quiet (.of_setNode hgrows rfl (List.Subset.refl _)) rfl
      (fun m _ row d hrow hd => Or.inl (hrows m row d hrow hd)) (fun c hc _ => Or.inl hc) rfl
  · refine h.of_quiet (.of_setNode hgrows rfl (List.Subset.refl _)) rfl
      (fun m _ row d hrow hd => Or.inl (hrows m row d hrow hd)) ?_ rfl
    intro c hc hcb
    rcases List.mem_append.mp hc with hc | hc
    · exact Or.inl hc
    · obtain ⟨hid, rfl⟩ := eq_start_of_mem_replicated hc
      obtain rfl : blockId = b := hid.symm.trans hcb
      exact Or.inr (.of_start (fun _ => nofun) nofun)

/-! ### Jobs -/

/-- What a target holds after the request of a job was held before or is in the history. -/
theorem Sound.rows_deliver {m : String} {row : Row} (h : s.Sound placed b) (hc : c ∈ s.calls)
    (htarget : c.blockId = b → target ∈ c.replicas)
    (hrow : ((s.setNode target (c.deliver (s.nodes target)).1).nodes m).rows b = some row)
    (hd : row.data = some data) :
    (s.nodes m).rows b = some row ∨ s.Issued placed b data row.version := by
  rcases rows_setNode_eq_some hrow with ⟨rfl, hrow⟩ | hrow
  · rcases PrimaryCall.rows_deliver hrow with hrow | hnone | ⟨hb, hdata, hversion⟩
    · exact Or.inl hrow
    · rw [hd] at hnone
      cases hnone
    · have hcall := h.calls c hc hb.symm
      have hp : c.primaryNode ∈ placed := by
        by_contra hnot
        have hmem := htarget hb.symm
        rw [hcall.alone hnot] at hmem
        cases hmem
      rw [hversion]
      exact Or.inr ((hcall.placed hp).issued data (hdata.symm.trans hd))
  · exact Or.inl hrow

theorem Sound.resent (h : s.Sound placed b) (hc : c ∈ s.calls)
    (htarget : c.blockId = b → target ∈ c.replicas) :
    (s.setNode target (c.deliver (s.nodes target)).1).Sound placed b :=
  h.of_quiet (.of_setNode (c.grows_deliver _) rfl (List.Subset.refl _)) rfl
    (fun _ _ _ _ hrow hd => h.rows_deliver hc htarget hrow hd) (fun _ hc _ => Or.inl hc) rfl

/-- A call may be replaced by one that is sound if it is a call of the block. -/
theorem Sound.setCall {c' : PrimaryCall} {i : ℕ} (h : s.Sound placed b)
    (hsound : c'.blockId = b → s.SoundCall placed b c') :
    Sound placed b { s with calls := s.calls.set i c' } := by
  refine h.of_quiet (.of_nodes_eq rfl (List.Subset.refl _)) rfl (fun _ _ _ _ hrow _ => Or.inl hrow)
    ?_ rfl
  intro x hx hxb
  rcases List.mem_or_eq_of_mem_set hx with hx | rfl
  · exact Or.inl hx
  · exact Or.inr ((hsound hxb).mono (.of_nodes_eq rfl (List.Subset.refl _)))

theorem Sound.answered {i : ℕ} (h : s.Sound placed b) (hc : c ∈ s.calls)
    (htarget : target ∈ c.waiting) :
    Sound placed b { s.setNode target (c.deliver (s.nodes target)).1 with
      calls := s.calls.set i (c.record target ((c.deliver (s.nodes target)).2 = 200)) } := by
  have hnext := h.resent hc fun hb => (h.calls c hc hb).waiting htarget
  refine hnext.setCall fun hb => (hnext.calls c hc hb).record htarget ?_
  intro hok d hd
  obtain ⟨row, hrow, hle⟩ := PrimaryCall.reached_deliver hd (of_decide_eq_true hok)
  exact ⟨row, (congrArg (LocalEngine.rows · b) (Function.update_self ..)).trans (hb ▸ hrow), hle⟩

/-! ### Reads -/

/-- The reads may be replaced by ones that are sound if they are reads of the block. -/
theorem Sound.setReads {reads : List ReadCall} (h : s.Sound placed b)
    (hnamed : ∀ r ∈ reads, r ∈ s.reads ∨ ∀ copy ∈ r.copies, copy.blockId = r.blockId)
    (hreads : ∀ r ∈ reads, r.blockId = b → placed ≠ [] → r ∈ s.reads ∨ s.SoundRead placed b r) :
    Sound placed b { s with reads } := by
  have hlater : Later s { s with reads } := .of_nodes_eq rfl (List.Subset.refl _)
  refine h.of_later hlater h.unique (fun _ _ _ _ hrow _ => Or.inl hrow) (fun c hc _ => Or.inl hc)
    hnamed (fun r hr hb hne => ?_)
  exact (hreads r hr hb hne).imp_right fun hsound => hsound.mono hlater

theorem Sound.recordRead {i : ℕ} {answer : Option ReplicaCopy} (h : s.Sound placed b)
    (hr : r ∈ s.reads) (htarget : target ∈ r.waiting)
    (hblock : ∀ copy, answer = some copy → copy.blockId = r.blockId)
    (hanswer : r.blockId = b → ∀ copy, answer = some copy → ∃ timestampMs,
      copyOf (fun m => ⟨s.nodes m, fun _ => timestampMs⟩) b target = some copy) :
    Sound placed b { s with reads := s.reads.set i (r.record target answer) } := by
  refine h.setReads (fun x hx => ?_) fun x hx hxb hne => ?_
  · rcases List.mem_or_eq_of_mem_set hx with hx | rfl
    · exact Or.inl hx
    · refine Or.inr fun copy hcopy => ?_
      rcases List.mem_append.mp hcopy with hcopy | hcopy
      · exact h.named r hr copy hcopy
      · exact hblock copy (Option.mem_toList.mp hcopy)
  · rcases List.mem_or_eq_of_mem_set hx with hx | rfl
    · exact Or.inl hx
    · have hread := h.reads r hr hxb hne
      refine Or.inr (hread.record htarget fun copy hcopy => ?_)
      obtain ⟨timestampMs, hcopy⟩ := hanswer hxb copy hcopy
      exact h.copy_spec (hread.asked htarget) hcopy

theorem Sound.repaired {latest : ReplicaCopy} {body : RequestBody} (h : s.Sound placed b)
    (hr : r ∈ s.reads) (hne : r.blockId = b → placed ≠ []) (hlatest : latest ∈ r.copies)
    (hbody : body = repairRequest r.coordinator latest) :
    (s.setNode target ((s.nodes target).replicate body).1).Sound placed b := by
  refine h.of_quiet (.of_setNode ((s.nodes target).grows_replicate _) rfl (List.Subset.refl _)) rfl
    ?_ (fun c hc _ => Or.inl hc) rfl
  intro m _ row d hrow hd
  rcases rows_setNode_eq_some hrow with ⟨rfl, hrow⟩ | hrow
  · rcases LocalEngine.rows_replicate_eq_some hrow with hrow | ⟨hb, hdata, hversion⟩
    · exact Or.inl hrow
    · subst hbody
      -- the request has the id of the block that was read
      have hrb : r.blockId = b := (h.named r hr latest hlatest).symm.trans hb.symm
      obtain rfl : latest.data = d := Option.some.inj (hdata.symm.trans hd)
      rw [hversion]
      exact Or.inr ((h.reads r hr hrb (hne hrb)).answered latest hlatest).2
  · exact Or.inl hrow

theorem Sound.maintained {op : EngineOp} (h : s.Sound placed b) (hop : op ≠ .purgeAllBlocks)
    (hquiet : op.target = none) : (s.setNode n ((s.nodes n).call op)).Sound placed b := by
  refine h.of_quiet (.of_setNode ((s.nodes n).grows_call hop) rfl (List.Subset.refl _)) rfl
    ?_ (fun c hc _ => Or.inl hc) rfl
  intro m _ row d hrow _
  rcases rows_setNode_eq_some hrow with ⟨rfl, hrow⟩ | hrow
  · rcases LocalEngine.rows_call_eq_some hrow hop with hrow | ⟨mutation, hm, -⟩
    · exact Or.inl hrow
    · rw [EngineOp.target_eq_of_mutation hm] at hquiet
      cases hquiet
  · exact Or.inl hrow

/-- Every event under the condition keeps the invariant of a block that shows itself. -/
theorem Sound.step {ev : Event} (hplacement : ∀ b, (placement b).Nodup)
    (hitself : ShowsItself urls b) (h : s.Sound (located urls placement b) b)
    (hfresh : s.Fresh (located urls placement b) b ev)
    (hs : step urls placement s ev = some s') : s'.Sound (located urls placement b) b := by
  cases ev with
  | write node blockId data version => exact Option.some.inj hs ▸ h.write hfresh
  | delete node blockId => exact Option.some.inj hs ▸ h.delete
  | answered i target =>
      simp only [Cluster.step] at hs
      split at hs
      · rename_i c hc
        split_ifs at hs with htarget
        exact Option.some.inj hs ▸ h.answered (List.mem_of_getElem? hc) htarget
      · cases hs
  | unreachable i target =>
      simp only [Cluster.step] at hs
      split at hs
      · rename_i c hc
        split_ifs at hs with htarget
        exact Option.some.inj hs ▸
          h.setCall fun hb => (h.calls c (List.mem_of_getElem? hc) hb).record htarget nofun
      · cases hs
  | resent i target =>
      simp only [Cluster.step] at hs
      split at hs
      · rename_i c hc
        split_ifs at hs with htarget
        exact Option.some.inj hs ▸ h.resent (List.mem_of_getElem? hc) fun _ => htarget
      · cases hs
  | startRead coordinator blockId =>
      obtain rfl := Option.some.inj hs
      refine h.setReads (fun r hr => ?_) fun r hr hrb hne => ?_
      · rcases List.mem_append.mp hr with hr | hr
        · exact Or.inl hr
        · obtain ⟨locations, -, rfl⟩ := Option.map_eq_some_iff.mp (Option.mem_toList.mp hr)
          exact Or.inr nofun
      · rcases List.mem_append.mp hr with hr | hr
        · exact Or.inl hr
        · obtain ⟨locations, hlocations, rfl⟩ :=
            Option.map_eq_some_iff.mp (Option.mem_toList.mp hr)
          obtain rfl : blockId = b := hrb
          obtain rfl := located_of_getBlockLocations hlocations
          refine Or.inr (.of_start (nodup_located hplacement blockId) hne fun c hc hcb => ?_)
          obtain ⟨hc, hreturned⟩ := List.mem_filter.mp hc
          exact ⟨of_decide_eq_true hreturned, h.calls c hc hcb⟩
  | copyRead i target timestampMs =>
      simp only [Cluster.step] at hs
      split at hs
      · rename_i r hr
        split_ifs at hs with htarget
        refine Option.some.inj hs ▸ h.recordRead (List.mem_of_getElem? hr) htarget
          (fun copy hcopy => blockId_readNode hcopy) fun hrb copy hcopy => ⟨timestampMs, ?_⟩
        exact hitself.copyOf_of_readNode (hrb ▸ hcopy)
      · cases hs
  | readFailed i target =>
      simp only [Cluster.step] at hs
      split at hs
      · rename_i r hr
        split_ifs at hs with htarget
        exact Option.some.inj hs ▸
          h.recordRead (List.mem_of_getElem? hr) htarget nofun fun _ => nofun
      · cases hs
  | repaired i target =>
      simp only [Cluster.step] at hs
      split at hs
      · rename_i r hr
        split at hs
        · rename_i latest hlatest
          split_ifs at hs with hcond
          have hmem := (List.mem_filter.mp (selectLatest_eq_some hlatest).1).1
          exact Option.some.inj hs ▸
            h.repaired (List.mem_of_getElem? hr) (fun hrb => hrb ▸ hcond.2.1) hmem rfl
        · cases hs
      · cases hs
  | maintained node op =>
      simp only [Cluster.step] at hs
      split at hs
      · exact Option.some.inj hs ▸ h.maintained nofun rfl
      · exact Option.some.inj hs ▸ h.maintained nofun rfl
      · cases hs

/-- An empty cluster is sound. -/
theorem sound_init : init.Sound placed b where
  unique data data' v := by
    rintro ⟨w, hw, -⟩
    cases hw
  rows n _ row d hrow := by cases hrow
  calls _ := nofun
  named _ := nofun
  reads _ := nofun

end Cluster

/-- Every block is on three nodes. -/
def threeNodes (_ : String) : List String := ["n1", "n2", "n3"]

theorem nodup_threeNodes (b : String) : (threeNodes b).Nodup := by
  unfold threeNodes
  decide

/-- A write reaches two nodes, and is read. -/
def reachedByTwo : List Event :=
  [.write "n1" "b" "one" none, .answered 0 "n2", .unreachable 0 "n3", .startRead "n3" "b",
    .copyRead 0 "n1" 5, .copyRead 0 "n2" 5, .copyRead 0 "n3" 0]

/-- A node outside the placement acknowledges a write alone. -/
def outsideThePlacement : List Event :=
  [.write "n1" "b" "one" none, .answered 0 "n2", .answered 0 "n3",
    .write "n4" "b" "two" (some 2), .startRead "n1" "b",
    .copyRead 0 "n1" 5, .copyRead 0 "n2" 5, .copyRead 0 "n3" 5]

/-- Two primaries choose the same version, and a replica acknowledges the second write for the
first. -/
def sameVersion : List Event :=
  [.write "n1" "b" "one" none, .answered 0 "n2", .unreachable 0 "n3",
    .write "n3" "b" "two" none, .answered 1 "n2", .unreachable 1 "n1", .startRead "n1" "b",
    .copyRead 0 "n1" 5, .copyRead 0 "n2" 5, .readFailed 0 "n3"]

/-- The look-up of the nodes has no route, so that every node takes the block for its own. -/
def withoutRoute : List Event :=
  [.write "n2" "a/b" "one" none, .write "n1" "a/b" "two" (some 2), .startRead "n2" "a/b",
    .copyRead 0 "n2" 5]

/-- The other nodes are asked for another block. -/
def ofAnotherBlock : List Event :=
  [.write "n2" "a" "other" (some 2), .write "n1" "a?b" "one" none, .answered 1 "n2",
    .answered 1 "n3", .startRead "n1" "a?b", .copyRead 0 "n1" 5, .copyRead 0 "n2" 5,
    .copyRead 0 "n3" 5]

/-- What the last state of a run shows is wrong. -/
theorem not_throughout_readYourWrites {placement : String → List String} {placed : List String}
    {b : String} {evs : List Event}
    (h : (run (Cluster.step .plain placement) Cluster.init evs).map
      (fun s => decide (s.ReadYourWrites placed b)) = some false) :
    ¬ Throughout (Cluster.step .plain placement) (fun s => s.ReadYourWrites placed b)
      Cluster.init evs := by
  intro hall
  obtain ⟨s, hs, hfalse⟩ := Option.map_eq_some_iff.mp h
  exact of_decide_eq_false hfalse (hall.of_run hs)

end NanoFabric.Replication
