import NanoFabric.Repair.JobSpec

/-!
# Progress of the repair cycle

A hole is a node of a block's placement that has no live copy of the block. In a calm cluster, where
all nodes are up and answer and all copies of a block agree, a cycle fills at most one hole of each
block, and it needs a node outside the placement for that, and a URL that leads to the block.

* `executeJob_served` — a job for a block with a hole fills one if the target accepts the copy, and
  otherwise leaves all of them.
* `ends_under` — what the under-replicated loop does to the holes, block by block.
* `scanned_of_calm`, `scanned_of_not_scannable` — the scan raises when a read at a placement does.
* `holes_lt_iff` — a cycle ends with fewer holes just when the scan raises nothing and a node that the
  policy picks accepts its copy.
* `holes_lt_counterexample` — without a spare node a cycle fills nothing.
-/

namespace NanoFabric.Repair

open NanoFabric.Found
open NanoFabric.Metadata
open NanoFabric.Node (Bindable Row)
open NanoFabric.Storage

namespace RepairState

variable {s s' s₁ s₂ : RepairState} {b n old source target : String} {v : ℤ} {L : List String}
  {row : Row}

/-! ## Holes -/

/-- The node has no live copy of the block. -/
def lacks (s : RepairState) (b n : String) : Bool := ((s.cluster.nodes n).liveRow b).isNone

/-- The number of pairs of a block and a node of its placement that lacks it. -/
def holes (s : RepairState) : ℕ :=
  (s.cluster.placement.registry.blocks.entries.map fun item =>
    item.2.countP fun n => s.lacks item.1 n).sum

theorem lacks_eq_false_of_holds (h : s.holds b n = true) : s.lacks b n = false := by
  have hlive := (holds_iff.mp h).2.2
  unfold lacks
  rw [Option.isSome_iff_exists] at hlive
  obtain ⟨row, hrow⟩ := hlive
  rw [hrow]
  rfl

theorem SameCluster.holes (h : SameCluster s s') : s'.holes = s.holes := by
  unfold RepairState.holes lacks
  rw [h.cluster]

/-- A copy to a node outside the placement changes no hole. -/
theorem Copies.holes (h : Copies s s' b target) (hL : s.locations b = some L)
    (htarget : target ∉ L) : s'.holes = s.holes := by
  unfold RepairState.holes
  rw [h.placement]
  congr 1
  apply List.map_congr_left
  rintro ⟨b', L'⟩ hitem
  have hL' : s.locations b' = some L' := Dict.mem_entries.mp hitem
  apply List.countP_congr
  intro n hn
  simp only [lacks]
  by_cases hne : n = target
  · subst hne
    have hb : b' ≠ b := by
      rintro rfl
      obtain rfl := Option.some.inj (hL.symm.trans hL')
      exact htarget hn
    have hrow : (s'.cluster.nodes n).liveRow b' = (s.cluster.nodes n).liveRow b' :=
      congrArg (Option.filter _) (h.rows b' hb)
    rw [hrow]
  · rw [h.nodes n hne]

/-- A new placement of a block changes the holes of that block alone. -/
theorem Places.holes {nodes : List String} (h : Places s s' b v nodes)
    (hL : s.locations b = some L) :
    s'.holes + L.countP (s.lacks b) = s.holes + nodes.countP (s.lacks b) := by
  obtain ⟨-, placement, rfl, hregistry⟩ := h
  unfold RepairState.holes setPlacement
  simp only [hregistry, PlacementRegistry.registerBlock]
  exact Dict.sum_entries_set (fun item => item.2.countP fun n => s.lacks item.1 n) hL

/-- A holder in the place of a node that lacks the block fills a hole. -/
theorem countP_replaced {p : String → Bool} (hL : L.Nodup) (hmem : old ∈ L) (hold : p old = true)
    (htarget : p target = false) :
    (Placement.replaced L old target).countP p + 1 = L.countP p := by
  unfold Placement.replaced
  rw [if_neg fun h => h.1 hmem, List.countP_map]
  have hperm := List.perm_cons_erase hmem
  rw [hperm.countP_eq, hperm.countP_eq, List.countP_cons_of_neg (by simp [htarget]),
    List.countP_cons_of_pos hold]
  congr 1
  apply List.countP_congr
  intro n hn
  have hne : n ≠ old := by
    rintro rfl
    exact (List.Nodup.mem_erase_iff hL).mp hn |>.1 rfl
  simp [hne]

/-- A placement without one of its holders has the same holes. -/
theorem countP_filter_ne {p : String → Bool} (hn : p n = false) :
    (L.filter (· ≠ n)).countP p = L.countP p := by
  rw [List.countP_filter]
  apply List.countP_congr
  intro m _
  by_cases hm : m = n
  · simp [hm, hn]
  · simp [hm]

/-! ## Filling a hole -/

/-- All nodes of the placement of a block that the URL leads to are up and answer, and one of them lacks
the block. -/
structure Holed (s : RepairState) (b : String) (L : List String) : Prop where
  carried : s.Carries b
  locations : s.locations b = some L
  nodup : L.Nodup
  healthy : ∀ n ∈ L, n ∈ s.healthyNodes ∧ s.cluster.reaches s.silent n = true
  hole : ∃ n ∈ L, s.lacks b n = true

/-- The node that is found missing is one that lacks the block. -/
theorem Holed.missingNode (h : s.Holed b L) :
    ∃ n ∈ L, s.missingNode b = .ok (some n) ∧ s.lacks b n = true ∧ n ≠ "" := by
  obtain ⟨n, hn, hlacks⟩ := h.hole
  have hno : ∀ m ∈ L, s.hasBlock m b ≠ some true ↔ s.lacks b m = true := by
    intro m hm
    rw [ne_eq, hasBlock_eq_true h.carried, lacks]
    simp [(h.healthy m hm).2]
  have hfilter : L.filter (· ∉ s.healthyNodes) = [] := by
    rw [List.filter_eq_nil_iff]
    intro m hm
    simp [(h.healthy m hm).1]
  have hfind : (L.find? fun m => s.hasBlock m b ≠ some true).isSome := by
    rw [List.find?_isSome]
    exact ⟨n, hn, decide_eq_true ((hno n hn).mpr hlacks)⟩
  obtain ⟨m, hm⟩ := Option.isSome_iff_exists.mp hfind
  have hmem := List.mem_of_find?_eq_some hm
  have hlast : s.hasBlock m b ≠ some true := by simpa using List.find?_some hm
  refine ⟨m, hmem, ?_, (hno m hmem).mp hlast, ?_⟩
  · have hdown : L.find? (· ∈ ([] : List String)) = none := List.find?_eq_none.mpr (by simp)
    unfold RepairState.missingNode
    simp only [h.locations, Option.getD_some, hfilter]
    rw [findMissingNode_of_taken h.carried fun m hm => .of_reaches (h.healthy m hm).2, hdown, hm,
      Option.none_or]
  · exact ne_blank_of_reaches (h.healthy m hmem).2

theorem nodup_replaced (hL : L.Nodup) (hold : old ∈ L) (htarget : target ∉ L) :
    (Placement.replaced L old target).Nodup := by
  unfold Placement.replaced
  rw [if_neg fun h => h.1 hold]
  apply List.Nodup.map_on _ hL
  intro m hm m' hm' heq
  split at heq
  · rename_i hmold
    split at heq
    · rename_i hmold'
      exact hmold.trans hmold'.symm
    · exact absurd (heq ▸ hm') htarget
  · split at heq
    · exact absurd (heq ▸ hm) htarget
    · exact heq

/-- A target outside the placement that has the block takes the place of a node that lacks it. -/
theorem Holed.updatePlacement (h : s.Holed b L) (htarget : target ∉ L)
    (hhas : s.lacks b target = false) (hv : Bindable v) :
    ∃ s', updatePlacement b target v s = (s', .ok ()) ∧
      (∃ old ∈ L, Places s s' b v (Placement.replaced L old target)) ∧ s'.holes + 1 = s.holes := by
  obtain ⟨old, hold, hmissing, hlacks, hblank⟩ := h.missingNode
  have hne : old ≠ target := fun heq => htarget (heq ▸ hold)
  have hfound : s.oldNode b L (some old) = .ok (some old) := by
    unfold oldNode
    rw [truthy_some hblank]
  have hupdate : RepairState.updatePlacement b target v s = replaceReplica b old target v s := by
    unfold RepairState.updatePlacement updateMetadata
    simp only [hmissing, h.locations, Option.getD_some, hfound, Option.filter_some, ne_eq, hne,
      not_false_eq_true, decide_true, if_true]
  rw [hupdate]
  rcases replaceReplica_cases s b old target v with ⟨-, hno⟩ | ⟨L', hL', hok, hplaces⟩
  · exact absurd ⟨L, h.locations, hv, nodup_replaced h.nodup hold htarget⟩ hno
  · obtain rfl := Option.some.inj (h.locations.symm.trans hL')
    refine ⟨_, Prod.ext rfl hok, ⟨old, hold, hplaces⟩, ?_⟩
    have hholes : (replaceReplica b old target v s).1.holes + L.countP (s.lacks b) =
      s.holes + (Placement.replaced L old target).countP (s.lacks b) := hplaces.holes h.locations
    have hcount : (Placement.replaced L old target).countP (s.lacks b) + 1 = L.countP (s.lacks b) :=
      countP_replaced h.nodup hold hlacks hhas
    rw [← hcount, ← Nat.add_assoc, Nat.add_right_comm] at hholes
    exact Nat.add_right_cancel hholes

/-! ## Serving a block -/

/-- What serving a block leaves alone: the other blocks, the policy, and the live rows. -/
structure Serves (s s' : RepairState) (b : String) : Prop extends Follows s s' where
  policy : s'.policy = s.policy
  locations : ∀ b', b' ≠ b → s'.locations b' = s.locations b'
  rows : ∀ n b', b' ≠ b → (s'.cluster.nodes n).rows b' = (s.cluster.nodes n).rows b'

theorem Serves.trans (h : Serves s s₁ b) (h' : Serves s₁ s₂ b) : Serves s s₂ b where
  toFollows := h.toFollows.trans h'.toFollows
  policy := h'.policy.trans h.policy
  locations b' hb := (h'.locations b' hb).trans (h.locations b' hb)
  rows n b' hb := (h'.rows n b' hb).trans (h.rows n b' hb)

theorem SameCluster.serves (h : SameCluster s s') (hpolicy : s'.policy = s.policy) :
    Serves s s' b where
  toFollows := h.keeps.toFollows
  policy := hpolicy
  locations b' _ := congrFun h.locations b'
  rows n b' _ := by rw [h.cluster]

theorem Copyable.copies (h : s.Copyable b source target row) :
    Copies s (s.copied b source target row) b target := by
  have hcopies := copies_copyBlock s b source target
  rw [h.copyBlock] at hcopies
  exact hcopies

theorem Copyable.serves (h : s.Copyable b source target row) :
    Serves s (s.copied b source target row) b where
  toFollows := h.copies.toFollows
  policy := rfl
  locations b' _ := congrFun h.copies.locations b'
  rows n b' hb := by
    by_cases hn : n = target
    · exact hn ▸ h.copies.rows b' hb
    · rw [h.copies.nodes n hn]

theorem Places.serves {nodes : List String} (h : Places s s' b v nodes) : Serves s s' b where
  toFollows := h.follows
  policy := by
    obtain ⟨-, placement, rfl, -⟩ := h
    rfl
  locations b' hb := by rw [h.locations, if_neg hb]
  rows n b' _ := by
    obtain ⟨-, placement, rfl, -⟩ := h
    rfl

theorem Places.jobs {nodes : List String} (h : Places s s' b v nodes) : s'.jobs = s.jobs := by
  obtain ⟨-, placement, rfl, -⟩ := h
  rfl

theorem Places.verifyCopy {nodes : List String} (h : Places s s' b v nodes) (b' n m : String) :
    s'.verifyCopy b' n m = s.verifyCopy b' n m := by
  obtain ⟨-, placement, rfl, -⟩ := h
  rfl

/-- After the copy the placement still has its hole. -/
theorem Holed.copied (h : s.Holed b L) (hcopy : s.Copyable b source target row)
    (htarget : target ∉ L) : (s.copied b source target row).Holed b L where
  carried := h.carried
  locations := (congrFun hcopy.copies.locations b).trans h.locations
  nodup := h.nodup
  healthy n hn := by
    rw [hcopy.copies.toFollows.healthyNodes, hcopy.copies.toFollows.reaches]
    exact h.healthy n hn
  hole := by
    obtain ⟨n, hn, hlacks⟩ := h.hole
    have hne : n ≠ target := fun heq => htarget (heq ▸ hn)
    refine ⟨n, hn, ?_⟩
    unfold lacks
    rw [hcopy.copies.nodes n hne]
    exact hlacks

/-- A repair whose target accepts the copy fills a hole. -/
theorem Holed.repairBlock_of_accepts (h : s.Holed b L) (hcopy : s.Copyable b source target row)
    (hsource : source ∈ L) (htarget : target ∉ L) (hv : Bindable v)
    (haccepts : s.Accepts b target) :
    ∃ s', repairBlock b v (some source) (some target) s = (s', .ok (.ok ())) ∧ Serves s s' b ∧
      s'.jobs = s.jobs ∧ s'.verifyCopy b source target = .ok true ∧
      (∃ L', s'.locations b = some L' ∧ target ∈ L' ∧ ∀ n ∈ L', s'.Taken n) ∧
      s'.holes + 1 = s.holes := by
  have hup := (h.healthy source hsource).1
  obtain ⟨hverified, hverify⟩ := hcopy.copyVerified_of_accepts hup haccepts
  obtain ⟨-, row', hrow', -⟩ := hcopy.copied_of_accepts hup haccepts
  have hhas : (s.copied b source target row).lacks b target = false := by
    unfold lacks
    rw [liveRow_copied_target, hrow']
    rfl
  obtain ⟨s', hupdate, ⟨old, hold, hplaces⟩, hholes⟩ :=
    (h.copied hcopy htarget).updatePlacement htarget hhas hv
  have hserves := hcopy.serves.trans hplaces.serves
  refine ⟨s', ?_, hserves, hplaces.jobs, ?_,
    ⟨Placement.replaced L old target, ?_, ?_, fun n hn => ?_⟩, ?_⟩
  · unfold RepairState.repairBlock
    simp only [hverified, hupdate]
  · rw [hplaces.verifyCopy]
    exact hverify
  · exact (hplaces.locations b).trans (if_pos rfl)
  · unfold Placement.replaced
    rw [if_neg fun hno => hno.1 hold]
    exact List.mem_map.mpr ⟨old, hold, if_pos rfl⟩
  · apply Taken.of_reaches
    rw [hserves.toFollows.reaches]
    rcases mem_or_eq_of_mem_replaced hn with hn | rfl
    · exact (h.healthy n hn).2
    · exact hcopy.targetAnswers
  · rw [hholes]
    exact hcopy.copies.holes h.locations htarget

/-- A repair whose target does not accept the copy leaves the holes as they are. -/
theorem Holed.repairBlock_of_not_accepts (h : s.Holed b L) (hcopy : s.Copyable b source target row)
    (htarget : target ∉ L)
    (hagree : ∀ n ∈ s.healthyNodes, ∀ row', (s.cluster.nodes n).liveRow b = some row' →
      row'.version = row.version) (hno : ¬ s.Accepts b target) :
    ∃ s' message, repairBlock b v (some source) (some target) s = (s', .ok (.error message)) ∧
      Serves s s' b ∧ s'.jobs = s.jobs ∧ s'.holes = s.holes := by
  obtain ⟨message, hverified⟩ := hcopy.copyVerified_of_not_accepts hagree hno
  refine ⟨_, message, ?_, hcopy.serves, rfl, hcopy.copies.holes h.locations htarget⟩
  unfold RepairState.repairBlock
  simp only [hverified]

/-- The last replacement of a job changes nothing when the target is in the placement. -/
theorem replaceMissing_of_mem {job : RepairJob} (hb : s.Carries job.blockId)
    (hL : s.locations job.blockId = some L) (htaken : ∀ n ∈ L, s.Taken n)
    (htarget : job.targetNode ∈ L) : replaceMissing job s = (s, .ok ()) := by
  have hsearch := findMissingNode_of_taken hb htaken []
  unfold RepairState.replaceMissing
  split
  · simp only [hL, Option.getD_some, hsearch]
    split
    · rename_i old hold
      obtain ⟨hold, hne⟩ := Option.filter_eq_some_iff.mp hold
      rw [(truthy_eq_some.mp hold).1] at hsearch
      have hmem := (findMissingNode_spec (by simp) hsearch).1
      obtain ⟨e, he⟩ := replaceReplica_of_mem (v := job.version) hL hmem htarget (by simpa using hne)
      rw [he]
    · rfl
  · rfl

/-! ## Executing a job -/

/-- The state with other jobs. -/
def withJobs (s : RepairState) (jobs : RepairJobStore) : RepairState := { s with jobs }

theorem sameCluster_withJobs (s : RepairState) (jobs : RepairJobStore) :
    SameCluster s (s.withJobs jobs) := ⟨rfl, rfl⟩

theorem Holed.withJobs (h : s.Holed b L) (jobs : RepairJobStore) : (s.withJobs jobs).Holed b L :=
  ⟨h.carried, h.locations, h.nodup, h.healthy, h.hole⟩

theorem Copyable.withJobs (h : s.Copyable b source target row) (jobs : RepairJobStore) :
    (s.withJobs jobs).Copyable b source target row :=
  ⟨h.named, h.carried, h.ne, h.sourceAnswers, h.targetAnswers, h.held, h.pos, h.bindable, h.agrees⟩

/-- An update of a job that is stored changes that job alone. -/
theorem updateJobStatus_eq {r : Reading} {jobId : String} {job : RepairJob} (status : RepairStatus)
    (lastError : Option String) (inc : Bool) (hjob : s.jobs.getJob jobId = some job)
    (hattempts : job.attemptCount < 5) (hnow : Bindable r.now) :
    ∃ jobs, updateJobStatus r jobId status lastError inc s = (s.withJobs jobs, .ok ()) ∧
      ∀ jobId', jobs.getJob jobId' = if jobId' = jobId then
        some (RepairJobStore.updated job status lastError inc r.now) else s.jobs.getJob jobId' := by
  obtain ⟨jobs, hok, hget⟩ := RepairJobStore.updateJobStatus_of_storable (s := s.jobs)
    status lastError inc hjob hattempts hnow
  refine ⟨jobs, ?_, hget⟩
  unfold RepairState.updateJobStatus
  rw [hok]
  rfl

/-- A new job with a target outside the placement of a block that has a hole. -/
structure Fresh (s : RepairState) (job : RepairJob) (L : List String) (row : Row) : Prop where
  holed : s.Holed job.blockId L
  copyable : s.Copyable job.blockId job.sourceNode job.targetNode row
  source : job.sourceNode ∈ L
  target : job.targetNode ∉ L
  agree : ∀ n ∈ s.healthyNodes, ∀ row', (s.cluster.nodes n).liveRow job.blockId = some row' →
    row'.version = row.version
  stored : s.jobs.getJob job.jobId = some job
  attempts : job.attemptCount = 0
  version : Bindable job.version

/-- What serving the block of a job leaves: its other jobs as they are, and the job no longer
active. -/
structure JobDone (s s' : RepairState) (job : RepairJob) : Prop extends Serves s s' job.blockId where
  otherJobs : ∀ jobId, jobId ≠ job.jobId → s'.jobs.getJob jobId = s.jobs.getJob jobId
  done : ∀ job', s'.jobs.getJob job.jobId = some job' →
    job'.status ∉ [RepairStatus.pending, .copying, .verifying]

/-- A job fills a hole if its target accepts the copy, and otherwise leaves the holes as they are. -/
theorem Fresh.executeJob {r : Reading} {job : RepairJob} (h : s.Fresh job L row)
    (hnow : Bindable r.now) : ∃ s', executeJob r job s = (s', .ok ()) ∧ JobDone s s' job ∧
      ((s.Accepts job.blockId job.targetNode ∧ s'.holes + 1 = s.holes) ∨
        (¬ s.Accepts job.blockId job.targetNode ∧ s'.holes = s.holes)) := by
  obtain ⟨jobs₁, hcopying, hget₁⟩ := updateJobStatus_eq .copying none true h.stored
    (by rw [h.attempts]; decide) hnow
  have hsame₁ := sameCluster_withJobs s jobs₁
  have hholed := h.holed.withJobs jobs₁
  have hcopy := h.copyable.withJobs jobs₁
  have hjob₁ : (s.withJobs jobs₁).jobs.getJob job.jobId =
      some (RepairJobStore.updated job .copying none true r.now) :=
    (hget₁ _).trans (if_pos rfl)
  have hattempts : (RepairJobStore.updated job .copying none true r.now).attemptCount < 5 := by
    simp [RepairJobStore.updated, h.attempts]
  have hstart : ¬ maxRepairAttempts ≤ job.attemptCount := by
    rw [h.attempts]
    decide
  by_cases haccepts : s.Accepts job.blockId job.targetNode
  · obtain ⟨s₂, hrepair, hserves, hjobs₂, hverify, ⟨L', hL', htarget, htaken⟩, hholes⟩ :=
      hholed.repairBlock_of_accepts hcopy h.source h.target h.version haccepts
    obtain ⟨jobs₃, hverifying, hget₃⟩ := updateJobStatus_eq (s := s₂) (r := r)
      .verifying none false (hjobs₂ ▸ hjob₁) hattempts hnow
    have hjob₃ : (s₂.withJobs jobs₃).jobs.getJob job.jobId = some (RepairJobStore.updated
        (RepairJobStore.updated job .copying none true r.now) .verifying none false r.now) :=
      (hget₃ _).trans (if_pos rfl)
    obtain ⟨jobs₄, hcompleted, hget₄⟩ := updateJobStatus_eq (s := s₂.withJobs jobs₃) (r := r)
      .completed none false hjob₃ hattempts hnow
    have hverified : verifyRepair r job.jobId (s₂.withJobs jobs₃) =
        ((s₂.withJobs jobs₃).withJobs jobs₄, .ok true) := by
      unfold verifyRepair
      rw [hjob₃]
      have hcheck : (s₂.withJobs jobs₃).verifyCopy job.blockId job.sourceNode job.targetNode =
        .ok true := hverify
      simp only [RepairJobStore.updated, hcheck]
      rw [hcompleted]
    have hcarried : ((s₂.withJobs jobs₃).withJobs jobs₄).Carries job.blockId :=
      hserves.toFollows.carries.mpr hholed.carried
    have hquiet : replaceMissing job ((s₂.withJobs jobs₃).withJobs jobs₄) =
        ((s₂.withJobs jobs₃).withJobs jobs₄, .ok ()) :=
      replaceMissing_of_mem (L := L') hcarried hL' htaken htarget
    refine ⟨(s₂.withJobs jobs₃).withJobs jobs₄, ?_, ⟨?_, ?_, ?_⟩, Or.inl ⟨haccepts, ?_⟩⟩
    · unfold RepairState.executeJob repairJob
      rw [if_neg hstart]
      simp only [hcopying, hrepair, hverifying, hverified]
      rw [hquiet]
    · exact (hsame₁.serves rfl).trans (hserves.trans
        (((sameCluster_withJobs s₂ jobs₃).trans (sameCluster_withJobs _ jobs₄)).serves rfl))
    · intro jobId hne
      refine (hget₄ jobId).trans ((if_neg hne).trans ((hget₃ jobId).trans ((if_neg hne).trans ?_)))
      rw [hjobs₂]
      exact (hget₁ jobId).trans (if_neg hne)
    · intro job' hjob'
      obtain rfl := Option.some.inj (((hget₄ _).trans (if_pos rfl)).symm.trans hjob')
      simp [RepairJobStore.updated]
    · exact hholes
  · obtain ⟨s₂, message, hrepair, hserves, hjobs₂, hholes⟩ :=
      hholed.repairBlock_of_not_accepts (v := job.version) hcopy h.target h.agree haccepts
    obtain ⟨jobs₃, hfailed, hget₃⟩ := updateJobStatus_eq (s := s₂) (r := r) .failed
      (some message) false (hjobs₂ ▸ hjob₁) hattempts hnow
    refine ⟨s₂.withJobs jobs₃, ?_, ⟨?_, ?_, ?_⟩, Or.inr ⟨haccepts, hholes⟩⟩
    · unfold RepairState.executeJob repairJob
      rw [if_neg hstart]
      simp only [hcopying, hrepair, hfailed]
    · exact (hsame₁.serves rfl).trans
        (hserves.trans ((sameCluster_withJobs s₂ jobs₃).serves rfl))
    · intro jobId hne
      refine (hget₃ jobId).trans ((if_neg hne).trans ?_)
      rw [hjobs₂]
      exact (hget₁ jobId).trans (if_neg hne)
    · intro job' hjob'
      obtain rfl := Option.some.inj (((hget₃ _).trans (if_pos rfl)).symm.trans hjob')
      simp [RepairJobStore.updated]

/-! ## Calm clusters -/

/-- What the services see to: no block id is empty, no placement names a node twice, versions are
integers that SQLite takes, and live rows have the versions and LSNs of valid requests. -/
structure WellFormed (s : RepairState) : Prop where
  named : ∀ b L, s.locations b = some L → b ≠ ""
  nodup : ∀ b L, s.locations b = some L → L.Nodup
  versions : ∀ b v, s.cluster.placement.registry.getBlockVersion b = some v → Bindable v
  rows : ∀ n b row, (s.cluster.nodes n).liveRow b = some row →
    (1 ≤ row.version ∧ 1 ≤ row.originLsn) ∧ Bindable row.version ∧ Bindable row.originLsn

/-- All nodes are up and answer, every block has a live copy in its placement, all copies of a block
agree, and no job is outstanding. -/
structure Calm (s : RepairState) : Prop where
  up : ∀ n record, s.cluster.membership.nodes.get? n = some record → record.status = .up
  answers : ∀ n ∈ s.healthyNodes, s.cluster.reaches s.silent n = true
  placed : ∀ b L, s.locations b = some L → ∀ n ∈ L,
    ∃ record, s.cluster.membership.nodes.get? n = some record
  held : ∀ b L, s.locations b = some L → ∃ n ∈ L, s.lacks b n = false
  agree : ∀ b, ∀ n ∈ s.healthyNodes, ∀ m ∈ s.healthyNodes, ∀ row row',
    (s.cluster.nodes n).liveRow b = some row → (s.cluster.nodes m).liveRow b = some row' →
    row'.data = row.data ∧ row'.version = row.version
  idle : s.jobs.Idle
  spent : ∀ jobId job, s.jobs.getJob jobId = some job → job.status = .failed →
    maxRepairAttempts ≤ job.attemptCount

theorem Calm.healthy (h : s.Calm) (hL : s.locations b = some L) (hn : n ∈ L) :
    n ∈ s.healthyNodes := by
  obtain ⟨record, hrecord⟩ := h.placed b L hL n hn
  exact MembershipRegistry.mem_healthyNodes.mpr ⟨record, hrecord, h.up n record hrecord⟩

/-- In a calm cluster a node of a placement has the block unless it lacks it. -/
theorem Calm.present_eq (h : s.Calm) (hb : s.Carries b) (hL : s.locations b = some L) (hn : n ∈ L) :
    s.present b n = !s.lacks b n := by
  have hup := h.healthy hL hn
  rw [Bool.eq_iff_iff, present_iff hb, and_iff_right hup, and_iff_right (h.answers n hup)]
  simp [lacks]

/-- No read at a placement raises an exception that the scan does not catch. -/
def Scannable (s : RepairState) : Prop := ∀ b L, s.locations b = some L → s.Readable b

/-- The URLs of the placed blocks lead to no other blocks. -/
def NoAliases (s : RepairState) : Prop := ∀ b L, s.locations b = some L → s.NoAlias b

/-- In a calm cluster that a scan goes through, the URL leads to the blocks that nodes count as holders
of. -/
theorem Calm.carries_of_present (h : s.Calm) (halias : s.NoAliases) (hscan : s.Scannable)
    (hL : s.locations b = some L) (hp : s.present b n = true) : s.Carries b := by
  by_contra hb
  unfold present at hp
  rw [Bool.and_eq_true, decide_eq_true_iff, decide_eq_true_iff] at hp
  obtain ⟨m, hm, -⟩ := h.held b L hL
  -- a node of the placement would answer the same
  have hsame := readBlock_congr (halias b L hL) hb (h.answers n hp.1)
    (h.answers m (h.healthy hL hm))
  have hno : s.hasBlock m b ≠ some true :=
    (hscan b L hL).hasBlock_ne (halias b L hL) hb (by rw [hL]; exact hm)
  apply hno
  unfold hasBlock at hp ⊢
  rw [← hsame]
  exact hp.2

/-- What a scan reports of a block that is under-replicated. -/
theorem mem_underReplicated {block : UnderReplicatedBlock} (h : block ∈ s.underReplicated) :
    s.locations block.blockId = some block.desiredNodes ∧
      block.version = s.blockVersion block.blockId ∧
      block.presentNodes = block.desiredNodes.filter (s.present block.blockId) ∧
      ∃ n ∈ block.desiredNodes, s.present block.blockId n = false := by
  obtain ⟨⟨b, L⟩, hitem, hblock⟩ := List.mem_filterMap.mp h
  simp only [Option.ite_none_right_eq_some, Option.some.injEq] at hblock
  obtain ⟨hcond, rfl⟩ := hblock
  refine ⟨Dict.mem_entries.mp hitem, rfl, rfl, ?_⟩
  by_contra hall
  simp only [not_exists, not_and, Bool.not_eq_false] at hall
  have hmissing : L.filter (fun n => !s.present b n) = [] := by
    rw [List.filter_eq_nil_iff]
    intro n hn
    simp [hall n hn]
  have hpresent : L.filter (s.present b) = L := List.filter_eq_self.mpr hall
  rcases hcond with hlt | hne
  · rw [hpresent] at hlt
    exact absurd hlt (not_lt.mpr (List.length_filter_le _ _))
  · exact hne hmissing

/-- Reports that name the items they are about are named in the order of the items. -/
theorem map_filterMap_sublist {α β γ : Type} {f : α → Option β} {g : β → γ} {key : α → γ}
    (h : ∀ x y, f x = some y → g y = key x) (l : List α) :
    ((l.filterMap f).map g).Sublist (l.map key) := by
  induction l with
  | nil => exact .slnil
  | cons x l ih =>
      rw [List.filterMap_cons]
      split
      · exact ih.cons _
      · rename_i y hy
        rw [List.map_cons, h x y hy]
        exact ih.cons_cons _

/-- A scan reports a block once. -/
theorem nodup_underReplicated (s : RepairState) :
    (s.underReplicated.map UnderReplicatedBlock.blockId).Nodup := by
  refine s.cluster.placement.registry.blocks.nodup_keys.sublist
    (map_filterMap_sublist ?_ s.cluster.placement.registry.blocks.entries)
  intro item block hblock
  simp only [Option.ite_none_right_eq_some, Option.some.injEq] at hblock
  obtain ⟨-, rfl⟩ := hblock
  rfl

theorem pick_spec {policy : RoundRobinPlacementPolicy} {current healthy : List String}
    (h : (pick policy current healthy).2 = some n) : n ∈ healthy ∧ n ∉ current := by
  suffices hmem : n ∈ healthy.filter (· ∉ current) by
    obtain ⟨hmem, hnot⟩ := List.mem_filter.mp hmem
    exact ⟨hmem, of_decide_eq_true hnot⟩
  unfold pick at h
  simp only at h
  split at h
  · cases h
  · split at h
    · rename_i selected policy' hselect
      exact RoundRobinPlacementPolicy.mem_of_mem_selectNodes hselect (List.mem_of_mem_head? h)
    · exact List.mem_of_mem_head? h

/-- The targets that the policy picks in the under-replicated loop, with their blocks. -/
def planned (healthy : List String) :
    RoundRobinPlacementPolicy → List UnderReplicatedBlock → List (String × String)
  | _, [] => []
  | policy, block :: blocks =>
      let (policy', selected) := pick policy block.desiredNodes healthy
      match selected with
      | some target => (block.blockId, target) :: planned healthy policy' blocks
      | none => planned healthy policy' blocks

/-- The policy picks a node for a block with a hole that the URL leads to, and the node accepts the
copy. -/
def Repairable (s : RepairState) : Prop :=
  ∃ pick ∈ planned s.healthyNodes s.policy s.underReplicated,
    s.Carries pick.1 ∧ s.Accepts pick.1 pick.2

theorem Accepts.congr (hhealthy : s'.healthyNodes = s.healthyNodes)
    (hrows : ∀ n, (s'.cluster.nodes n).rows b = (s.cluster.nodes n).rows b) :
    s'.Accepts b target ↔ s.Accepts b target := by
  have hlive : ∀ n, (s'.cluster.nodes n).liveRow b = (s.cluster.nodes n).liveRow b :=
    fun n => congrArg (Option.filter _) (hrows n)
  unfold Accepts
  simp only [hhealthy, hrows, hlive]

/-- The blocks that are still to be served are as they were at the scan, and no job is active. -/
structure Ready (s₀ s : RepairState) (blocks : List UnderReplicatedBlock) : Prop
    extends Follows s₀ s where
  locations : ∀ block ∈ blocks, s.locations block.blockId = s₀.locations block.blockId
  rows : ∀ n, ∀ block ∈ blocks,
    (s.cluster.nodes n).rows block.blockId = (s₀.cluster.nodes n).rows block.blockId
  idle : s.jobs.Idle

/-- The ids of the readings are new, and SQLite takes their times. -/
structure Supplied (s : RepairState) (readings : ℕ → Reading) : Prop where
  unique : ∀ i j, (readings i).uuid = (readings j).uuid → i = j
  unused : ∀ i, s.jobs.getJob (readings i).uuid = none
  clock : ∀ i, Bindable (readings i).now

variable {s₀ : RepairState} {block : UnderReplicatedBlock} {blocks : List UnderReplicatedBlock}
  {readings : ℕ → Reading} {r : Reading}

theorem bindable_one : Bindable 1 := by decide

theorem WellFormed.blockVersion (h : s.WellFormed) (b : String) : Bindable (s.blockVersion b) := by
  unfold RepairState.blockVersion
  rcases hv : s.cluster.placement.registry.getBlockVersion b with _ | v
  · exact bindable_one
  · by_cases hzero : v = 0
    · simpa [hzero, Option.filter_some] using bindable_one
    · simpa [hzero, Option.filter_some] using h.versions b v hv

/-- The placement of a block that a scan of a calm cluster reports has a hole and a holder, which is
the source. -/
theorem Calm.holed (hcalm : s₀.Calm) (hwf : s₀.WellFormed) (hb : s₀.Carries block.blockId)
    (h : block ∈ s₀.underReplicated) : s₀.Holed block.blockId block.desiredNodes ∧
      ∃ source ∈ block.desiredNodes, block.presentNodes.head? = some source ∧
        s₀.holds block.blockId source = true := by
  obtain ⟨hL, -, hpresent, n, hn, habsent⟩ := mem_underReplicated h
  refine ⟨⟨hb, hL, hwf.nodup _ _ hL, fun m hm => ?_, n, hn, ?_⟩, ?_⟩
  · exact ⟨hcalm.healthy hL hm, hcalm.answers m (hcalm.healthy hL hm)⟩
  · rw [hcalm.present_eq hb hL hn] at habsent
    simpa using habsent
  · obtain ⟨m, hm, hholds⟩ := hcalm.held _ _ hL
    have hmem : m ∈ block.presentNodes := by
      rw [hpresent, List.mem_filter]
      refine ⟨hm, ?_⟩
      rw [hcalm.present_eq hb hL hm, hholds]
      rfl
    rcases hhead : block.presentNodes.head? with _ | source
    · rw [List.head?_eq_none_iff.mp hhead] at hmem
      cases hmem
    · have hsource : source ∈ block.presentNodes := List.mem_of_mem_head? hhead
      rw [hpresent, List.mem_filter, present_eq_holds hb] at hsource
      exact ⟨source, hsource.1, rfl, hsource.2⟩

/-- Without a URL that leads to the block, no source is found. -/
theorem presentNodes_of_not_carries (halias : s₀.NoAliases) (hscan : s₀.Scannable)
    (hb : ¬ s₀.Carries block.blockId) (h : block ∈ s₀.underReplicated) :
    block.presentNodes = [] := by
  obtain ⟨hL, -, hpresent, -⟩ := mem_underReplicated h
  rw [hpresent, List.filter_eq_nil_iff]
  intro n hn hp
  unfold present at hp
  rw [Bool.and_eq_true, decide_eq_true_iff, decide_eq_true_iff] at hp
  exact (hscan _ _ hL).hasBlock_ne (halias _ _ hL) hb (by rw [hL]; exact hn) hp.2

/-- The job that the cycle creates for a block. -/
def jobFor (r : Reading) (block : UnderReplicatedBlock) (source target : String) : RepairJob :=
  ⟨r.uuid, block.blockId, source, target, block.version, .reReplication, .pending, 0, none, r.now,
    r.now, none⟩

/-- The job of a block that is as it was at the scan of a calm cluster. -/
theorem Ready.fresh (hready : Ready s₀ s (block :: blocks)) (hcalm : s₀.Calm)
    (hwf : s₀.WellFormed) (hb : s₀.Carries block.blockId) (hblock : block ∈ s₀.underReplicated)
    (hsource : source ∈ block.desiredNodes) (hholds : s₀.holds block.blockId source = true)
    (htarget : target ∈ s₀.healthyNodes) (hout : target ∉ block.desiredNodes)
    (hsame : SameCluster s s₁)
    (hstored : s₁.jobs.getJob r.uuid = some (jobFor r block source target)) :
    ∃ row, s₁.Fresh (jobFor r block source target) block.desiredNodes row := by
  obtain ⟨hholed, -⟩ := hcalm.holed hwf hb hblock
  have hfollows : Follows s₀ s₁ := hready.toFollows.trans hsame.keeps.toFollows
  have hlive : ∀ n, (s₁.cluster.nodes n).liveRow block.blockId =
      (s₀.cluster.nodes n).liveRow block.blockId := by
    intro n
    rw [hsame.cluster]
    exact congrArg (Option.filter _) (hready.rows n block List.mem_cons_self)
  have hup := (hholed.healthy source hsource).1
  obtain ⟨row, hrow⟩ := Option.isSome_iff_exists.mp (holds_iff.mp hholds).2.2
  obtain ⟨hpos, hbindable⟩ := hwf.rows source block.blockId row hrow
  refine ⟨row, ⟨?_, ?_, hsource, hout, ?_, hstored, rfl, ?_⟩⟩
  · refine ⟨hfollows.carries.mpr hb, ?_, hholed.nodup, fun n hn => ?_, ?_⟩
    · rw [hsame.locations]
      exact (hready.locations block List.mem_cons_self).trans hholed.locations
    · rw [hfollows.healthyNodes, hfollows.reaches]
      exact hholed.healthy n hn
    · obtain ⟨n, hn, hlacks⟩ := hholed.hole
      refine ⟨n, hn, ?_⟩
      unfold lacks at hlacks ⊢
      rw [← hlacks]
      exact congrArg Option.isNone (hlive n)
  · refine ⟨hwf.named _ _ hholed.locations, hfollows.carries.mpr hb, ?_, ?_, ?_, ?_, hpos, hbindable,
      fun row' hrow' => ?_⟩
    · rintro (rfl : source = target)
      exact hout hsource
    · rw [hfollows.reaches]
      exact hcalm.answers source hup
    · rw [hfollows.reaches]
      exact hcalm.answers target htarget
    · exact (hlive source).trans hrow
    · exact hcalm.agree block.blockId source hup target htarget row row' hrow
        ((hlive target).symm.trans hrow')
  · intro n hn row' hrow'
    rw [hfollows.healthyNodes] at hn
    exact (hcalm.agree block.blockId source hup n hn row row' hrow ((hlive n).symm.trans hrow')).2
  · have hversion := (mem_underReplicated hblock).2.1
    have hbindable := hwf.blockVersion block.blockId
    rw [← hversion] at hbindable
    exact hbindable

end RepairState

/-! ## The under-replicated loop -/

namespace Cycle

open RepairState (Supplied Ready SameCluster planned jobFor)

variable {sha256 : String → String} {s₀ s : RepairState} {block : UnderReplicatedBlock}
  {blocks : List UnderReplicatedBlock} {readings : ℕ → Reading}

theorem scheduleUnder_of_none {r : Reading} (h : block.presentNodes = [] ∨
      (pick s.policy block.desiredNodes s.healthyNodes).2 = none) :
    scheduleUnder r block s =
      ({ s with policy := (pick s.policy block.desiredNodes s.healthyNodes).1 }, .ok none) := by
  unfold scheduleUnder RepairState.selectReplacement
  rcases h with h | h
  · simp only [h]
    rfl
  · simp only [h]
    split
    · rename_i hselected
      cases hselected
    · rfl

theorem scheduleUnder_of_some {r : Reading} {source target : String} {jobs : RepairJobStore}
    {job : RepairJob} (hhead : block.presentNodes.head? = some source) (hsource : source ≠ "")
    (hpick : (pick s.policy block.desiredNodes s.healthyNodes).2 = some target)
    (htarget : target ≠ "")
    (hcreate : s.jobs.createJob block.blockId source target block.version .reReplication r.uuid
      r.now = .ok (jobs, job)) :
    scheduleUnder r block s =
      ({ s with policy := (pick s.policy block.desiredNodes s.healthyNodes).1, jobs },
        .ok (some job)) := by
  unfold scheduleUnder RepairState.selectReplacement
  simp only [hhead, hpick, RepairState.truthy_some hsource, RepairState.truthy_some htarget,
    RepairState.scheduleRepair, hcreate]

/-- What the loop does to one block: a hole is filled if the policy picks a node, the URL leads to the
block and the node accepts the copy. -/
theorem repairUnder_of_ready (hcalm : s₀.Calm) (hwf : s₀.WellFormed) (halias : s₀.NoAliases)
    (hscan : s₀.Scannable) (hblock : block ∈ s₀.underReplicated)
    (hnew : block.blockId ∉ blocks.map UnderReplicatedBlock.blockId)
    (hready : Ready s₀ s (block :: blocks)) (hsupplied : Supplied s readings) :
    ∃ s', repairUnder (readings 0) block s = (s', .ok ()) ∧ Ready s₀ s' blocks ∧
      Supplied s' (fun i => readings (i + 1)) ∧
      s'.policy = (pick s.policy block.desiredNodes s₀.healthyNodes).1 ∧
      ((pick s.policy block.desiredNodes s₀.healthyNodes).2 = none → s'.holes = s.holes) ∧
      ∀ target, (pick s.policy block.desiredNodes s₀.healthyNodes).2 = some target →
        ((s₀.Carries block.blockId ∧ s₀.Accepts block.blockId target) ∧ s'.holes + 1 = s.holes) ∨
          (¬ (s₀.Carries block.blockId ∧ s₀.Accepts block.blockId target) ∧
            s'.holes = s.holes) := by
  have hhealthy := hready.toFollows.healthyNodes
  have hother : ∀ b' ∈ blocks, b'.blockId ≠ block.blockId :=
    fun b' hb' heq => hnew (heq ▸ List.mem_map_of_mem hb')
  have hunique : ∀ i, (readings (i + 1)).uuid ≠ (readings 0).uuid :=
    fun i heq => absurd (hsupplied.unique _ _ heq) (Nat.succ_ne_zero i)
  by_cases hquiet : block.presentNodes = [] ∨
      (pick s.policy block.desiredNodes s.healthyNodes).2 = none
  · -- no source or no target
    have hsame : SameCluster s
        { s with policy := (pick s.policy block.desiredNodes s.healthyNodes).1 } := ⟨rfl, rfl⟩
    rw [← hhealthy]
    refine ⟨{ s with policy := (pick s.policy block.desiredNodes s.healthyNodes).1 }, ?_, ?_, ?_, rfl,
      fun _ => hsame.holes, fun target htarget => Or.inr ⟨fun haccepts => ?_, hsame.holes⟩⟩
    · unfold repairUnder
      rw [scheduleUnder_of_none hquiet]
    · exact ⟨hready.toFollows.trans hsame.keeps.toFollows,
        fun b' hb' => hready.locations b' (List.mem_cons_of_mem _ hb'),
        fun n b' hb' => hready.rows n b' (List.mem_cons_of_mem _ hb'), hready.idle⟩
    · exact ⟨fun i j heq => Nat.succ.inj (hsupplied.unique _ _ heq),
        fun i => hsupplied.unused (i + 1), fun i => hsupplied.clock (i + 1)⟩
    · rcases hquiet with hnone | hnone
      · obtain ⟨-, source, -, hhead, -⟩ := hcalm.holed hwf haccepts.1 hblock
        rw [hnone] at hhead
        cases hhead
      · rw [hnone] at htarget
        cases htarget
  · obtain ⟨hpresent, hpick⟩ := not_or.mp hquiet
    obtain ⟨target, hpick⟩ := Option.ne_none_iff_exists'.mp hpick
    rw [hhealthy] at hpick
    have hb : s₀.Carries block.blockId := by
      by_contra hno
      exact hpresent (RepairState.presentNodes_of_not_carries halias hscan hno hblock)
    obtain ⟨hup, hout⟩ := RepairState.pick_spec hpick
    obtain ⟨hholed, source, hsource, hhead, hholds⟩ := hcalm.holed hwf hb hblock
    have hversion : Node.Bindable block.version := by
      rw [(RepairState.mem_underReplicated hblock).2.1]
      exact hwf.blockVersion _
    obtain ⟨jobs, hcreate, hget⟩ := hready.idle.createJob block.blockId source target
      .reReplication (hsupplied.unused 0) (hsupplied.clock 0) hversion
    rw [← hhealthy] at hpick ⊢
    have hschedule := scheduleUnder_of_some hhead
      (RepairState.ne_blank_of_reaches (hholed.healthy source hsource).2) hpick
      (RepairState.ne_blank_of_reaches (hcalm.answers target hup)) hcreate
    have hsame : SameCluster s
        { s with policy := (pick s.policy block.desiredNodes s.healthyNodes).1, jobs } := ⟨rfl, rfl⟩
    obtain ⟨row, hfresh⟩ := hready.fresh hcalm hwf hb hblock hsource hholds hup hout hsame
      (r := readings 0) ((hget _).trans (if_pos rfl))
    obtain ⟨s', hexecute, hdone, houtcome⟩ := hfresh.executeJob (hsupplied.clock 0)
    have hjobs : ∀ jobId, jobId ≠ (readings 0).uuid →
        s'.jobs.getJob jobId = s.jobs.getJob jobId := fun jobId hne =>
      (hdone.otherJobs jobId hne).trans ((hget jobId).trans (if_neg hne))
    refine ⟨s', ?_, ?_, ?_, hdone.policy, (fun hnone => by rw [hpick] at hnone; cases hnone), ?_⟩
    · unfold repairUnder
      rw [hschedule]
      exact hexecute
    · refine ⟨(hready.toFollows.trans hsame.keeps.toFollows).trans hdone.toFollows,
        fun b' hb' => ?_, fun n b' hb' => ?_, fun jobId job hjob => ?_⟩
      · exact (hdone.locations _ (hother b' hb')).trans
          (hready.locations b' (List.mem_cons_of_mem _ hb'))
      · exact (hdone.rows n _ (hother b' hb')).trans
          (hready.rows n b' (List.mem_cons_of_mem _ hb'))
      · by_cases hne : jobId = (readings 0).uuid
        · subst hne
          exact hdone.done job hjob
        · rw [hjobs jobId hne] at hjob
          exact hready.idle jobId job hjob
    · exact ⟨fun i j heq => Nat.succ.inj (hsupplied.unique _ _ heq),
        fun i => (hjobs _ (hunique i)).trans (hsupplied.unused (i + 1)),
        fun i => hsupplied.clock (i + 1)⟩
    · intro target' htarget'
      obtain rfl := Option.some.inj (hpick.symm.trans htarget')
      have haccepts : s₀.Accepts block.blockId target ↔ RepairState.Accepts
          { s with policy := (pick s.policy block.desiredNodes s.healthyNodes).1, jobs }
          block.blockId target :=
        (RepairState.Accepts.congr hhealthy fun n => hready.rows n block List.mem_cons_self).symm
      rw [and_iff_right hb, haccepts]
      exact houtcome

/-! ## The whole cycle -/

/-- The cycle is over, and the holes are as many as they were. -/
def Over (holes : ℕ) (c : Cycle) : Prop := c.todo = [] ∧ c.state.holes = holes

theorem step_of_ok (tasks : List Task) {task : Task} {rest : List Task} {r : Reading}
    {s' : RepairState} (h : perform sha256 r task s = (s', .ok tasks)) :
    step sha256 ⟨s, task :: rest⟩ r = some ⟨s', tasks ++ rest⟩ := by
  unfold step
  simp only [h]

theorem step_of_error {task : Task} {rest : List Task} {r : Reading} {s' : RepairState}
    {e : RepairError} (h : perform sha256 r task s = (s', .error e)) :
    step sha256 ⟨s, task :: rest⟩ r = some ⟨s', []⟩ := by
  unfold step
  simp only [h]

/-- The removal of a holder from a placement changes no hole. -/
theorem holes_removeExtraReplica {b n : String} {v : ℤ} (h : s.holds b n = true) :
    (RepairState.removeExtraReplica b n v s).1.holes = s.holes := by
  rcases RepairState.removeExtraReplica_cases s b n v with ⟨hsame, -⟩ | ⟨L, hL, -, hplaces⟩
  · rw [hsame]
  · have hholes : (RepairState.removeExtraReplica b n v s).1.holes + L.countP (s.lacks b) =
        s.holes + (L.filter (· ≠ n)).countP (s.lacks b) := hplaces.holes hL
    rw [RepairState.countP_filter_ne (RepairState.lacks_eq_false_of_holds h)] at hholes
    exact Nat.add_right_cancel hholes

/-- What follows the under-replicated loop in a calm cluster changes no hole. -/
theorem ends_extras (sha256 : String → String) (readings : ℕ → Reading) (tasks : List Task)
    (hidle : s.jobs.Idle)
    (htasks : ∀ task ∈ tasks, ∃ b n v, task = .extra b n v ∧ s.holds b n = true) :
    Ends (step sha256) (Over s.holes) ⟨s, tasks ++ [.pending]⟩ readings := by
  induction tasks generalizing s readings with
  | nil =>
      refine .next (step_of_ok [] ?_) (.now ⟨rfl, rfl⟩)
      simp only [perform, hidle.listJobsByStatus]
      rfl
  | cons task tasks ih =>
      obtain ⟨b, n, v, rfl, hholds⟩ := htasks task List.mem_cons_self
      have hholes := holes_removeExtraReplica (v := v) hholds
      have hquiet : (RepairState.removeExtraReplica b n v s).1.jobs = s.jobs ∧
          s.Follows (RepairState.removeExtraReplica b n v s).1 := by
        rcases RepairState.removeExtraReplica_cases s b n v with ⟨hsame, -⟩ | ⟨L, -, -, hplaces⟩
        · rw [hsame]
          exact ⟨rfl, .refl s⟩
        · exact ⟨hplaces.jobs, hplaces.follows⟩
      rcases hres : RepairState.removeExtraReplica b n v s with ⟨s', e | u⟩
      · rw [hres] at hholes
        exact .next (step_of_error (e := e) (by simp only [perform, hres]; rfl)) (.now ⟨rfl, hholes⟩)
      · rw [hres] at hholes hquiet
        refine .next (step_of_ok [] (by simp only [perform, hres]; rfl)) ?_
        rw [← hholes]
        refine ih (s := s') _ (by rw [hquiet.1]; exact hidle) fun task htask => ?_
        obtain ⟨b', n', v', rfl, hholds'⟩ := htasks task (List.mem_cons_of_mem _ htask)
        exact ⟨b', n', v', rfl, hquiet.2.holds hholds'⟩

/-- What the loop does to the holes: it fills one for each node that the policy picks and that accepts
its copy. -/
theorem ends_under (sha256 : String → String) (readings : ℕ → Reading) (tasks : List Task)
    (hcalm : s₀.Calm) (hwf : s₀.WellFormed) (halias : s₀.NoAliases) (hscan : s₀.Scannable)
    (htasks : ∀ task ∈ tasks, ∃ b n v, task = .extra b n v ∧ s₀.holds b n = true)
    (hblocks : ∀ block ∈ blocks, block ∈ s₀.underReplicated)
    (hnodup : (blocks.map UnderReplicatedBlock.blockId).Nodup)
    (hready : Ready s₀ s blocks) (hsupplied : Supplied s readings) :
    Ends (step sha256) (fun c => c.todo = [] ∧ c.state.holes ≤ s.holes ∧
      (c.state.holes < s.holes ↔
        ∃ pick ∈ planned s₀.healthyNodes s.policy blocks,
          s₀.Carries pick.1 ∧ s₀.Accepts pick.1 pick.2))
      ⟨s, blocks.map .under ++ (tasks ++ [.pending])⟩ readings := by
  induction blocks generalizing s readings with
  | nil =>
      have hend := ends_extras sha256 readings tasks hready.idle fun task htask => by
          obtain ⟨b, n, v, rfl, hholds⟩ := htasks task htask
          exact ⟨b, n, v, rfl, hready.toFollows.holds hholds⟩
      refine hend.mono fun c hc => ⟨hc.1, hc.2.le, ?_⟩
      simp [hc.2, planned]
  | cons block blocks ih =>
      obtain ⟨hnew, hnodup⟩ := List.nodup_cons.mp hnodup
      obtain ⟨s', hunder, hready', hsupplied', hpolicy, hnone, hsome⟩ := repairUnder_of_ready hcalm
        hwf halias hscan (hblocks block List.mem_cons_self) hnew hready hsupplied
      have hrest := ih _ (fun b' hb' => hblocks b' (List.mem_cons_of_mem _ hb')) hnodup hready'
        hsupplied'
      rw [List.map_cons, List.cons_append]
      refine .next (step_of_ok [] (by simp only [perform, hunder]; rfl)) ?_
      refine hrest.mono fun c hc => ?_
      obtain ⟨htodo, hle, hiff⟩ := hc
      rw [hpolicy] at hiff
      rcases hpick : (pick s.policy block.desiredNodes s₀.healthyNodes).2 with _ | target
      · rw [hnone hpick] at hle hiff
        simp only [planned, hpick]
        exact ⟨htodo, hle, hiff⟩
      · simp only [planned, hpick, List.mem_cons, exists_eq_or_imp]
        rcases hsome target hpick with ⟨haccepts, hholes⟩ | ⟨hno, hholes⟩
        · exact ⟨htodo, by omega, iff_of_true (by omega) (Or.inl haccepts)⟩
        · rw [hholes] at hle hiff
          refine ⟨htodo, hle, hiff.trans ?_⟩
          simp [hno]

/-- In a calm cluster no copies diverge. -/
theorem divergedBlocks_of_calm (hcalm : s.Calm) (halias : s.NoAliases) :
    s.divergedBlocks sha256 = [] := by
  unfold RepairState.divergedBlocks
  rw [List.filterMap_eq_nil_iff]
  rintro ⟨b, L⟩ hitem
  have halias := halias b L (Dict.mem_entries.mp hitem)
  simp only [ite_eq_right_iff, reduceCtorEq, imp_false, not_lt]
  rw [Finset.card_le_one]
  have hhash : ∀ x ∈ (s.nodeHashes sha256 b (L.filter (· ∈ s.healthyNodes))).values.toFinset,
      ∃ n ∈ s.healthyNodes, ∃ row, (s.cluster.nodes n).liveRow b = some row ∧
        x = RepairState.leafHash sha256 b (Node.StorageEngine.blockRecord b row) := by
    intro x hx
    obtain ⟨n, hn⟩ := Dict.mem_values.mp (List.mem_toFinset.mp hx)
    rw [RepairState.get?_nodeHashes, Option.ite_none_right_eq_some] at hn
    obtain ⟨hmem, hdigest⟩ := hn
    unfold RepairState.answerDigest at hdigest
    split at hdigest
    · rename_i record hread
      have hb : s.Carries b := by
        by_contra hno
        exact RepairState.readBlock_ne_record halias hno n record hread
      obtain ⟨row, hrow, rfl⟩ := (RepairState.readBlock_eq_record hb).mp hread
      obtain ⟨-, hx⟩ := Option.ite_none_left_eq_some.mp hdigest
      exact ⟨n, of_decide_eq_true (List.mem_filter.mp hmem).2, row,
        (RepairState.readRow_eq_some.mp hrow).2, (Option.some.inj hx).symm⟩
    · cases hdigest
  intro x hx y hy
  obtain ⟨n, hn, row, hrow, rfl⟩ := hhash x hx
  obtain ⟨m, hm, row', hrow', rfl⟩ := hhash y hy
  obtain ⟨hdata, hversion⟩ := hcalm.agree b n hn m hm row row' hrow hrow'
  unfold RepairState.leafHash Node.StorageEngine.blockRecord
  simp only [hdata, hversion]

/-- In a calm cluster the healthy nodes of a placement are its nodes. -/
theorem filter_healthyNodes (hcalm : s.Calm) {b : String} {L : List String}
    (hL : s.locations b = some L) : L.filter (· ∈ s.healthyNodes) = L :=
  List.filter_eq_self.mpr fun _ hn => decide_eq_true (hcalm.healthy hL hn)

/-- What a scan puts on the worklist when no read raises. -/
theorem scanned_of_calm (hcalm : s.Calm) (halias : s.NoAliases) (hscan : s.Scannable)
    (rank : String → ℕ) : scanned sha256 rank s = .ok (s.underReplicated.map .under ++
      (s.overReplicated rank).flatMap (fun info =>
        info.extraNodes.map fun extra => .extra info.blockId extra info.version) ++ [.pending]) := by
  have hreadable : ∀ b L, (b, L) ∈ s.cluster.placement.registry.blocks.entries →
      s.locations b = some L ∧ s.Readable b := fun b L hitem =>
    ⟨Dict.mem_entries.mp hitem, hscan b L (Dict.mem_entries.mp hitem)⟩
  have hunder : s.findUnderReplicated = .ok s.underReplicated := by
    unfold RepairState.findUnderReplicated
    rw [if_neg]
    simp only [List.any_eq_true, Bool.and_eq_true, not_exists, not_and, Prod.forall]
    intro b L hitem n hn _
    obtain ⟨hL, hread⟩ := hreadable b L hitem
    rw [hread.invalidUrl (by rw [hL]; exact hn)]
    exact Bool.false_ne_true
  have hover : s.findOverReplicated rank = .ok (s.overReplicated rank) := by
    unfold RepairState.findOverReplicated
    rw [if_neg]
    simp only [List.any_eq_true, Bool.and_eq_true, not_exists, not_and, Prod.forall]
    intro b L hitem n hn _
    obtain ⟨hL, hread⟩ := hreadable b L hitem
    obtain ⟨m, hm, -⟩ := hcalm.held b L hL
    have hvalid := hread.invalidUrl (n := m) (by rw [hL]; exact hm)
    rw [RepairState.invalidUrl_of_reaches (hcalm.answers m (hcalm.healthy hL hm))] at hvalid
    rw [RepairState.invalidUrl_of_reaches (hcalm.answers n hn), hvalid]
    exact Bool.false_ne_true
  have hdiverged : s.findDiverged sha256 = .ok [] := by
    unfold RepairState.findDiverged
    split
    · rename_i e hraised
      obtain ⟨⟨b, L⟩, hitem, hraises⟩ := List.exists_of_findSome?_eq_some hraised
      obtain ⟨hL, hread⟩ := hreadable b L hitem
      unfold RepairState.Readable at hread
      simp only [filter_healthyNodes hcalm hL] at hraises
      rw [hL, Option.getD_some, hraises] at hread
      cases hread
    · rw [divergedBlocks_of_calm hcalm halias]
  have horphans : s.findOrphans = .ok () := by
    unfold RepairState.findOrphans
    rw [if_neg]
    simp only [List.any_eq_true, not_exists, not_and]
    intro n hn hany
    obtain ⟨address, haddress, htakes⟩ := (Option.any_eq_true _ _).mp hany
    rw [RepairState.Taken.of_reaches (hcalm.answers n hn) address haddress] at htakes
    cases htakes
  unfold scanned
  rw [hunder, hover, hdiverged, horphans]
  exact congrArg Except.ok (by simp)

/-- A read that raises ends the scan. -/
theorem scanned_of_not_scannable (sha256 : String → String) (hcalm : s.Calm) (hno : ¬ s.Scannable)
    (rank : String → ℕ) :
    ∃ e, scanned sha256 rank s = .error e := by
  have hdiverged : ∃ e, s.findDiverged sha256 = .error e := by
    unfold RepairState.findDiverged
    split
    · rename_i e _
      exact ⟨e, rfl⟩
    · rename_i hraised
      refine absurd (fun b L hL => ?_) hno
      have hread := List.findSome?_eq_none_iff.mp hraised (b, L) (Dict.mem_entries.mpr hL)
      simp only at hread
      rw [filter_healthyNodes hcalm hL] at hread
      unfold RepairState.Readable
      rw [hL]
      exact hread
  obtain ⟨e, hdiverged⟩ := hdiverged
  unfold scanned
  rcases s.findUnderReplicated with e' | underReplicated
  · exact ⟨e', rfl⟩
  · rcases s.findOverReplicated rank with e' | overReplicated
    · exact ⟨e', rfl⟩
    · rw [hdiverged]
      exact ⟨e, rfl⟩

/-- In a calm cluster no job is recovered. -/
theorem recoverJobs_of_calm (hcalm : s.Calm) (r : Reading) :
    RepairState.recoverJobs r s = (s, .ok ()) := by
  have hinterrupted : s.jobs.listInterruptedJobs = [] := by
    rw [List.eq_nil_iff_forall_not_mem]
    intro job hjob
    obtain ⟨hjob, hstatus⟩ := RepairJobStore.mem_listJobsByStatus.mp hjob
    exact hcalm.idle _ job hjob (List.mem_cons_of_mem _ hstatus)
  have hfailed : (s.jobs.listJobsByStatus [.failed]).filter
      (fun job => job.attemptCount < maxRepairAttempts) = [] := by
    rw [List.filter_eq_nil_iff]
    intro job hjob
    obtain ⟨hjob, hstatus⟩ := RepairJobStore.mem_listJobsByStatus.mp hjob
    simpa using hcalm.spent _ job hjob (List.mem_singleton.mp hstatus)
  unfold RepairState.recoverJobs
  rw [hinterrupted]
  simp only [RepairState.resetJobs, hfailed]

/-- Nodes of which the first has the one block, which is placed on the first two. -/
def oneHolder (membership : MembershipRegistry) (named : membership.nodes.get? "" = none) :
    RepairState where
  cluster := {
    membership
    placement := { Placement.empty with
      registry := .registerBlock .empty "b1" 1 ["node1", "node2"] }
    nodes nodeId := if nodeId = "node1" then (LocalEngine.empty "node1").call
      (.writeLocal "b1" "data" (.resolve (some 1)) none none) else .empty nodeId
    urls := .plain }
  silent := []
  policy := ⟨0⟩
  jobs := Table.empty
  named

/-- Two nodes. -/
def twoNodes : MembershipRegistry :=
  (MembershipRegistry.empty.register "node1" "127.0.0.1:8001" 1000).register "node2"
    "127.0.0.1:8002" 1000

/-- Three nodes. -/
def threeNodes : MembershipRegistry := twoNodes.register "node3" "127.0.0.1:8003" 1000

/-- Ids that are all different. -/
def freshReadings (i : ℕ) : Reading := ⟨1000, String.ofList (List.replicate i 'a'), fun _ => 0⟩

variable {membership : MembershipRegistry} {named : membership.nodes.get? "" = none}

theorem liveRow_oneHolder (n b : String) :
    ((oneHolder membership named).cluster.nodes n).liveRow b =
      if n = "node1" ∧ b = "b1" then some (Row.live "data" 1 "node1" 1) else none := by
  unfold oneHolder
  simp only
  by_cases hn : n = "node1"
  · by_cases hb : b = "b1"
    · subst hb
      rw [if_pos hn, if_pos ⟨hn, rfl⟩]
      decide +kernel
    · rw [if_pos hn, if_neg fun h => hb h.2, Option.eq_none_iff_forall_ne_some]
      intro row hrow
      obtain ⟨hrow, -⟩ := LocalEngine.liveRow_eq_some.mp hrow
      rcases Node.Running.blocks_run hrow with ⟨row', hrow'⟩ | htarget
      · cases hrow'
      · exact hb (Option.some.inj htarget).symm
  · rw [if_neg hn, if_neg fun h => hn h.1]
    rfl

theorem locations_oneHolder {b : String} {L : List String}
    (h : (oneHolder membership named).locations b = some L) :
    b = "b1" ∧ L = ["node1", "node2"] := by
  unfold oneHolder RepairState.locations at h
  simp only [PlacementRegistry.getBlockLocations_registerBlock] at h
  split at h
  · rename_i hb
    exact ⟨hb, (Option.some.inj h).symm⟩
  · cases h

theorem wellFormed_oneHolder : (oneHolder membership named).WellFormed where
  named b L hL := by
    obtain ⟨rfl, -⟩ := locations_oneHolder hL
    decide
  nodup b L hL := by
    obtain ⟨-, rfl⟩ := locations_oneHolder hL
    decide
  versions b v hv := by
    unfold oneHolder at hv
    simp only [PlacementRegistry.getBlockVersion_registerBlock] at hv
    split at hv
    · obtain rfl := Option.some.inj hv
      exact RepairState.bindable_one
    · cases hv
  rows n b row hrow := by
    rw [liveRow_oneHolder] at hrow
    split at hrow
    · obtain rfl := Option.some.inj hrow
      decide
    · cases hrow

theorem calm_oneHolder (hup : ∀ item ∈ membership.nodes.entries, item.2.status = .up)
    (hanswers : ∀ item ∈ membership.nodes.entries, item.2.address ≠ "")
    (hplaced : "node1" ∈ membership.nodes.keys ∧ "node2" ∈ membership.nodes.keys) :
    (oneHolder membership named).Calm where
  up n record h := hup (n, record) (Dict.mem_entries.mpr h)
  answers n hn := by
    obtain ⟨record, hrecord, -⟩ := MembershipRegistry.mem_healthyNodes.mp hn
    have haddress := hanswers (n, record) (Dict.mem_entries.mpr hrecord)
    unfold Cluster.reaches Cluster.address
    rw [hrecord]
    simp [oneHolder, haddress, Option.filter_some, Node.Urls.plain]
  placed b L hL n hn := by
    obtain ⟨-, rfl⟩ := locations_oneHolder hL
    rcases List.mem_cons.mp hn with rfl | hn
    · exact Dict.mem_keys.mp hplaced.1
    · obtain rfl := List.mem_singleton.mp hn
      exact Dict.mem_keys.mp hplaced.2
  held b L hL := by
    obtain ⟨rfl, rfl⟩ := locations_oneHolder hL
    refine ⟨"node1", List.mem_cons_self, ?_⟩
    unfold RepairState.lacks
    rw [liveRow_oneHolder]
    rfl
  agree b n _ m _ row row' hrow hrow' := by
    rw [liveRow_oneHolder] at hrow hrow'
    split at hrow
    · split at hrow'
      · obtain rfl := Option.some.inj hrow
        obtain rfl := Option.some.inj hrow'
        exact ⟨rfl, rfl⟩
      · cases hrow'
    · cases hrow
  idle jobId job h := by cases h
  spent jobId job h := by cases h

theorem noAliases_oneHolder : (oneHolder membership named).NoAliases := by
  intro b L hL
  obtain ⟨rfl, -⟩ := locations_oneHolder hL
  have hplain : Node.Urls.plain.read "b1" = .block "b1" := by decide
  exact RepairState.Carries.noAlias hplain

theorem supplied_oneHolder : Supplied (oneHolder membership named) freshReadings where
  unique i j h := by simpa [freshReadings] using congrArg String.length h
  unused i := rfl
  clock i := by
    have hclock : Node.Bindable 1000 := by decide
    exact hclock

theorem named_twoNodes : twoNodes.nodes.get? "" = none := by decide +kernel

theorem named_threeNodes : threeNodes.nodes.get? "" = none := by decide +kernel

/-- The cluster with a spare node. -/
def spareNode : RepairState := oneHolder threeNodes named_threeNodes

/-- The cluster without one. -/
def noSpareNode : RepairState := oneHolder twoNodes named_twoNodes

end Cycle

end NanoFabric.Repair
