import NanoFabric.Metadata.StateMachine

/-!
# Raft snapshots round trip

A snapshot built from one machine and restored into another that already has a history of its own.
`observe_restoreSnapshot` says what the restored machine shows, and `restore_build_iff` when that is
what the first machine shows. What goes wrong otherwise is that the snapshot keeps the inventories
of registered nodes only, that the jobs of the target stay beside those of the snapshot, and that a
version 0 is written as 1.
-/

namespace NanoFabric.Metadata

open NanoFabric.Found

theorem NodeInventory.inventory_foldl_registerInventory (l : List (String × Finset String))
    (i : NodeInventory) :
    (l.foldl (fun i item => i.registerInventory item.1 item.2) i).inventory =
      l.foldl (fun d item => d.set item.1 item.2) i.inventory := by
  induction l generalizing i with
  | nil => rfl
  | cons item l ih => exact ih _

/-- Registering the inventories of a dictionary replaces those of its nodes. -/
theorem NodeInventory.getInventory_foldl_registerInventory (d : Dict String (Finset String))
    (i : NodeInventory) (n : String) :
    (d.entries.foldl (fun i item => i.registerInventory item.1 item.2) i).getInventory n =
      (d.get? n).getD (i.getInventory n) := by
  unfold getInventory
  rw [inventory_foldl_registerInventory, Dict.get?_foldl_set_entries]
  cases d.get? n <;> rfl

namespace RaftStateMachine

/-- Storable jobs are all upserted. -/
theorem rows_upsertJobs (repairs : List RepairJob) (jobs : RepairJobStore)
    (h : ∀ job ∈ repairs, job.Storable) : (upsertJobs jobs repairs).rows =
      repairs.foldl (fun d job => d.set job.jobId job) jobs.rows := by
  unfold upsertJobs
  induction repairs generalizing jobs with
  | nil => rfl
  | cons job repairs ih =>
      have hjob : ((jobs.upsertJob job).toOption).getD jobs =
          Table.set jobs job.jobId job ⟨rfl, h job List.mem_cons_self⟩ := by
        unfold RepairJobStore.upsertJob
        rw [dif_pos (h job List.mem_cons_self)]
        rfl
      rw [List.foldl_cons, List.foldl_cons, hjob, ih _ fun j hj => h j (List.mem_cons_of_mem _ hj)]
      rfl

/-- Upserting the jobs of a store in another gives the first one precedence. -/
theorem getJob_upsertJobs (jobs jobs' : RepairJobStore) (jobId : String) :
    (upsertJobs jobs' jobs.listAllJobs).getJob jobId =
      (jobs.getJob jobId).or (jobs'.getJob jobId) := by
  have hstorable : ∀ job ∈ jobs.listAllJobs, job.Storable := fun job hjob =>
    (jobs.checked _ job (RepairJobStore.mem_listAllJobs.mp hjob)).2
  apply Option.ext
  intro job
  unfold RepairJobStore.getJob
  rw [rows_upsertJobs _ _ hstorable, Dict.foldl_set_get?_eq_some RepairJob.jobId (fun job => job) _
    jobs.nodup_jobIds_listAllJobs, Option.or_eq_some_iff]
  apply or_congr
  · constructor
    · rintro ⟨j, hj, rfl, rfl⟩
      exact RepairJobStore.mem_listAllJobs.mp hj
    · intro hget
      obtain rfl := (jobs.checked jobId job hget).1
      exact ⟨job, RepairJobStore.mem_listAllJobs.mpr hget, rfl, rfl⟩
  · apply and_congr_left'
    rw [Option.eq_none_iff_forall_ne_some]
    constructor
    · rintro h j hj
      obtain rfl := (jobs.checked jobId j hj).1
      exact h j (RepairJobStore.mem_listAllJobs.mpr hj) rfl
    · rintro h j hj rfl
      exact h j (RepairJobStore.mem_listAllJobs.mp hj)

/-- The repair jobs after a restore. -/
theorem getJob_restoreSnapshot (s t : RaftStateMachine) (jobId : String) :
    (t.restoreSnapshot s.buildSnapshot).getJob jobId =
      t.repairStore.bind fun jobs => (s.getJob jobId).or (jobs.getJob jobId) := by
  unfold getJob restoreSnapshot buildSnapshot listAllJobs
  rcases t.repairStore with _ | jobs'
  · rfl
  · rcases s.repairStore with _ | jobs
    · rfl
    · exact getJob_upsertJobs jobs jobs' jobId

/-- A node that the snapshot has registered has the inventory of the snapshot. -/
theorem getInventory_restoreSnapshot (s t : RaftStateMachine) (nodeId : String) :
    (t.restoreSnapshot s.buildSnapshot).placement.inventory.getInventory nodeId =
      ((s.membership.nodes.get? nodeId).map fun _ =>
        s.placement.inventory.getInventory nodeId).getD (t.placement.inventory.getInventory nodeId) := by
  have hget := NodeInventory.getInventory_foldl_registerInventory
    (s.membership.nodes.mapVals fun nodeId _ => s.placement.inventory.getInventory nodeId)
    t.placement.inventory nodeId
  rw [Dict.get?_mapVals] at hget
  exact hget

/-- What a machine shows after it is restored from a snapshot of `s`. -/
theorem observe_restoreSnapshot (s t : RaftStateMachine) :
    (t.restoreSnapshot s.buildSnapshot).observe =
      { s.observe with
        versions := fun b => (s.placement.registry.blocks.get? b).map fun _ =>
          ((s.placement.registry.getBlockVersion b).filter (· ≠ 0)).getD 1
        inventory := fun n =>
          ((s.membership.nodes.get? n).map fun _ => s.placement.inventory.getInventory n).getD
            (t.placement.inventory.getInventory n)
        repairJobs := fun id => t.repairStore.bind fun jobs => (s.getJob id).or (jobs.getJob id) } := by
  apply Observation.ext
  · rfl
  · rfl
  · funext b
    exact Dict.get?_mapVals _ _ _
  · funext n
    exact getInventory_restoreSnapshot s t n
  · exact congrArg AlertStore.toSnapshot (AlertStore.loadSnapshot_toSnapshot s.alerts)
  · funext id
    exact getJob_restoreSnapshot s t id
  · rfl

/-- A snapshot of `s` restored into `t` loses nothing and leaves nothing of `t`: the placed blocks,
and no others, have a version, which is not 0; of a node that `s` has not registered, `t` has the
inventory that `s` has; and `t` has no job that `s` has not, and a store for those of `s`. -/
structure RoundTrips (s t : RaftStateMachine) : Prop where
  versions : ∀ b, (s.placement.registry.getBlockLocations b).isSome →
    ∃ v, v ≠ 0 ∧ s.placement.registry.getBlockVersion b = some v
  unplaced : ∀ b, s.placement.registry.getBlockLocations b = none →
    s.placement.registry.getBlockVersion b = none
  inventory : ∀ n, s.membership.nodes.get? n = none →
    t.placement.inventory.getInventory n = s.placement.inventory.getInventory n
  jobs : ∀ id, (t.getJob id).isSome → (s.getJob id).isSome
  store : ∀ id, (s.getJob id).isSome → t.repairStore.isSome

/-- The versions of a snapshot are those of the machine. -/
theorem versions_roundTrip_iff (s : RaftStateMachine) (b : String) :
    ((s.placement.registry.blocks.get? b).map fun _ =>
        ((s.placement.registry.getBlockVersion b).filter (· ≠ 0)).getD 1) =
      s.placement.registry.getBlockVersion b ↔
    ((s.placement.registry.getBlockLocations b).isSome →
      ∃ v, v ≠ 0 ∧ s.placement.registry.getBlockVersion b = some v) ∧
    (s.placement.registry.getBlockLocations b = none →
      s.placement.registry.getBlockVersion b = none) := by
  unfold PlacementRegistry.getBlockLocations
  rcases s.placement.registry.blocks.get? b with _ | nodes
  · simp [eq_comm]
  · rcases s.placement.registry.getBlockVersion b with _ | v
    · simp
    · by_cases hv : v = 0
      · simp [hv, Option.filter]
      · simp [hv, Option.filter]

/-- The repair jobs after a restore are those of the snapshot. -/
theorem jobs_roundTrip_iff (s t : RaftStateMachine) (id : String) :
    (t.repairStore.bind fun jobs => (s.getJob id).or (jobs.getJob id)) = s.getJob id ↔
      ((t.getJob id).isSome → (s.getJob id).isSome) ∧
        ((s.getJob id).isSome → t.repairStore.isSome) := by
  rcases hs : s.getJob id with _ | job
  · rcases ht : t.repairStore with _ | jobs
    · simp [getJob, ht]
    · simp [getJob, ht]
  · rcases ht : t.repairStore with _ | jobs
    · simp
    · simp

/-- **A machine restored from a snapshot of `s` shows what `s` shows just when the snapshot
round-trips into it.** -/
theorem restore_build_iff (s t : RaftStateMachine) :
    (t.restoreSnapshot s.buildSnapshot).observe = s.observe ↔ RoundTrips s t := by
  rw [observe_restoreSnapshot, Observation.ext_iff]
  simp only [true_and, and_true, observe, funext_iff]
  constructor
  · rintro ⟨hversions, hinventory, hjobs⟩
    refine ⟨fun b => ((versions_roundTrip_iff s b).mp (hversions b)).1,
      fun b => ((versions_roundTrip_iff s b).mp (hversions b)).2, fun n hn => ?_,
      fun id => ((jobs_roundTrip_iff s t id).mp (hjobs id)).1,
      fun id => ((jobs_roundTrip_iff s t id).mp (hjobs id)).2⟩
    have h := hinventory n
    rw [hn] at h
    exact h
  · intro h
    refine ⟨fun b => (versions_roundTrip_iff s b).mpr ⟨h.versions b, h.unplaced b⟩, fun n => ?_,
      fun id => (jobs_roundTrip_iff s t id).mpr ⟨h.jobs id, h.store id⟩⟩
    rcases hn : s.membership.nodes.get? n with _ | record
    · exact h.inventory n hn
    · rfl

/-- A block allocated on a node that has not registered: the inventory of the node is lost. -/
theorem restore_build_counterexample : ¬ ∀ (env : ℕ → Readings) (log : List Command)
    (t : RaftStateMachine),
    (t.restoreSnapshot (applyAll env empty log).buildSnapshot).observe =
      (applyAll env empty log).observe := by
  intro h
  have heq := h (fun _ => ⟨1000, 1000, "a", by decide, by decide⟩)
    [.allocateBlock "block1" none ["node1"]] empty
  have hinventory := congrArg (fun o => o.inventory "node1") heq
  revert hinventory
  decide +kernel

end RaftStateMachine

end NanoFabric.Metadata
