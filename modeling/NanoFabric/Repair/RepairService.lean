import NanoFabric.Found.Runs
import NanoFabric.Repair.ReReplication

/-!
# The repair cycle

`RepairService.run_repair_cycle` of `cluster/repair_service.py` with the scanner
(`cluster/replica_health_scanner.py`), the anti-entropy service
(`cluster/anti_entropy_service.py`) and the job store (`cluster/repair_job_store.py`).

A cycle is a worklist: the scan puts the blocks it found on it, one task each, and the last of them
reads the jobs that are still pending. A task that raises ends the cycle (`step`). The orphans of a
scan are left out, since a cycle only counts them, and so are the counts that it returns; what may
raise while they are sought is not.
-/

namespace NanoFabric.Metadata.RepairJobStore

open NanoFabric.Found
open NanoFabric.Node (Bindable)

/-- Source: `cluster/repair_job_store.py`, `list_jobs_by_status`. -/
def listJobsByStatus (s : RepairJobStore) (statuses : List RepairStatus) : List RepairJob :=
  (s.rows.values.filter fun job => job.status ∈ statuses).insertionSort
    fun job job' => job.createdAt ≤ job'.createdAt

/-- Source: `cluster/repair_job_store.py`, `list_interrupted_jobs`. -/
def listInterruptedJobs (s : RepairJobStore) : List RepairJob :=
  s.listJobsByStatus [.copying, .verifying]

/-- The newest active job of a block and a target.
Source: `cluster/repair_job_store.py`, `find_active_job`. -/
def findActiveJob (s : RepairJobStore) (blockId targetNode : String) (repairType : RepairType) :
    Option RepairJob :=
  (s.listAllJobs.filter fun job => job.blockId = blockId ∧ job.targetNode = targetNode ∧
    job.repairType = repairType ∧ job.status ∈ [.pending, .copying, .verifying]).head?

/-- The job is the one that is active, or else a new one.
Source: `cluster/repair_job_store.py`, `create_job`. -/
def createJob (s : RepairJobStore) (blockId sourceNode targetNode : String) (version : ℤ)
    (repairType : RepairType) (jobId : String) (now : ℤ) :
    Except StoreError (RepairJobStore × RepairJob) :=
  match s.findActiveJob blockId targetNode repairType with
  | some job => .ok (s, job)
  | none =>
      let job : RepairJob := ⟨jobId, blockId, sourceNode, targetNode, version, repairType, .pending,
        0, none, now, now, none⟩
      if (s.getJob jobId).isSome then .error .integrity
      else (s.upsertJob job).map fun s' => (s', job)

/-- The row of a job after an update.
Source: `cluster/repair_job_store.py`, `update_job_status`. -/
def updated (job : RepairJob) (status : RepairStatus) (lastError : Option String)
    (incrementAttempt : Bool) (now : ℤ) : RepairJob :=
  { job with
    status
    lastError
    attemptCount := if incrementAttempt then job.attemptCount + 1 else job.attemptCount
    updatedAt := now
    completedAt := if status = .completed then some now else job.completedAt }

/-- Source: `cluster/repair_job_store.py`, `update_job_status`. -/
def updateJobStatus (s : RepairJobStore) (jobId : String) (status : RepairStatus)
    (lastError : Option String) (incrementAttempt : Bool) (now : ℤ) :
    Except StoreError RepairJobStore :=
  if ¬ Bindable now then .error .overflow
  else match s.getJob jobId with
    | none => .ok s
    | some job => s.upsertJob (updated job status lastError incrementAttempt now)

end NanoFabric.Metadata.RepairJobStore

namespace NanoFabric.Repair

open NanoFabric.Found
open NanoFabric.Metadata
open NanoFabric.Node (BlockRecord)
open NanoFabric.Storage

/-! ## What a cycle reads -/

/-- What a process draws from outside during a task: the clock, a fresh id, and the order in which it
goes through a set. -/
structure Reading where
  now : ℤ
  uuid : String
  rank : String → ℕ

/-- Source: `cluster/repair_service.py`. -/
def maxRepairAttempts : ℤ := 5

/-! ## The scanner -/

/-- Source: `cluster/repair_models.py`, `UnderReplicatedBlock`. -/
structure UnderReplicatedBlock where
  blockId : String
  version : ℤ
  desiredNodes : List String
  presentNodes : List String
  missingNodes : List String
deriving DecidableEq, Repr

/-- Source: `cluster/repair_models.py`, `OverReplicatedBlock`. -/
structure OverReplicatedBlock where
  blockId : String
  version : ℤ
  extraNodes : List String
deriving DecidableEq, Repr

namespace RepairState

/-- `get_block_version(block_id) or 1`. -/
def blockVersion (s : RepairState) (blockId : String) : ℤ :=
  ((s.cluster.placement.registry.getBlockVersion blockId).filter (· ≠ 0)).getD 1

/-- The blocks that a placement node lacks, is not up for, or does not answer for. -/
def underReplicated (s : RepairState) : List UnderReplicatedBlock :=
  s.cluster.placement.registry.blocks.entries.filterMap fun (blockId, desiredNodes) =>
    let present := desiredNodes.filter fun nodeId => s.present blockId nodeId
    let missing := desiredNodes.filter fun nodeId => !s.present blockId nodeId
    if present.length < (desiredNodes.filter (· ∈ s.healthyNodes)).length ∨ missing ≠ [] then
      some ⟨blockId, s.blockVersion blockId, desiredNodes, present, missing⟩
    else none

/-- The healthy nodes of every placement are asked.
Source: `cluster/replica_health_scanner.py`, `find_under_replicated`. -/
def findUnderReplicated (s : RepairState) : Except RepairError (List UnderReplicatedBlock) :=
  if s.cluster.placement.registry.blocks.entries.any fun (blockId, desiredNodes) =>
      desiredNodes.any fun nodeId => decide (nodeId ∈ s.healthyNodes) && s.invalidUrl nodeId blockId
  then .error .invalidUrl
  else .ok s.underReplicated

/-- The blocks that a node has that is up and not in the placement. The nodes are gone through in an
order that is not specified. -/
def overReplicated (s : RepairState) (rank : String → ℕ) : List OverReplicatedBlock :=
  s.cluster.placement.registry.blocks.entries.filterMap fun (blockId, desiredNodes) =>
    let extra := (s.healthyNodes.insertionSort fun n m => rank n ≤ rank m).filter fun nodeId =>
      decide (nodeId ∉ desiredNodes) && decide (s.hasBlock nodeId blockId = some true)
    if extra ≠ [] then some ⟨blockId, s.blockVersion blockId, extra⟩ else none

/-- The healthy nodes outside of every placement are asked.
Source: `cluster/replica_health_scanner.py`, `find_over_replicated`. -/
def findOverReplicated (s : RepairState) (rank : String → ℕ) :
    Except RepairError (List OverReplicatedBlock) :=
  if s.cluster.placement.registry.blocks.entries.any fun (blockId, desiredNodes) =>
      s.healthyNodes.any fun nodeId =>
        decide (nodeId ∉ desiredNodes) && s.invalidUrl nodeId blockId
  then .error .invalidUrl
  else .ok (s.overReplicated rank)

/-- The hash of a leaf, empty if the block has no id.
Source: `node/merkle.py`, `_hash_leaf`, `leaf_hashes`. -/
def leafHash (sha256 : String → String) (blockId : String) (record : BlockRecord) : String :=
  if blockId = "" then ""
  else sha256 (blockId ++ ":" ++ toString record.version ++ ":" ++ record.data)

/-- The hashes of a block's copies, by node.
Source: `cluster/anti_entropy_service.py`, `compare_replicas`. -/
def nodeHashes (s : RepairState) (sha256 : String → String) (blockId : String)
    (nodes : List String) : Dict String String :=
  nodes.foldl (fun hashes nodeId =>
    match s.readBlock nodeId blockId with
    | .record record =>
        if record.deleted then hashes else hashes.set nodeId (leafHash sha256 blockId record)
    | _ => hashes) Dict.empty

/-- The exception that ends a loop which takes the copies of a block at a list of nodes. -/
def raised (s : RepairState) (blockId : String) (nodes : List String) : Option RepairError :=
  nodes.findSome? fun nodeId => (s.readBlock nodeId blockId).raised

/-- The blocks of which the nodes that are up have copies that differ. -/
def divergedBlocks (s : RepairState) (sha256 : String → String) : List String :=
  s.cluster.placement.registry.blocks.entries.filterMap fun (blockId, desiredNodes) =>
    let hashes := s.nodeHashes sha256 blockId (desiredNodes.filter (· ∈ s.healthyNodes))
    if 1 < hashes.values.toFinset.card then some blockId else none

/-- Source: `cluster/replica_health_scanner.py`, `find_diverged`. -/
def findDiverged (s : RepairState) (sha256 : String → String) : Except RepairError (List String) :=
  match s.cluster.placement.registry.blocks.entries.findSome? fun (blockId, desiredNodes) =>
      s.raised blockId (desiredNodes.filter (· ∈ s.healthyNodes)) with
  | some e => .error e
  | none => .ok (s.divergedBlocks sha256)

/-- What the search for orphans raises when it lists the blocks of the healthy nodes.
Source: `cluster/replica_health_scanner.py`, `find_orphans`. -/
def findOrphans (s : RepairState) : Except RepairError Unit :=
  if s.healthyNodes.any fun nodeId =>
      (s.cluster.address nodeId).any fun address => !s.cluster.urls.takes address
  then .error .invalidUrl
  else .ok ()

/-! ## Anti-entropy -/

/-- The nodes of the placement that answer with a copy, if the copies differ. -/
def differing (s : RepairState) (sha256 : String → String) (blockId : String) :
    Option (List String) :=
  let hashes := s.nodeHashes sha256 blockId ((s.locations blockId).getD [])
  if 1 < hashes.values.toFinset.card then some hashes.keys else none

/-- The nodes whose copies are compared, if the copies differ.
Source: `cluster/anti_entropy_service.py`, `compare_replicas`. -/
def compareReplicas (s : RepairState) (sha256 : String → String) (blockId : String) :
    Except RepairError (Option (List String)) :=
  match s.raised blockId ((s.locations blockId).getD []) with
  | some e => .error e
  | none => .ok (s.differing sha256 blockId)

/-- Whether a copy is newer than another. The time stamps of both are `0`.
Source: `node/version_reconciliation.py`, `compare_copies`. -/
def newer (copy latest : String × BlockRecord) : Bool :=
  if copy.2.version ≠ latest.2.version then decide (latest.2.version < copy.2.version)
  else decide (latest.2.originLsn < copy.2.originLsn)

/-- Source: `node/version_reconciliation.py`, `select_latest`. -/
def selectLatest : List (String × BlockRecord) → Option (String × BlockRecord)
  | [] => none
  | copy :: copies => some (copies.foldl (fun latest c => if newer c latest then c else latest) copy)

/-- The latest of the copies that nodes answer with. -/
def latestCopy (s : RepairState) (blockId : String) (nodes : List String) :
    Option (String × BlockRecord) :=
  selectLatest (nodes.filterMap fun nodeId =>
    match s.readBlock nodeId blockId with
    | .record record => if record.deleted then none else some (nodeId, record)
    | _ => none)

/-- Source: `cluster/anti_entropy_service.py`, `_find_latest`. -/
def findLatest (s : RepairState) (blockId : String) (nodes : List String) :
    Except RepairError (Option (String × BlockRecord)) :=
  match s.raised blockId nodes with
  | some e => .error e
  | none => .ok (s.latestCopy blockId nodes)

/-- The loop over the nodes whose copies are compared. -/
def repairCopies (blockId : String) (version : ℤ) (latestNode : String) : List String → Call Unit
  | [], s => (s, .ok ())
  | nodeId :: nodes, s =>
      if nodeId = latestNode then repairCopies blockId version latestNode nodes s
      else match repairBlock blockId version (some latestNode) (some nodeId) s with
        | (s', .error e) => (s', .error e)
        | (s', .ok _) => repairCopies blockId version latestNode nodes s'

/-- Source: `cluster/anti_entropy_service.py`, `repair_divergence`. -/
def repairDivergence (sha256 : String → String) (blockId : String) : Call Unit := fun s =>
  match s.compareReplicas sha256 blockId with
  | .error e => (s, .error e)
  | .ok none => (s, .ok ())
  | .ok (some nodes) =>
      match s.findLatest blockId nodes with
      | .error e => (s, .error e)
      | .ok none => (s, .ok ())
      | .ok (some (latestNode, latest)) => repairCopies blockId latest.version latestNode nodes s

/-! ## Jobs -/

/-- What a call of the job store leaves. -/
def storing (s : RepairState) : Except StoreError RepairJobStore →
    RepairState × Except RepairError Unit
  | .ok jobs => ({ s with jobs }, .ok ())
  | .error e => (s, .error (.jobStore e))

/-- Source: `cluster/repair_job_store.py`, `update_job_status`. -/
def updateJobStatus (r : Reading) (jobId : String) (status : RepairStatus)
    (lastError : Option String) (incrementAttempt : Bool) : Call Unit := fun s =>
  s.storing (s.jobs.updateJobStatus jobId status lastError incrementAttempt r.now)

/-- Source: `cluster/repair_service.py`, `schedule_repair`. -/
def scheduleRepair (r : Reading) (blockId sourceNode targetNode : String) (version : ℤ) :
    Call RepairJob := fun s =>
  match s.jobs.createJob blockId sourceNode targetNode version .reReplication r.uuid r.now with
  | .ok (jobs, job) => ({ s with jobs }, .ok job)
  | .error e => (s, .error (.jobStore e))

/-- Source: `cluster/repair_service.py`, `verify_repair`. -/
def verifyRepair (r : Reading) (jobId : String) : Call Bool := fun s =>
  match s.jobs.getJob jobId with
  | none => (s, .ok false)
  | some job =>
      match s.verifyCopy job.blockId job.sourceNode job.targetNode with
      | .error e => (s, .error e)
      | .ok true =>
          match updateJobStatus r jobId .completed none false s with
          | (s', .error e) => (s', .error e)
          | (s', .ok ()) => (s', .ok true)
      | .ok false => (s, .ok false)

/-- A last replacement. What the search for a missing node raises is not caught, what the placement
service raises is. -/
def replaceMissing (job : RepairJob) : Call Unit := fun s =>
  if job.repairType = .reReplication then
    let locations := (s.locations job.blockId).getD []
    match s.findMissingNode job.blockId locations [] with
    | .error e => (s, .error e)
    | .ok found =>
        match (truthy found).filter (· ≠ job.targetNode) with
        | some old => ((replaceReplica job.blockId old job.targetNode job.version s).1, .ok ())
        | none => (s, .ok ())
  else (s, .ok ())

/-- The part of `_execute_job` before the copy is verified again: whether the repair went well.
Source: `cluster/repair_service.py`, `_execute_job`. -/
def repairJob (r : Reading) (job : RepairJob) : Call Bool := fun s =>
  match updateJobStatus r job.jobId .copying none true s with
  | (s₁, .error e) => (s₁, .error e)
  | (s₁, .ok ()) =>
      match repairBlock job.blockId job.version (some job.sourceNode) (some job.targetNode) s₁ with
      | (s₂, .error e) => (s₂, .error e)
      | (s₂, .ok (.error message)) =>
          match updateJobStatus r job.jobId .failed (some message) false s₂ with
          | (s₃, .error e) => (s₃, .error e)
          | (s₃, .ok ()) => (s₃, .ok false)
      | (s₂, .ok (.ok ())) =>
          match updateJobStatus r job.jobId .verifying none false s₂ with
          | (s₃, .error e) => (s₃, .error e)
          | (s₃, .ok ()) => (s₃, .ok true)

/-- A job as the cycle executes it, without a node that it is to replace.
Source: `cluster/repair_service.py`, `_execute_job`. -/
def executeJob (r : Reading) (job : RepairJob) : Call Unit := fun s =>
  if maxRepairAttempts ≤ job.attemptCount then
    updateJobStatus r job.jobId .failed (some "max attempts exceeded") false s
  else match repairJob r job s with
    | (s₁, .error e) => (s₁, .error e)
    | (s₁, .ok false) => (s₁, .ok ())
    | (s₁, .ok true) =>
        match verifyRepair r job.jobId s₁ with
        | (s₂, .error e) => (s₂, .error e)
        | (s₂, .ok true) => replaceMissing job s₂
        | (s₂, .ok false) => updateJobStatus r job.jobId .failed (some "verification failed") false s₂

/-- The jobs are set to a status one after the other. -/
def resetJobs (r : Reading) : List RepairJob → Call Unit
  | [], s => (s, .ok ())
  | job :: jobs, s =>
      match updateJobStatus r job.jobId .pending none false s with
      | (s', .error e) => (s', .error e)
      | (s', .ok ()) => resetJobs r jobs s'

/-- Source: `cluster/repair_service.py`, `recover_jobs`. -/
def recoverJobs (r : Reading) : Call Unit := fun s =>
  match resetJobs r s.jobs.listInterruptedJobs s with
  | (s₁, .error e) => (s₁, .error e)
  | (s₁, .ok ()) =>
      resetJobs r ((s₁.jobs.listJobsByStatus [.failed]).filter fun job =>
        job.attemptCount < maxRepairAttempts) s₁

end RepairState

/-! ## The cycle -/

/-- What is left to do in a cycle. -/
inductive Task
  /-- The jobs are recovered and the cluster is scanned. -/
  | scan
  | under (block : UnderReplicatedBlock)
  | diverged (blockId : String)
  | extra (blockId nodeId : String) (version : ℤ)
  /-- The pending jobs are listed. -/
  | pending
  | job (job : RepairJob)

/-- A cycle: the state, and what is left to do. -/
structure Cycle where
  state : RepairState
  todo : List Task

namespace Cycle

open RepairState (recoverJobs scheduleRepair executeJob repairDivergence removeExtraReplica)

/-- A cycle that is about to start. -/
def start (state : RepairState) : Cycle := ⟨state, [.scan]⟩

/-- What a scan puts on the worklist.
Source: `cluster/replica_health_scanner.py`, `scan_cluster`. -/
def scanned (sha256 : String → String) (rank : String → ℕ) (s : RepairState) :
    Except RepairError (List Task) := do
  let underReplicated ← s.findUnderReplicated
  let overReplicated ← s.findOverReplicated rank
  let diverged ← s.findDiverged sha256
  s.findOrphans
  return underReplicated.map .under ++ diverged.map .diverged ++ overReplicated.flatMap (fun info =>
    info.extraNodes.map fun extra => .extra info.blockId extra info.version) ++ [.pending]

/-- The job for a block that the scan found under-replicated, if a source and a target are found.
Source: `cluster/repair_service.py`, `run_repair_cycle`. -/
def scheduleUnder (r : Reading) (block : UnderReplicatedBlock) : Call (Option RepairJob) :=
  fun s =>
    let (s₁, selected) := s.selectReplacement block.desiredNodes s.healthyNodes
    match truthy block.presentNodes.head?, truthy selected with
    | some source, some target =>
        match scheduleRepair r block.blockId source target block.version s₁ with
        | (s₂, .error e) => (s₂, .error e)
        | (s₂, .ok job) => (s₂, .ok (some job))
    | _, _ => (s₁, .ok none)

/-- Source: `cluster/repair_service.py`, `run_repair_cycle`. -/
def repairUnder (r : Reading) (block : UnderReplicatedBlock) : Call Unit := fun s =>
  match scheduleUnder r block s with
  | (s₁, .error e) => (s₁, .error e)
  | (s₁, .ok none) => (s₁, .ok ())
  | (s₁, .ok (some job)) => executeJob r job s₁

/-- A task, and the tasks that it puts before the others.
Source: `cluster/repair_service.py`, `run_repair_cycle`. -/
def perform (sha256 : String → String) (r : Reading) : Task → Call (List Task)
  | .scan, s =>
      match recoverJobs r s with
      | (s', .error e) => (s', .error e)
      | (s', .ok ()) => (s', scanned sha256 r.rank s')
  | .under block, s => ((repairUnder r block s).1, (repairUnder r block s).2.map fun _ => [])
  | .diverged blockId, s =>
      ((repairDivergence sha256 blockId s).1, (repairDivergence sha256 blockId s).2.map fun _ => [])
  | .extra blockId nodeId version, s =>
      ((removeExtraReplica blockId nodeId version s).1,
        (removeExtraReplica blockId nodeId version s).2.map fun _ => [])
  | .pending, s => (s, .ok ((s.jobs.listJobsByStatus [.pending]).map .job))
  | .job job, s => ((executeJob r job s).1, (executeJob r job s).2.map fun _ => [])

/-- The next task. An exception ends the cycle.
Source: `cluster/repair_service.py`, `run_repair_cycle`. -/
def step (sha256 : String → String) (c : Cycle) (r : Reading) : Option Cycle :=
  match c.todo with
  | [] => none
  | task :: rest =>
      match perform sha256 r task c.state with
      | (s, .ok tasks) => some ⟨s, tasks ++ rest⟩
      | (s, .error _) => some ⟨s, []⟩

end Cycle

end NanoFabric.Repair
