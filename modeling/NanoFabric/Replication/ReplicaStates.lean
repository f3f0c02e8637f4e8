import NanoFabric.Replication.JobRecovery
import NanoFabric.Replication.Quorum

/-!
# The states of replicated blocks

`ReplicaManager` of `node/replica_manager.py` and the two ways in which
`node/replication_service.py` computes the state of a block that it keeps there: a call counts
acknowledgements in a `QuorumManager`, and a retry cycle counts the jobs of the newest version.

* `finalizeState_of_nodup`, `stateFromJobs_eq` — both are one function of three numbers.
* `ReplicationService.Tracks.retryJob` — a retry keeps what the second way computes.
* `ReplicationService.statesAgree_iff` — the two agree, and go on to agree in every retry cycle, unless
  a placement without replicas leaves the jobs of an older version the newest.

Errors of the store, metrics, hints and the results that the calls return are left out.
-/

namespace NanoFabric.Replication

open NanoFabric.Found
open NanoFabric.Node (Bindable)

/-! ## The tracker -/

/-- Source: `node/replication_models.py`, `ReplicationState`. -/
inductive ReplicationState
  | pending
  | writing
  | replicating
  | replicated
  | failed
  | degraded
deriving DecidableEq, Repr

/-- Source: `node/replication_models.py`, `BlockReplicationState`. -/
structure BlockReplicationState where
  blockId : String
  version : ℤ
  replicas : List String
  state : ReplicationState
deriving DecidableEq, Repr

/-- Source: `node/replica_manager.py`, `ReplicaManager`. -/
abbrev ReplicaManager := Dict String BlockReplicationState

namespace ReplicaManager

/-- Source: `node/replica_manager.py`, `mark_pending`. -/
def markPending (m : ReplicaManager) (blockId : String) (version : ℤ) (replicas : List String) :
    ReplicaManager :=
  m.set blockId ⟨blockId, version, replicas, .pending⟩

/-- A block that is tracked gets another state. -/
def mark (m : ReplicaManager) (state : ReplicationState) (blockId : String) : ReplicaManager :=
  m.modify blockId fun tracked => { tracked with state }

/-- Source: `node/replica_manager.py`, `mark_replicating`. -/
def markReplicating (m : ReplicaManager) (blockId : String) : ReplicaManager :=
  m.mark .replicating blockId

/-- Source: `node/replica_manager.py`, `mark_replicated`. -/
def markReplicated (m : ReplicaManager) (blockId : String) : ReplicaManager :=
  m.mark .replicated blockId

/-- Source: `node/replica_manager.py`, `mark_failed`. -/
def markFailed (m : ReplicaManager) (blockId : String) : ReplicaManager := m.mark .failed blockId

/-- Source: `node/replica_manager.py`, `mark_degraded`. -/
def markDegraded (m : ReplicaManager) (blockId : String) : ReplicaManager := m.mark .degraded blockId

/-- Source: `node/replica_manager.py`, `get_replica_state`. -/
def getReplicaState (m : ReplicaManager) (blockId : String) : Option BlockReplicationState :=
  m.get? blockId

end ReplicaManager

/-! ## The jobs of a call -/

/-- Source: `node/replication_job_store.py`, `list_all_jobs`. -/
def ReplicationJobStore.listAllJobs (s : ReplicationJobStore) : List ReplicationJob :=
  s.rows.values.reverse

/-- The jobs of a call, under fresh ids.
Source: `node/replication_service.py`, `_create_jobs`. -/
def createJobs (ids : String → String) (message : ReplicaMessage) (primaryNode : String) :
    List String → ReplicationJobStore → Option (ReplicationJobStore × List ReplicationJob)
  | [], s => some (s, [])
  | target :: targets, s =>
      (s.createJob (ids target) message primaryNode target).bind fun (s', job) =>
        (createJobs ids message primaryNode targets s').map fun (s'', jobs) => (s'', job :: jobs)

/-- The jobs in the order in which they end, and the targets with their results.
Source: `node/replication_service.py`, `_parallel_execute`. -/
def executeJobs (nodeId : String) (answer : ReplicationJob → Reply) :
    List ReplicationJob → Durable → Durable × List (String × Bool)
  | [], d => (d, [])
  | job :: jobs, d =>
      let success := ((d.beginJob job).post nodeId job (answer job)).2
      let (d', results) := executeJobs nodeId answer jobs (d.executeJob nodeId answer job)
      (d', (job.targetNode, success) :: results)

/-- What a call draws from outside: the ids of its jobs, what becomes of their requests, the order in
which they end, and whether the time is up at the end. -/
structure Delivery where
  ids : String → String
  answer : ReplicationJob → Reply
  arrival : String → ℕ
  timedOut : Bool

/-- The call with other replicas that acknowledge. -/
def Delivery.acknowledged (o : Delivery) (acked : String → Bool) : Delivery :=
  { o with answer := fun job => ⟨acked job.targetNode, acked job.targetNode, id⟩ }

/-- Source: `node/replication_service.py`, `replicate_write`, `replicate_delete`. -/
def recordResults (q : QuorumManager) (results : List (String × Bool)) : QuorumManager :=
  results.foldl (fun q result =>
    if result.2 then q.recordAck result.1 else q.recordFailure result.1) q

/-! ## The service -/

/-- A primary with its jobs and the states that it tracks. -/
structure ReplicationService where
  nodeId : String
  consistency : ConsistencyLevel
  durable : Durable
  replicaManager : ReplicaManager

namespace ReplicationService

/-- Source: `node/replication_service.py`, `_finalize_state`. -/
def finalizeState (m : ReplicaManager) (blockId : String) (results : List (String × Bool))
    (q : QuorumManager) (timedOut : Bool) : ReplicaManager :=
  if results = [] then m.markReplicated blockId
  else if q.evaluate timedOut = .success then
    if 0 < q.failedNodes.card then m.markDegraded blockId else m.markReplicated blockId
  else m.markFailed blockId

/-- The jobs of a call are executed, and their results recorded.
Source: `node/replication_service.py`, `replicate_write`, `replicate_delete`. -/
def sendReplications (s : ReplicationService) (message : ReplicaMessage) (locations : List String)
    (o : Delivery) (store : ReplicationJobStore) (jobs : List ReplicationJob) :
    ReplicationService :=
  let blockId := message.base.blockId
  let order := jobs.insertionSort fun job job' =>
    o.arrival job.targetNode ≤ o.arrival job'.targetNode
  let (durable, results) := executeJobs s.nodeId o.answer order { s.durable with store }
  let q := recordResults ((QuorumManager.init locations.length s.consistency).recordAck s.nodeId)
    results
  let replicating := (s.replicaManager.markPending blockId message.base.version
    locations).markReplicating blockId
  { s with durable, replicaManager := finalizeState replicating blockId results q o.timedOut }

/-- A call replicates what the engine has stored, so that its numbers fit into the columns.
Source: `node/replication_service.py`, `replicate_write`, `replicate_delete`. -/
def replicate (s : ReplicationService) (message : ReplicaMessage) (locations : List String)
    (o : Delivery) : Option ReplicationService :=
  let blockId := message.base.blockId
  let replicas := locations.filter (· ≠ s.nodeId)
  if ¬ (message.base.originNodeId = s.nodeId ∧ Bindable message.base.version ∧
      Bindable message.base.lsn) then none
  else if s.nodeId ∉ locations then some s
  else if replicas = [] then
    -- a delete tracks the block only if it was tracked before
    let tracked := if message.isDelete then s.replicaManager
      else s.replicaManager.markPending blockId message.base.version locations
    some { s with replicaManager := tracked.markReplicated blockId }
  else
    (createJobs o.ids message s.nodeId replicas s.durable.store).map fun (store, jobs) =>
      s.sendReplications message locations o store jobs

/-- The jobs of the newest version of a block, the last one first.
Source: `node/replication_service.py`, `_update_block_state_from_jobs`. -/
def versionJobs (store : ReplicationJobStore) (blockId : String) : List ReplicationJob :=
  let jobs := store.listAllJobs.filter fun job => job.blockId = blockId
  match (jobs.map ReplicationJob.version).max? with
  | none => []
  | some latestVersion => jobs.filter fun job => job.version = latestVersion

/-- The jobs that succeeded. -/
def successes (jobs : List ReplicationJob) : ℕ := jobs.countP fun job => job.status = .success

/-- Source: `node/replication_service.py`, `_update_block_state_from_jobs`. -/
def stateFromJobs (consistency : ConsistencyLevel) (primaryNode : String)
    (jobs : List ReplicationJob) : ReplicationState :=
  let rf := (primaryNode :: jobs.map ReplicationJob.targetNode).toFinset.card
  if isQuorumSatisfied (successes jobs + 1) (requiredAcks rf consistency) then
    if successes jobs < jobs.length then .degraded else .replicated
  else .failed

/-- Source: `node/replication_service.py`, `_update_block_state_from_jobs`. -/
def updateBlockStateFromJobs (s : ReplicationService) (blockId : String) : ReplicationService :=
  match versionJobs s.durable.store blockId with
  | [] => s
  | job :: jobs =>
      { s with
        replicaManager := s.replicaManager.mark
          (stateFromJobs s.consistency job.primaryNode (job :: jobs)) blockId }

/-- Source: `node/replication_service.py`, `retry_failed_replications`. -/
def retryJob (answer : ReplicationJob → Reply) (s : ReplicationService) (job : ReplicationJob) :
    ReplicationService :=
  { s with durable := s.durable.executeJob s.nodeId answer job }.updateBlockStateFromJobs job.blockId

/-- Source: `node/replication_service.py`, `retry_failed_replications`. -/
def retryFailedReplications (s : ReplicationService) (answer : ReplicationJob → Reply) :
    ReplicationService :=
  (s.durable.retried s.nodeId).foldl (retryJob answer) s

/-- The target has a successful job of the version. -/
def acknowledgedBy (s : ReplicationService) (message : ReplicaMessage) (target : String) : Bool :=
  s.durable.store.listAllJobs.any fun job => job.blockId = message.base.blockId ∧
    job.version = message.base.version ∧ job.targetNode = target ∧ job.status = .success

/-! ## The statement -/

/-- A call leaves the state that is computed from the jobs right afterwards, and after any retry cycles
the state is the one that the call would have left if the targets that have succeeded by then had
acknowledged. -/
structure StatesAgree (s s' : ReplicationService) (message : ReplicaMessage)
    (locations : List String) (o : Delivery) : Prop where
  now : (s'.updateBlockStateFromJobs message.base.blockId).replicaManager.getReplicaState
    message.base.blockId = s'.replicaManager.getReplicaState message.base.blockId
  later : ∀ answers : List (ReplicationJob → Reply),
    (s.replicate message locations
        (o.acknowledged ((answers.foldl retryFailedReplications s').acknowledgedBy message))).map
      (fun t => t.replicaManager.getReplicaState message.base.blockId) =
    some ((answers.foldl retryFailedReplications s').replicaManager.getReplicaState
      message.base.blockId)

/-- The call has a replica to send to, or the jobs of the newest version before it have all succeeded,
or it is a delete of a block that is not tracked. -/
def Superseded (s : ReplicationService) (message : ReplicaMessage) (locations : List String) : Prop :=
  (∃ n ∈ locations, n ≠ s.nodeId) ∨
    (∀ job ∈ versionJobs s.durable.store message.base.blockId, job.status = .success) ∨
    message.isDelete = true ∧ s.replicaManager.getReplicaState message.base.blockId = none

end ReplicationService

/-! ## The rows of the store -/

namespace ReplicationJobStore

variable {s s' : ReplicationJobStore}

theorem key_of_mem_entries {kv : String × ReplicationJob} (h : kv ∈ s.rows.entries) :
    kv.2.jobId = kv.1 :=
  s.checked kv.1 kv.2 (Dict.mem_entries.mp h)

/-- No two rows have one id. -/
theorem nodup_jobIds (s : ReplicationJobStore) :
    (s.rows.values.map ReplicationJob.jobId).Nodup := by
  have hkeys : s.rows.values.map ReplicationJob.jobId = s.rows.keys := by
    unfold Dict.values Dict.keys
    rw [List.map_map]
    exact List.map_congr_left fun kv hkv => key_of_mem_entries hkv
  rw [hkeys]
  exact s.rows.nodup_keys

theorem mem_listAllJobs {job : ReplicationJob} :
    job ∈ s.listAllJobs ↔ s.getJob job.jobId = some job := by
  unfold listAllJobs
  rw [List.mem_reverse, Dict.mem_values]
  constructor
  · rintro ⟨jobId, hjob⟩
    rwa [jobId_of_getJob hjob]
  · exact fun hjob => ⟨_, hjob⟩

theorem values_updateJobStatus (s : ReplicationJobStore) (jobId : String) (status : JobStatus)
    (inc : Bool) : (s.updateJobStatus jobId status inc).rows.values =
      s.rows.values.map fun row => if row.jobId = jobId then updated row status inc else row := by
  unfold updateJobStatus
  split
  · rename_i hnone
    have hnew : ∀ row ∈ s.rows.values, row.jobId ≠ jobId := by
      rintro row hrow rfl
      obtain ⟨kv, hkv, rfl⟩ := List.mem_map.mp hrow
      have hget := Dict.mem_entries.mp hkv
      rw [← key_of_mem_entries hkv] at hget
      exact absurd (hget.symm.trans hnone) (by simp)
    exact ((List.map_congr_left fun row hrow => if_neg (hnew row hrow)).trans (List.map_id _)).symm
  · rename_i job hjob
    have hmem : jobId ∈ s.rows.keys := Dict.mem_keys.mpr ⟨job, hjob⟩
    unfold Table.set Dict.values
    simp only [Dict.entries_set_of_mem hmem, List.map_map]
    refine List.map_congr_left fun kv hkv => ?_
    rw [Function.comp_apply, Function.comp_apply, key_of_mem_entries hkv]
    by_cases hid : kv.1 = jobId
    · rw [if_pos hid, if_pos hid]
      have hget := Dict.mem_entries.mp hkv
      rw [hid] at hget
      rw [Option.some.inj (hjob.symm.trans hget)]
    · rw [if_neg hid, if_neg hid]

theorem values_createJob {jobId primary target : String} {message : ReplicaMessage}
    {job : ReplicationJob} (h : s.createJob jobId message primary target = some (s', job)) :
    s'.rows.values = s.rows.values ++ [job] := by
  unfold createJob at h
  split_ifs at h with hfresh
  obtain ⟨rfl, rfl⟩ := Prod.mk.inj (Option.some.inj h)
  have hnew : jobId ∉ s.rows.entries.map Prod.fst := by
    intro hmem
    obtain ⟨row, hrow⟩ := Dict.mem_keys.mp hmem
    rw [getJob, hrow] at hfresh
    exact hfresh rfl
  unfold Table.set Dict.values Dict.set
  simp only [Dict.setEntries_of_notMem _ _ _ hnew, List.map_append, List.map_cons, List.map_nil]

end ReplicationJobStore

/-- The job of a message for a target, as it is created. -/
def newJob (ids : String → String) (message : ReplicaMessage) (primary target : String) :
    ReplicationJob :=
  ⟨ids target, message.base.blockId, message.base.version, primary, target, .pending, 0,
    message.isDelete, message.data, message.base.lsn⟩

/-- A call appends its jobs to the rows. -/
theorem createJobs_eq_some {ids : String → String} {message : ReplicaMessage} {primary : String}
    {targets : List String} {s s' : ReplicationJobStore} {jobs : List ReplicationJob}
    (h : createJobs ids message primary targets s = some (s', jobs)) :
    jobs = targets.map (newJob ids message primary) ∧ s'.rows.values = s.rows.values ++ jobs := by
  induction targets generalizing s s' jobs with
  | nil =>
      obtain ⟨rfl, rfl⟩ := Prod.mk.inj (Option.some.inj h)
      exact ⟨rfl, (List.append_nil _).symm⟩
  | cons target targets ih =>
      obtain ⟨⟨s₁, job⟩, hjob, h⟩ := Option.bind_eq_some_iff.mp h
      obtain ⟨⟨s₂, rest⟩, hrest, h⟩ := Option.map_eq_some_iff.mp h
      obtain ⟨rfl, rfl⟩ := Prod.mk.inj h
      obtain ⟨rfl, hvalues⟩ := ih hrest
      have hnew : job = newJob ids message primary target :=
        (ReplicationJobStore.createJob_eq_some hjob).2.1
      refine ⟨by rw [hnew, List.map_cons], ?_⟩
      rw [hvalues, ReplicationJobStore.values_createJob hjob, List.append_assoc,
        List.singleton_append]

/-- Whether the request of a job comes back without an error. -/
def succeeds (nodeId : String) (answer : ReplicationJob → Reply) (job : ReplicationJob) : Bool :=
  (job.message nodeId).isSome && (answer job).answered

/-- A row after an execution. -/
def ReplicationJob.executed (row : ReplicationJob) (success : Bool) : ReplicationJob :=
  { row with
    status := if success then .success else .failed
    attemptCount := row.attemptCount + 1 }

namespace Durable

variable {nodeId : String} {answer : ReplicationJob → Reply} {jobs : List ReplicationJob}

theorem post_snd (d : Durable) (job : ReplicationJob) :
    (d.post nodeId job (answer job)).2 = succeeds nodeId answer job := by
  unfold post succeeds
  cases job.message nodeId with
  | none => rfl
  | some message => rfl

theorem values_executeJob (nodeId : String) (answer : ReplicationJob → Reply) (d : Durable)
    (job : ReplicationJob) : (d.executeJob nodeId answer job).store.rows.values =
      d.store.rows.values.map fun row =>
        if row.jobId = job.jobId then row.executed (succeeds nodeId answer job) else row := by
  rw [executeJob_eq]
  simp only [finishJob, ReplicationJobStore.values_updateJobStatus, store_post, beginJob,
    List.map_map, post_snd]
  refine List.map_congr_left fun row _ => ?_
  rw [Function.comp_apply]
  by_cases hid : row.jobId = job.jobId
  · rw [if_pos hid, if_pos hid]
    exact if_pos hid
  · rw [if_neg hid, if_neg hid, if_neg hid]

end Durable

section Results

variable {nodeId : String} {answer : ReplicationJob → Reply} {jobs : List ReplicationJob}

theorem executeJobs_eq (nodeId : String) (answer : ReplicationJob → Reply)
    (jobs : List ReplicationJob) (d : Durable) :
    executeJobs nodeId answer jobs d = (jobs.foldl (Durable.executeJob nodeId answer) d,
      jobs.map fun job => (job.targetNode, succeeds nodeId answer job)) := by
  induction jobs generalizing d with
  | nil => rfl
  | cons job jobs ih =>
      unfold executeJobs
      rw [ih, Durable.post_snd]
      rfl

/-- A row after jobs are executed. -/
def afterJobs (nodeId : String) (answer : ReplicationJob → Reply) (jobs : List ReplicationJob)
    (row : ReplicationJob) : ReplicationJob :=
  jobs.foldl (fun row job =>
    if row.jobId = job.jobId then row.executed (succeeds nodeId answer job) else row) row

theorem values_foldl (nodeId : String) (answer : ReplicationJob → Reply)
    (jobs : List ReplicationJob) (d : Durable) :
    (jobs.foldl (Durable.executeJob nodeId answer) d).store.rows.values =
      d.store.rows.values.map (afterJobs nodeId answer jobs) := by
  induction jobs generalizing d with
  | nil => exact (List.map_id _).symm
  | cons job jobs ih =>
      rw [List.foldl_cons, ih, Durable.values_executeJob, List.map_map]
      rfl

/-- A row whose job is not executed stays as it is. -/
theorem afterJobs_of_notMem {row : ReplicationJob} (h : ∀ job ∈ jobs, row.jobId ≠ job.jobId) :
    afterJobs nodeId answer jobs row = row := by
  induction jobs generalizing row with
  | nil => rfl
  | cons job jobs ih =>
      unfold afterJobs
      rw [List.foldl_cons, if_neg (h job List.mem_cons_self)]
      exact ih fun job' hjob' => h job' (List.mem_cons_of_mem _ hjob')

/-- A job among others that are executed once each. -/
theorem afterJobs_of_mem (hnodup : (jobs.map ReplicationJob.jobId).Nodup) {job : ReplicationJob}
    (h : job ∈ jobs) :
    afterJobs nodeId answer jobs job = job.executed (succeeds nodeId answer job) := by
  induction jobs with
  | nil => cases h
  | cons job' jobs ih =>
      rw [List.map_cons, List.nodup_cons] at hnodup
      unfold afterJobs
      rw [List.foldl_cons]
      rcases List.mem_cons.mp h with rfl | hmem
      · rw [if_pos rfl]
        refine afterJobs_of_notMem fun job' hjob' hid => ?_
        exact hnodup.1 (List.mem_map.mpr ⟨job', hjob', hid.symm⟩)
      · rw [if_neg]
        · exact ih hnodup.2 hmem
        · exact fun hid => hnodup.1 (List.mem_map.mpr ⟨job, hmem, hid⟩)

end Results

/-! ## Two ways to count -/

/-- The state of a block of which so many of the jobs for its replicas succeeded. -/
def stateOf (consistency : ConsistencyLevel) (replicas succeeded : ℕ) : ReplicationState :=
  if isQuorumSatisfied (succeeded + 1) (requiredAcks (replicas + 1) consistency) then
    if succeeded < replicas then .degraded else .replicated
  else .failed

/-- The acknowledgements and failures of different replicas are counted. -/
theorem card_recordResults {results : List (String × Bool)} {q : QuorumManager}
    (hnodup : (results.map Prod.fst).Nodup)
    (hacked : ∀ result ∈ results, result.1 ∉ q.ackedNodes)
    (hfailed : ∀ result ∈ results, result.1 ∉ q.failedNodes) :
    (recordResults q results).ackedNodes.card = q.ackedNodes.card + results.countP (·.2) ∧
      (recordResults q results).failedNodes.card = q.failedNodes.card + results.countP (!·.2) ∧
      (recordResults q results).required = q.required := by
  induction results generalizing q with
  | nil => exact ⟨rfl, rfl, rfl⟩
  | cons result results ih =>
      obtain ⟨target, ok⟩ := result
      rw [List.map_cons, List.nodup_cons] at hnodup
      have hne : ∀ result ∈ results, result.1 ≠ target := fun result hresult heq =>
        hnodup.1 (List.mem_map.mpr ⟨result, hresult, heq⟩)
      have hnew := hacked (target, ok) List.mem_cons_self
      have hnew' := hfailed (target, ok) List.mem_cons_self
      cases ok with
      | true =>
          have hstep := ih (q := q.recordAck target) hnodup.2
            (fun result hresult => by
              rw [QuorumManager.ackedNodes_recordAck, Finset.mem_insert, not_or]
              exact ⟨hne result hresult, hacked result (List.mem_cons_of_mem _ hresult)⟩)
            (fun result hresult hmem =>
              hfailed result (List.mem_cons_of_mem _ hresult) (Finset.mem_of_mem_erase hmem))
          have hcard : (q.recordAck target).ackedNodes.card = q.ackedNodes.card + 1 :=
            Finset.card_insert_of_notMem hnew
          have hcard' : (q.recordAck target).failedNodes = q.failedNodes :=
            Finset.erase_eq_of_notMem hnew'
          rw [hcard, hcard'] at hstep
          refine ⟨?_, ?_, hstep.2.2⟩
          · rw [List.countP_cons_of_pos rfl]
            exact hstep.1.trans (by omega)
          · rw [List.countP_cons_of_neg Bool.false_ne_true]
            exact hstep.2.1
      | false =>
          have hrecord : q.recordFailure target =
              { q with failedNodes := insert target q.failedNodes } := if_neg hnew
          have hstep := ih (q := q.recordFailure target) hnodup.2
            (fun result hresult => by
              rw [QuorumManager.ackedNodes_recordFailure]
              exact hacked result (List.mem_cons_of_mem _ hresult))
            (fun result hresult => by
              rw [hrecord, Finset.mem_insert, not_or]
              exact ⟨hne result hresult, hfailed result (List.mem_cons_of_mem _ hresult)⟩)
          have hcard : (q.recordFailure target).failedNodes.card = q.failedNodes.card + 1 := by
            rw [hrecord]
            exact Finset.card_insert_of_notMem hnew'
          rw [hcard, QuorumManager.ackedNodes_recordFailure] at hstep
          refine ⟨?_, ?_, hstep.2.2.trans QuorumManager.required_recordFailure⟩
          · rw [List.countP_cons_of_neg Bool.false_ne_true]
            exact hstep.1
          · rw [List.countP_cons_of_pos rfl]
            exact hstep.2.1.trans (by omega)

namespace ReplicationService

/-- What a call makes of the results of different replicas. -/
theorem finalizeState_of_nodup (m : ReplicaManager) (blockId : String) {nodeId : String}
    {consistency : ConsistencyLevel} {results : List (String × Bool)} (timedOut : Bool)
    (hne : results ≠ []) (hnodup : (results.map Prod.fst).Nodup)
    (hself : nodeId ∉ results.map Prod.fst) :
    finalizeState m blockId results (recordResults
      ((QuorumManager.init (results.length + 1) consistency).recordAck nodeId) results) timedOut =
      m.mark (stateOf consistency results.length (results.countP (·.2))) blockId := by
  have hself' : ∀ result ∈ results, result.1 ≠ nodeId := fun result hresult heq =>
    hself (List.mem_map.mpr ⟨result, hresult, heq⟩)
  obtain ⟨hacked, hfailed, hrequired⟩ := card_recordResults
    (q := (QuorumManager.init (results.length + 1) consistency).recordAck nodeId) hnodup
    (fun result hresult hmem => hself' result hresult (by
      simpa [QuorumManager.init] using hmem))
    (fun result hresult hmem => by simp [QuorumManager.init, QuorumManager.recordAck] at hmem)
  have hcount : results.length = results.countP (·.2) + results.countP (!·.2) := by
    rw [List.length_eq_countP_add_countP (·.2)]
    simp only [Bool.not_eq_true, Bool.decide_eq_false]
  have hsuccess : (recordResults ((QuorumManager.init (results.length + 1) consistency).recordAck
      nodeId) results).evaluate timedOut = .success ↔
      isQuorumSatisfied (results.countP (·.2) + 1) (requiredAcks (results.length + 1) consistency) =
        true := by
    have hself : ((QuorumManager.init (results.length + 1) consistency).recordAck
        nodeId).ackedNodes.card = 1 := rfl
    rw [QuorumManager.evaluate_eq_success, hrequired, hacked, hself, Nat.add_comm 1,
      isQuorumSatisfied, decide_eq_true_iff]
    exact Iff.rfl
  have hdegraded : 0 < (recordResults ((QuorumManager.init (results.length + 1) consistency).recordAck
      nodeId) results).failedNodes.card ↔ results.countP (·.2) < results.length := by
    have hnone : ((QuorumManager.init (results.length + 1) consistency).recordAck
        nodeId).failedNodes.card = 0 := rfl
    rw [hfailed, hnone]
    omega
  unfold finalizeState stateOf
  rw [if_neg hne]
  simp only [hsuccess, hdegraded]
  split_ifs <;> rfl

/-- What is computed from the jobs for different replicas. -/
theorem stateFromJobs_eq {nodeId : String} {consistency : ConsistencyLevel}
    {jobs : List ReplicationJob} (hnodup : (jobs.map ReplicationJob.targetNode).Nodup)
    (hself : nodeId ∉ jobs.map ReplicationJob.targetNode) :
    stateFromJobs consistency nodeId jobs = stateOf consistency jobs.length (successes jobs) := by
  have hcard : (nodeId :: jobs.map ReplicationJob.targetNode).toFinset.card = jobs.length + 1 := by
    rw [List.toFinset_card_of_nodup (List.nodup_cons.mpr ⟨hself, hnodup⟩), List.length_cons,
      List.length_map]
  unfold stateFromJobs stateOf
  simp only [hcard]

/-! ## The jobs of the newest version -/

variable {s s' : ReplicationService} {store store' : ReplicationJobStore} {b : String}

theorem mem_blockJobs {job : ReplicationJob} :
    job ∈ store.listAllJobs.filter (fun job => job.blockId = b) ↔
      job ∈ store.listAllJobs ∧ job.blockId = b := by
  rw [List.mem_filter, decide_eq_true_iff]

theorem mem_versionJobs {job : ReplicationJob} : job ∈ versionJobs store b ↔
    job ∈ store.listAllJobs ∧ job.blockId = b ∧
      ∀ job' ∈ store.listAllJobs, job'.blockId = b → job'.version ≤ job.version := by
  unfold versionJobs
  dsimp only
  split
  · rename_i hnone
    rw [List.max?_eq_none_iff, List.map_eq_nil_iff] at hnone
    refine iff_of_false List.not_mem_nil fun h => ?_
    have hjob := mem_blockJobs.mpr ⟨h.1, h.2.1⟩
    rw [hnone] at hjob
    cases hjob
  · rename_i latest hlatest
    obtain ⟨hwitness, hle⟩ := List.max?_eq_some_iff.mp hlatest
    rw [List.mem_filter, mem_blockJobs, decide_eq_true_iff, and_assoc]
    refine and_congr_right fun hjob => and_congr_right fun hblock => ⟨?_, fun hnewest => ?_⟩
    · rintro rfl job' hjob' hblock'
      exact hle _ (List.mem_map_of_mem (mem_blockJobs.mpr ⟨hjob', hblock'⟩))
    · obtain ⟨job', hjob', rfl⟩ := List.mem_map.mp hwitness
      obtain ⟨hjob', hblock'⟩ := mem_blockJobs.mp hjob'
      exact le_antisymm (hle _ (List.mem_map_of_mem (mem_blockJobs.mpr ⟨hjob, hblock⟩)))
        (hnewest job' hjob' hblock')

/-- The newest jobs are those of a version, if none is newer. -/
theorem versionJobs_eq_filter {v : ℤ}
    (hle : ∀ job ∈ store.listAllJobs, job.blockId = b → job.version ≤ v)
    (hex : ∃ job ∈ store.listAllJobs, job.blockId = b ∧ job.version = v) :
    versionJobs store b =
      store.listAllJobs.filter fun job => job.blockId = b ∧ job.version = v := by
  obtain ⟨job, hjob, hblock, rfl⟩ := hex
  have hmax : ((store.listAllJobs.filter fun job => job.blockId = b).map
      ReplicationJob.version).max? = some job.version := by
    rw [List.max?_eq_some_iff]
    refine ⟨List.mem_map_of_mem (mem_blockJobs.mpr ⟨hjob, hblock⟩), fun v hv => ?_⟩
    obtain ⟨job', hjob', rfl⟩ := List.mem_map.mp hv
    obtain ⟨hjob', hblock'⟩ := mem_blockJobs.mp hjob'
    exact hle job' hjob' hblock'
  unfold versionJobs
  simp only [hmax, List.filter_filter]
  refine List.filter_congr fun job' _ => ?_
  rw [← Bool.decide_and]
  exact decide_eq_decide.mpr and_comm

/-- Rows that keep their blocks and versions. -/
theorem versionJobs_map {f : ReplicationJob → ReplicationJob}
    (hblock : ∀ row, (f row).blockId = row.blockId) (hversion : ∀ row, (f row).version = row.version)
    (h : store'.rows.values = store.rows.values.map f) :
    versionJobs store' b = (versionJobs store b).map f := by
  have hjobs : store'.listAllJobs.filter (fun job => job.blockId = b) =
      (store.listAllJobs.filter fun job => job.blockId = b).map f := by
    unfold ReplicationJobStore.listAllJobs
    rw [h, ← List.map_reverse, List.filter_map]
    refine congrArg (List.map f) (List.filter_congr fun row _ => ?_)
    rw [Function.comp_apply, hblock]
  have hversions : ((store.listAllJobs.filter fun job => job.blockId = b).map f).map
      ReplicationJob.version =
      (store.listAllJobs.filter fun job => job.blockId = b).map ReplicationJob.version := by
    rw [List.map_map]
    exact List.map_congr_left fun row _ => hversion row
  unfold versionJobs
  simp only [hjobs, hversions]
  split
  · rfl
  · rw [List.filter_map]
    refine congrArg (List.map f) (List.filter_congr fun row _ => ?_)
    rw [Function.comp_apply, hversion]

/-- An execution changes the rows of one job only. -/
theorem versionJobs_executeJob (answer : ReplicationJob → Reply) (d : Durable) (nodeId : String)
    (job : ReplicationJob) : versionJobs (d.executeJob nodeId answer job).store b =
      (versionJobs d.store b).map fun row =>
        if row.jobId = job.jobId then row.executed (succeeds nodeId answer job) else row := by
  refine versionJobs_map (fun row => ?_) (fun row => ?_) (Durable.values_executeJob nodeId answer d job)
  · split <;> rfl
  · split <;> rfl

/-! ## The update of a state -/

theorem durable_update (s : ReplicationService) (b : String) :
    (s.updateBlockStateFromJobs b).durable = s.durable := by
  unfold updateBlockStateFromJobs
  split <;> rfl

theorem nodeId_update (s : ReplicationService) (b : String) :
    (s.updateBlockStateFromJobs b).nodeId = s.nodeId ∧
      (s.updateBlockStateFromJobs b).consistency = s.consistency := by
  unfold updateBlockStateFromJobs
  split <;> exact ⟨rfl, rfl⟩

theorem getReplicaState_mark (m : ReplicaManager) (state : ReplicationState) (b b' : String) :
    (m.mark state b').getReplicaState b = (m.getReplicaState b).map fun tracked =>
      if b = b' then { tracked with state } else tracked := by
  unfold ReplicaManager.getReplicaState ReplicaManager.mark
  rw [Dict.get?_modify]

theorem getReplicaState_update_of_ne {b' : String} (h : b ≠ b') :
    (s.updateBlockStateFromJobs b').replicaManager.getReplicaState b =
      s.replicaManager.getReplicaState b := by
  unfold updateBlockStateFromJobs
  split
  · rfl
  · rw [getReplicaState_mark]
    simp only [if_neg h, Option.map_id']

/-- The block gets the state that is computed from its newest jobs. -/
theorem getReplicaState_update {nodeId : String} (hne : versionJobs s.durable.store b ≠ [])
    (hprimary : ∀ job ∈ versionJobs s.durable.store b, job.primaryNode = nodeId) :
    (s.updateBlockStateFromJobs b).replicaManager.getReplicaState b =
      (s.replicaManager.getReplicaState b).map fun tracked =>
        { tracked with
          state := stateFromJobs s.consistency nodeId (versionJobs s.durable.store b) } := by
  unfold updateBlockStateFromJobs
  split
  · rename_i hnil
    exact absurd hnil hne
  · rename_i job jobs hjobs
    rw [getReplicaState_mark, hjobs, hprimary job (hjobs ▸ List.mem_cons_self)]
    simp only [if_true]

/-! ## Retries -/

/-- What every retry of a stored job keeps holds after a cycle. -/
theorem retry_induction {I : ReplicationService → Prop} {Q : ReplicationJob → Prop}
    (answer : ReplicationJob → Reply)
    (hQ : ∀ job, s.durable.store.getJob job.jobId = some job →
      job.status = .pending ∨ job.status = .failed → Q job)
    (hstep : ∀ s job, I s → Q job → s.durable.Listed job → I (retryJob answer s job)) (hs : I s) :
    I (s.retryFailedReplications answer) := by
  have hfold : ∀ (jobs : List ReplicationJob) (s : ReplicationService),
      (∀ job ∈ jobs, Q job ∧ s.durable.Listed job) → I s → I (jobs.foldl (retryJob answer) s) := by
    intro jobs
    induction jobs with
    | nil => exact fun _ _ h => h
    | cons job jobs ih =>
        intro s hjobs hs
        obtain ⟨hQjob, hlisted⟩ := hjobs job List.mem_cons_self
        refine ih _ (fun job' hjob' => ?_) (hstep s job hs hQjob hlisted)
        obtain ⟨hQjob', hlisted'⟩ := hjobs job' (List.mem_cons_of_mem _ hjob')
        refine ⟨hQjob', ?_⟩
        unfold retryJob
        rw [durable_update]
        exact (Durable.keeps_executeJob s.nodeId answer s.durable job).listed hlisted'
  refine hfold _ s (fun job hjob => ?_) hs
  obtain ⟨hstored, hstatus, -⟩ := Durable.mem_retried.mp hjob
  exact ⟨hQ job hstored hstatus, Durable.listed_of_mem_retried hjob⟩

/-- The newest jobs of a block are those of the call for its replicas, and it is tracked in the state
that is computed from them. -/
structure Tracks (s : ReplicationService) (message : ReplicaMessage) (locations : List String) :
    Prop where
  targets : ((versionJobs s.durable.store message.base.blockId).map
    ReplicationJob.targetNode).Perm (locations.filter (· ≠ s.nodeId))
  newest : ∀ job ∈ versionJobs s.durable.store message.base.blockId,
    job.version = message.base.version ∧ job.primaryNode = s.nodeId
  tracked : s.replicaManager.getReplicaState message.base.blockId =
    some ⟨message.base.blockId, message.base.version, locations, stateOf s.consistency
      (versionJobs s.durable.store message.base.blockId).length
      (successes (versionJobs s.durable.store message.base.blockId))⟩

variable {message : ReplicaMessage} {locations : List String}

/-- The state that is computed from the jobs of the call. -/
theorem stateFromJobs_of_targets {jobs : List ReplicationJob} {consistency : ConsistencyLevel}
    {nodeId : String} (hnodup : locations.Nodup) (htargets : (jobs.map
      ReplicationJob.targetNode).Perm (locations.filter (· ≠ nodeId))) :
    stateFromJobs consistency nodeId jobs = stateOf consistency jobs.length (successes jobs) := by
  apply stateFromJobs_eq
  · exact htargets.nodup_iff.mpr (hnodup.filter _)
  · intro hmem
    exact of_decide_eq_true (List.mem_filter.mp (htargets.mem_iff.mp hmem)).2 rfl

/-- The update computes the state that is tracked. -/
theorem Tracks.update (h : s.Tracks message locations) (hnodup : locations.Nodup)
    (hreplica : locations.filter (· ≠ s.nodeId) ≠ []) :
    (s.updateBlockStateFromJobs message.base.blockId).replicaManager.getReplicaState
      message.base.blockId = s.replicaManager.getReplicaState message.base.blockId := by
  have hne : versionJobs s.durable.store message.base.blockId ≠ [] := by
    intro hnil
    have htargets := h.targets
    rw [hnil] at htargets
    exact hreplica htargets.nil_eq.symm
  rw [getReplicaState_update hne fun job hjob => (h.newest job hjob).2, h.tracked,
    stateFromJobs_of_targets hnodup h.targets]
  rfl

/-- After an update the block is tracked in the state that is computed from its jobs, if the update is
of the block or it was so before. -/
theorem tracks_update {b' : String} {state : ReplicationState} (hnodup : locations.Nodup)
    (hreplica : locations.filter (· ≠ s.nodeId) ≠ [])
    (htargets : ((versionJobs s.durable.store message.base.blockId).map
      ReplicationJob.targetNode).Perm (locations.filter (· ≠ s.nodeId)))
    (hnewest : ∀ job ∈ versionJobs s.durable.store message.base.blockId,
      job.version = message.base.version ∧ job.primaryNode = s.nodeId)
    (htracked : s.replicaManager.getReplicaState message.base.blockId =
      some ⟨message.base.blockId, message.base.version, locations, state⟩)
    (hstate : message.base.blockId ≠ b' → state = stateOf s.consistency
      (versionJobs s.durable.store message.base.blockId).length
      (successes (versionJobs s.durable.store message.base.blockId))) :
    (s.updateBlockStateFromJobs b').Tracks message locations := by
  obtain ⟨hnodeId, hconsistency⟩ := nodeId_update s b'
  constructor
  · rw [durable_update, hnodeId]
    exact htargets
  · rw [durable_update, hnodeId]
    exact hnewest
  · rw [durable_update, hconsistency]
    by_cases hblock : message.base.blockId = b'
    · have hne : versionJobs s.durable.store message.base.blockId ≠ [] := by
        intro hnil
        rw [hnil] at htargets
        exact hreplica htargets.nil_eq.symm
      rw [← hblock, getReplicaState_update hne fun job hjob => (hnewest job hjob).2, htracked,
        stateFromJobs_of_targets hnodup htargets]
      rfl
    · rw [getReplicaState_update_of_ne hblock, htracked, hstate hblock]

/-- A retry keeps that the block is tracked in the state that is computed from its jobs. -/
theorem Tracks.retryJob {answer : ReplicationJob → Reply} {job : ReplicationJob}
    (h : s.Tracks message locations) (hnodup : locations.Nodup)
    (hreplica : locations.filter (· ≠ s.nodeId) ≠ []) (hlisted : s.durable.Listed job) :
    (ReplicationService.retryJob answer s job).Tracks message locations := by
  have hjobs := versionJobs_executeJob (b := message.base.blockId) answer s.durable s.nodeId job
  unfold ReplicationService.retryJob
  refine tracks_update hnodup hreplica ?_ ?_ h.tracked fun hblock => ?_
  · simp only [hjobs, List.map_map]
    refine (List.Perm.of_eq (List.map_congr_left fun row _ => ?_)).trans h.targets
    rw [Function.comp_apply]
    split <;> rfl
  · intro row' hrow'
    simp only [hjobs] at hrow'
    obtain ⟨row, hrow, rfl⟩ := List.mem_map.mp hrow'
    split <;> exact h.newest row hrow
  · have hsame : versionJobs (s.durable.executeJob s.nodeId answer job).store
        message.base.blockId = versionJobs s.durable.store message.base.blockId := by
      rw [hjobs]
      refine (List.map_congr_left fun row hrow => if_neg fun hid => ?_).trans (List.map_id _)
      -- a row with the id of the job is of another block
      obtain ⟨hlist, hrowBlock, -⟩ := mem_versionJobs.mp hrow
      obtain ⟨stored, hstored, hidentity⟩ := hlisted
      have hrowStored := ReplicationJobStore.mem_listAllJobs.mp hlist
      rw [hid] at hrowStored
      obtain rfl := Option.some.inj (hrowStored.symm.trans hstored)
      have hjobBlock : row.identity.blockId = job.identity.blockId := by rw [hidentity]
      exact hblock (hrowBlock.symm.trans hjobBlock)
    simp only [hsame]

/-- A cycle keeps that the block is tracked in the state that is computed from its jobs. -/
theorem Tracks.retryFailedReplications (answer : ReplicationJob → Reply)
    (h : s.Tracks message locations) (hnodup : locations.Nodup)
    (hreplica : locations.filter (· ≠ s.nodeId) ≠ []) :
    (s.retryFailedReplications answer).Tracks message locations ∧
      (s.retryFailedReplications answer).nodeId = s.nodeId ∧
      (s.retryFailedReplications answer).consistency = s.consistency := by
  refine retry_induction answer
    (I := fun t => t.Tracks message locations ∧ t.nodeId = s.nodeId ∧ t.consistency = s.consistency)
    (Q := fun _ => True) (fun _ _ _ => trivial) (fun t job ⟨ht, hnodeId, hconsistency⟩ _ hlisted => ?_)
    ⟨h, rfl, rfl⟩
  obtain ⟨hnodeId', hconsistency'⟩ := nodeId_update
    { t with durable := t.durable.executeJob t.nodeId answer job } job.blockId
  refine ⟨ht.retryJob hnodup (by rwa [hnodeId]) hlisted, ?_, ?_⟩
  · exact hnodeId'.trans hnodeId
  · exact hconsistency'.trans hconsistency

theorem Tracks.cycles (answers : List (ReplicationJob → Reply)) (h : s.Tracks message locations)
    (hnodup : locations.Nodup) (hreplica : locations.filter (· ≠ s.nodeId) ≠ []) :
    (answers.foldl ReplicationService.retryFailedReplications s).Tracks message locations ∧
      (answers.foldl ReplicationService.retryFailedReplications s).nodeId = s.nodeId ∧
      (answers.foldl ReplicationService.retryFailedReplications s).consistency = s.consistency := by
  induction answers generalizing s with
  | nil => exact ⟨h, rfl, rfl⟩
  | cons answer answers ih =>
      obtain ⟨ht, hnodeId, hconsistency⟩ := h.retryFailedReplications answer hnodup hreplica
      obtain ⟨ht', hnodeId', hconsistency'⟩ := ih ht (by rwa [hnodeId])
      exact ⟨ht', hnodeId'.trans hnodeId, hconsistency'.trans hconsistency⟩

/-! ## A call with replicas -/

theorem length_filter_ne {nodeId : String} (hnodup : locations.Nodup) (hmem : nodeId ∈ locations) :
    locations.length = (locations.filter (· ≠ nodeId)).length + 1 := by
  have herase : locations.filter (· ≠ nodeId) = locations.erase nodeId := by
    rw [hnodup.erase_eq_filter]
    refine List.filter_congr fun n _ => ?_
    by_cases hn : n = nodeId <;> simp [hn]
  rw [herase, List.length_erase_add_one hmem]

/-- The rows that a call with replicas leaves, and the state of the block. -/
theorem sendReplications_spec {o : Delivery} {jobs : List ReplicationJob} (hnodup : locations.Nodup)
    (hmem : s.nodeId ∈ locations) (hreplica : locations.filter (· ≠ s.nodeId) ≠ [])
    (hjobs : createJobs o.ids message s.nodeId (locations.filter (· ≠ s.nodeId)) s.durable.store =
      some (store, jobs)) :
    (s.sendReplications message locations o store jobs).durable.store.rows.values =
        s.durable.store.rows.values ++
          jobs.map (fun job => job.executed (succeeds s.nodeId o.answer job)) ∧
      (s.sendReplications message locations o store jobs).replicaManager.getReplicaState
          message.base.blockId =
        some ⟨message.base.blockId, message.base.version, locations,
          stateOf s.consistency jobs.length (jobs.countP (succeeds s.nodeId o.answer))⟩ := by
  obtain ⟨hnew, hvalues⟩ := createJobs_eq_some hjobs
  have hids := store.nodup_jobIds
  rw [hvalues, List.map_append, List.nodup_append] at hids
  obtain ⟨-, hidsNew, hdisjoint⟩ := hids
  have htargets : jobs.map ReplicationJob.targetNode = locations.filter (· ≠ s.nodeId) := by
    rw [hnew, List.map_map]
    exact List.map_id _
  -- the jobs in the order in which they end
  have hperm := List.perm_insertionSort (fun job job' : ReplicationJob =>
    o.arrival job.targetNode ≤ o.arrival job'.targetNode) jobs
  unfold sendReplications
  simp only [executeJobs_eq]
  generalize jobs.insertionSort (fun job job' : ReplicationJob =>
    o.arrival job.targetNode ≤ o.arrival job'.targetNode) = order at hperm
  constructor
  · simp only [values_foldl, hvalues, List.map_append]
    refine congrArg₂ (· ++ ·) ?_ ?_
    · refine (List.map_congr_left fun row hrow => afterJobs_of_notMem fun job hjob => ?_).trans
        (List.map_id _)
      exact hdisjoint _ (List.mem_map_of_mem hrow) _
        (List.mem_map_of_mem (hperm.mem_iff.mp hjob))
    · refine List.map_congr_left fun job hjob => ?_
      exact afterJobs_of_mem ((hperm.map _).nodup_iff.mpr hidsNew) (hperm.mem_iff.mpr hjob)
  · have hlength : locations.length = (order.map fun job =>
        (job.targetNode, succeeds s.nodeId o.answer job)).length + 1 := by
      rw [List.length_map, hperm.length_eq, ← List.length_map (f := ReplicationJob.targetNode),
        htargets, length_filter_ne hnodup hmem]
    have hne : (order.map fun job => (job.targetNode, succeeds s.nodeId o.answer job)) ≠ [] := by
      intro hnil
      rw [List.map_eq_nil_iff] at hnil
      rw [hnil] at hperm
      rw [← htargets, hperm.nil_eq.symm] at hreplica
      exact hreplica rfl
    have hfst : ((order.map fun job => (job.targetNode, succeeds s.nodeId o.answer job)).map
        Prod.fst).Perm (locations.filter (· ≠ s.nodeId)) := by
      rw [List.map_map, ← htargets]
      exact hperm.map _
    rw [hlength, finalizeState_of_nodup _ _ _ hne (hfst.nodup_iff.mpr (hnodup.filter _)) fun hself =>
      of_decide_eq_true (List.mem_filter.mp (hfst.mem_iff.mp hself)).2 rfl]
    simp only [getReplicaState_mark, ReplicaManager.markReplicating, List.length_map,
      hperm.length_eq, List.countP_map, if_true]
    have hcount : List.countP ((fun result : String × Bool => result.2) ∘ fun job : ReplicationJob =>
        (job.targetNode, succeeds s.nodeId o.answer job)) order =
          jobs.countP (succeeds s.nodeId o.answer) := hperm.countP_eq _
    have hpending : (s.replicaManager.markPending message.base.blockId message.base.version
        locations).getReplicaState message.base.blockId =
          some ⟨message.base.blockId, message.base.version, locations, .pending⟩ := Dict.get?_set_self
    rw [hcount, hpending]
    rfl

/-- A call replicates what is its own and fits into the columns. -/
theorem guard_of_replicate {o : Delivery} (h : s.replicate message locations o = some s') :
    message.base.originNodeId = s.nodeId ∧ Bindable message.base.version ∧
      Bindable message.base.lsn := by
  by_contra hno
  unfold replicate at h
  rw [if_pos hno] at h
  cases h

/-- What a call with replicas is. -/
theorem replicate_of_replicas (o : Delivery) (hmem : s.nodeId ∈ locations)
    (hreplica : locations.filter (· ≠ s.nodeId) ≠ [])
    (hguard : message.base.originNodeId = s.nodeId ∧ Bindable message.base.version ∧
      Bindable message.base.lsn) :
    s.replicate message locations o =
      (createJobs o.ids message s.nodeId (locations.filter (· ≠ s.nodeId)) s.durable.store).map
        fun created => s.sendReplications message locations o created.1 created.2 := by
  unfold replicate
  rw [if_neg (not_not.mpr hguard), if_neg (not_not.mpr hmem), if_neg hreplica]

theorem nodeId_sendReplications (s : ReplicationService) (o : Delivery)
    (jobs : List ReplicationJob) :
    (s.sendReplications message locations o store jobs).nodeId = s.nodeId ∧
      (s.sendReplications message locations o store jobs).consistency = s.consistency :=
  ⟨rfl, rfl⟩

/-- The jobs of a call with replicas are the newest, if no job of the block is as new. -/
theorem versionJobs_sendReplications {o : Delivery} {jobs : List ReplicationJob}
    (hnodup : locations.Nodup) (hmem : s.nodeId ∈ locations)
    (hreplica : locations.filter (· ≠ s.nodeId) ≠ [])
    (holder : ∀ job ∈ s.durable.store.listAllJobs, job.blockId = message.base.blockId →
      job.version < message.base.version)
    (hjobs : createJobs o.ids message s.nodeId (locations.filter (· ≠ s.nodeId)) s.durable.store =
      some (store, jobs)) :
    versionJobs (s.sendReplications message locations o store jobs).durable.store
      message.base.blockId =
        (jobs.map fun job => job.executed (succeeds s.nodeId o.answer job)).reverse := by
  obtain ⟨hvalues, -⟩ := sendReplications_spec hnodup hmem hreplica hjobs
  obtain ⟨hnew, -⟩ := createJobs_eq_some hjobs
  have hown : ∀ row ∈ (jobs.map fun job =>
      job.executed (succeeds s.nodeId o.answer job)).reverse,
      row.blockId = message.base.blockId ∧ row.version = message.base.version := by
    intro row hrow
    obtain ⟨job, hjob, rfl⟩ := List.mem_map.mp (List.mem_reverse.mp hrow)
    rw [hnew] at hjob
    obtain ⟨target, -, rfl⟩ := List.mem_map.mp hjob
    exact ⟨rfl, rfl⟩
  have hlist : (s.sendReplications message locations o store jobs).durable.store.listAllJobs =
      (jobs.map fun job => job.executed (succeeds s.nodeId o.answer job)).reverse ++
        s.durable.store.listAllJobs := by
    unfold ReplicationJobStore.listAllJobs
    rw [hvalues, List.reverse_append]
  have hex : ∃ row, row ∈ (jobs.map fun job =>
      job.executed (succeeds s.nodeId o.answer job)).reverse := by
    apply List.exists_mem_of_ne_nil
    rw [hnew, Ne, List.reverse_eq_nil_iff, List.map_eq_nil_iff, List.map_eq_nil_iff]
    exact hreplica
  rw [versionJobs_eq_filter (v := message.base.version)]
  · rw [hlist, List.filter_append, List.filter_eq_self.mpr, List.filter_eq_nil_iff.mpr,
      List.append_nil]
    · intro job hjob hboth
      obtain ⟨hblock, hversion⟩ := of_decide_eq_true hboth
      exact absurd hversion (holder job hjob hblock).ne
    · exact fun row hrow => decide_eq_true (hown row hrow)
  · intro job hjob hblock
    rw [hlist] at hjob
    rcases List.mem_append.mp hjob with hjob | hjob
    · exact (hown job hjob).2.le
    · exact (holder job hjob hblock).le
  · obtain ⟨row, hrow⟩ := hex
    exact ⟨row, hlist ▸ List.mem_append_left _ hrow, hown row hrow⟩

/-- A call with replicas tracks the block. -/
theorem tracks_sendReplications {o : Delivery} {jobs : List ReplicationJob} (hnodup : locations.Nodup)
    (hmem : s.nodeId ∈ locations) (hreplica : locations.filter (· ≠ s.nodeId) ≠ [])
    (holder : ∀ job ∈ s.durable.store.listAllJobs, job.blockId = message.base.blockId →
      job.version < message.base.version)
    (hjobs : createJobs o.ids message s.nodeId (locations.filter (· ≠ s.nodeId)) s.durable.store =
      some (store, jobs)) :
    (s.sendReplications message locations o store jobs).Tracks message locations := by
  obtain ⟨-, hstate⟩ := sendReplications_spec hnodup hmem hreplica hjobs
  obtain ⟨hnew, -⟩ := createJobs_eq_some hjobs
  have hsame : (s.sendReplications message locations o store jobs).nodeId = s.nodeId ∧
      (s.sendReplications message locations o store jobs).consistency = s.consistency :=
    nodeId_sendReplications s o jobs
  obtain ⟨hnodeId, hconsistency⟩ := hsame
  have hnewest := versionJobs_sendReplications hnodup hmem hreplica holder hjobs
  constructor
  · rw [hnewest, hnodeId, List.map_reverse, List.map_map, hnew, List.map_map]
    exact (List.reverse_perm _).trans (List.Perm.of_eq (List.map_id _))
  · rw [hnewest, hnodeId]
    intro row hrow
    obtain ⟨job, hjob, rfl⟩ := List.mem_map.mp (List.mem_reverse.mp hrow)
    rw [hnew] at hjob
    obtain ⟨target, -, rfl⟩ := List.mem_map.mp hjob
    exact ⟨rfl, rfl⟩
  · have hsuccesses : successes (jobs.map fun job =>
        job.executed (succeeds s.nodeId o.answer job)).reverse =
          jobs.countP (succeeds s.nodeId o.answer) := by
      unfold successes
      rw [List.countP_reverse, List.countP_map]
      refine List.countP_congr fun job _ => ?_
      rw [Function.comp_apply, decide_eq_true_iff]
      unfold ReplicationJob.executed
      cases succeeds s.nodeId o.answer job <;> simp
    rw [hnewest, hstate, hconsistency, hsuccesses, List.length_reverse, List.length_map]

/-- The targets that have succeeded are counted by their jobs. -/
theorem Tracks.countP_acknowledgedBy (h : s.Tracks message locations) (hnodup : locations.Nodup) :
    (locations.filter (· ≠ s.nodeId)).countP (s.acknowledgedBy message) =
      successes (versionJobs s.durable.store message.base.blockId) := by
  rw [← h.targets.countP_eq, List.countP_map]
  refine List.countP_congr fun job hjob => ?_
  have htargets := h.targets.nodup_iff.mpr (hnodup.filter _)
  obtain ⟨hlist, hblock, -⟩ := mem_versionJobs.mp hjob
  rw [Function.comp_apply, decide_eq_true_iff]
  unfold acknowledgedBy
  rw [List.any_eq_true]
  constructor
  · rintro ⟨job', hjob', hboth⟩
    obtain ⟨hblock', hversion', htarget', hstatus'⟩ := of_decide_eq_true hboth
    have hnewest' : job' ∈ versionJobs s.durable.store message.base.blockId := by
      refine mem_versionJobs.mpr ⟨hjob', hblock', fun row hrow hrowBlock => ?_⟩
      rw [hversion', ← (h.newest job hjob).1]
      exact (mem_versionJobs.mp hjob).2.2 row hrow hrowBlock
    rw [List.inj_on_of_nodup_map htargets hjob hnewest' htarget'.symm]
    exact hstatus'
  · intro hstatus
    exact ⟨job, hlist, decide_eq_true ⟨hblock, (h.newest job hjob).1, rfl, hstatus⟩⟩

/-- A call with replicas agrees with what is computed from its jobs, at once and after retries. -/
theorem statesAgree_of_replicas {o : Delivery} (hnodup : locations.Nodup)
    (hmem : s.nodeId ∈ locations) (hreplica : locations.filter (· ≠ s.nodeId) ≠ [])
    (holder : ∀ job ∈ s.durable.store.listAllJobs, job.blockId = message.base.blockId →
      job.version < message.base.version)
    (hcall : s.replicate message locations o = some s') : StatesAgree s s' message locations o := by
  have hguard := guard_of_replicate hcall
  rw [replicate_of_replicas o hmem hreplica hguard] at hcall
  obtain ⟨⟨store, jobs⟩, hjobs, rfl⟩ := Option.map_eq_some_iff.mp hcall
  have htracks := tracks_sendReplications hnodup hmem hreplica holder hjobs
  have hsame : (s.sendReplications message locations o store jobs).nodeId = s.nodeId ∧
      (s.sendReplications message locations o store jobs).consistency = s.consistency :=
    nodeId_sendReplications s o jobs
  refine ⟨htracks.update hnodup (by rwa [hsame.1]), fun answers => ?_⟩
  obtain ⟨ht, hnodeId, hconsistency⟩ := htracks.cycles answers hnodup (by rwa [hsame.1])
  rw [hsame.1] at hnodeId
  rw [hsame.2] at hconsistency
  generalize answers.foldl retryFailedReplications (s.sendReplications message locations o store jobs)
    = t at ht hnodeId hconsistency
  have hagain : createJobs (o.acknowledged (t.acknowledgedBy message)).ids message s.nodeId
      (locations.filter (· ≠ s.nodeId)) s.durable.store = some (store, jobs) := hjobs
  rw [replicate_of_replicas _ hmem hreplica hguard, hagain, Option.map_some, Option.map_some,
    (sendReplications_spec hnodup hmem hreplica hagain).2, ht.tracked, hconsistency]
  -- the targets that acknowledge are those that have succeeded
  obtain ⟨hnew, -⟩ := createJobs_eq_some hjobs
  have hcount : jobs.countP (succeeds s.nodeId (o.acknowledged (t.acknowledgedBy message)).answer) =
      successes (versionJobs t.durable.store message.base.blockId) := by
    rw [← ht.countP_acknowledgedBy hnodup, hnodeId, hnew, List.countP_map]
    refine List.countP_congr fun target _ => ?_
    rw [Function.comp_apply]
    unfold succeeds newJob
    rw [← hguard.1, message_of_message]
    rfl
  have hlength : jobs.length = (versionJobs t.durable.store message.base.blockId).length := by
    have htargets := ht.targets.length_eq
    rw [List.length_map] at htargets
    rw [htargets, hnodeId, hnew, List.length_map]
  rw [hcount, hlength]

/-! ## A call without replicas -/

/-- Jobs that have all succeeded give a block that is replicated, on whatever nodes they are. -/
theorem stateFromJobs_of_success {jobs : List ReplicationJob} {consistency : ConsistencyLevel}
    {nodeId : String} (h : ∀ job ∈ jobs, job.status = .success) :
    stateFromJobs consistency nodeId jobs = .replicated := by
  have hsuccesses : successes jobs = jobs.length :=
    List.countP_eq_length.mpr fun job hjob => decide_eq_true (h job hjob)
  have hcard : (nodeId :: jobs.map ReplicationJob.targetNode).toFinset.card ≤ jobs.length + 1 := by
    refine (List.toFinset_card_le _).trans ?_
    rw [List.length_cons, List.length_map]
  have hpos : 0 < (nodeId :: jobs.map ReplicationJob.targetNode).toFinset.card :=
    Finset.card_pos.mpr ⟨nodeId, List.mem_toFinset.mpr List.mem_cons_self⟩
  have hsatisfied : isQuorumSatisfied (jobs.length + 1) (requiredAcks
      (nodeId :: jobs.map ReplicationJob.targetNode).toFinset.card consistency) = true := by
    apply decide_eq_true
    cases consistency with
    | one => exact Nat.le_add_left 1 _
    | quorum =>
        rw [requiredAcks_quorum]
        omega
    | all => exact hcard
  unfold stateFromJobs
  simp only [hsuccesses, hsatisfied, if_true, lt_irrefl, if_false]

/-- A job that has not succeeded gives a block that is not replicated. -/
theorem stateFromJobs_ne_replicated {jobs : List ReplicationJob} {consistency : ConsistencyLevel}
    {nodeId : String} {job : ReplicationJob} (hjob : job ∈ jobs) (hstatus : job.status ≠ .success) :
    stateFromJobs consistency nodeId jobs ≠ .replicated := by
  have hlt : successes jobs < jobs.length :=
    List.countP_lt_length_iff.mpr ⟨job, hjob, decide_eq_false hstatus⟩
  unfold stateFromJobs
  simp only [hlt, if_true]
  split <;> nofun

/-- A state that no update changes: the block is not tracked, or its newest jobs have all succeeded
and it is tracked as replicated. -/
def Settled (s : ReplicationService) (b : String) : Prop :=
  s.replicaManager.getReplicaState b = none ∨
    (∀ job ∈ versionJobs s.durable.store b, job.status = .success) ∧
      ∀ tracked, s.replicaManager.getReplicaState b = some tracked → tracked.state = .replicated

theorem Settled.update (h : s.Settled b) (b' : String) :
    (s.updateBlockStateFromJobs b').replicaManager.getReplicaState b =
      s.replicaManager.getReplicaState b := by
  by_cases hblock : b = b'
  swap
  · exact getReplicaState_update_of_ne hblock
  subst hblock
  unfold updateBlockStateFromJobs
  split
  · rfl
  · rename_i job jobs hjobs
    rw [getReplicaState_mark]
    rcases h with hnone | ⟨hsuccess, hreplicated⟩
    · rw [hnone]
      rfl
    · rw [hjobs] at hsuccess
      rw [stateFromJobs_of_success hsuccess]
      rcases htracked : s.replicaManager.getReplicaState b with _ | tracked
      · rfl
      · have hstate := hreplicated tracked htracked
        rw [Option.map_some, if_pos rfl, ← hstate]

/-- A cycle leaves a settled block as it is. -/
theorem Settled.retryFailedReplications (answer : ReplicationJob → Reply) (h : s.Settled b) :
    (s.retryFailedReplications answer).Settled b ∧
      (s.retryFailedReplications answer).replicaManager.getReplicaState b =
        s.replicaManager.getReplicaState b := by
  rcases h with hnone | ⟨hsuccess, hreplicated⟩
  · have hstep := retry_induction (s := s) answer
      (I := fun t => t.replicaManager.getReplicaState b = none) (Q := fun _ => True)
      (fun _ _ _ => trivial) (fun t job ht _ _ => ?_) hnone
    · exact ⟨Or.inl hstep, hstep.trans hnone.symm⟩
    · have hsettled : Settled { t with durable := t.durable.executeJob t.nodeId answer job } b :=
        Or.inl ht
      exact (hsettled.update job.blockId).trans ht
  · have hstep := retry_induction (s := s) answer
      (I := fun t => versionJobs t.durable.store b = versionJobs s.durable.store b ∧
        t.replicaManager.getReplicaState b = s.replicaManager.getReplicaState b)
      (Q := fun job => ∀ row ∈ versionJobs s.durable.store b, row.jobId ≠ job.jobId) ?_ ?_ ⟨rfl, rfl⟩
    · refine ⟨Or.inr ⟨?_, ?_⟩, hstep.2⟩
      · rw [hstep.1]
        exact hsuccess
      · rw [hstep.2]
        exact hreplicated
    · -- a job that is retried has not succeeded
      intro job hstored hstatus row hrow hid
      have hrowStored := ReplicationJobStore.mem_listAllJobs.mp (mem_versionJobs.mp hrow).1
      rw [hid] at hrowStored
      obtain rfl := Option.some.inj (hrowStored.symm.trans hstored)
      rcases hstatus with hstatus | hstatus <;> rw [hsuccess row hrow] at hstatus <;> cases hstatus
    · intro t job ht hother _
      have hjobs : versionJobs (t.durable.executeJob t.nodeId answer job).store b =
          versionJobs s.durable.store b := by
        rw [versionJobs_executeJob, ht.1]
        exact (List.map_congr_left fun row hrow => if_neg (hother row hrow)).trans (List.map_id _)
      have hsettled : Settled { t with durable := t.durable.executeJob t.nodeId answer job } b := by
        refine Or.inr ⟨?_, ?_⟩
        · rw [hjobs]
          exact hsuccess
        · intro tracked htracked
          exact hreplicated tracked (ht.2.symm.trans htracked)
      unfold retryJob
      rw [durable_update]
      exact ⟨hjobs, (hsettled.update job.blockId).trans ht.2⟩

theorem Settled.cycles (answers : List (ReplicationJob → Reply)) (h : s.Settled b) :
    (answers.foldl ReplicationService.retryFailedReplications s).replicaManager.getReplicaState b =
      s.replicaManager.getReplicaState b := by
  induction answers generalizing s with
  | nil => rfl
  | cons answer answers ih =>
      obtain ⟨hsettled, hsame⟩ := h.retryFailedReplications answer
      exact (ih hsettled).trans hsame

/-- What a call without replicas is. -/
theorem replicate_of_local (o : Delivery) (hmem : s.nodeId ∈ locations)
    (hlocal : locations.filter (· ≠ s.nodeId) = [])
    (hguard : message.base.originNodeId = s.nodeId ∧ Bindable message.base.version ∧
      Bindable message.base.lsn) :
    s.replicate message locations o = some { s with
      replicaManager := (if message.isDelete then s.replicaManager else
        s.replicaManager.markPending message.base.blockId message.base.version
          locations).markReplicated message.base.blockId } := by
  unfold replicate
  rw [if_neg (not_not.mpr hguard), if_neg (not_not.mpr hmem), if_pos hlocal]

/-- A call without replicas leaves the jobs, and tracks the block as replicated, if it tracks it. -/
theorem replicate_local_spec {s s' : ReplicationService} {message : ReplicaMessage}
    {locations : List String} {o : Delivery} (hmem : s.nodeId ∈ locations)
    (hlocal : locations.filter (· ≠ s.nodeId) = [])
    (hcall : s.replicate message locations o = some s') :
    s'.durable = s.durable ∧
      (∀ tracked, s'.replicaManager.getReplicaState message.base.blockId = some tracked →
        tracked.state = .replicated) ∧
      (s'.replicaManager.getReplicaState message.base.blockId = none ↔ message.isDelete = true ∧
        s.replicaManager.getReplicaState message.base.blockId = none) := by
  rw [replicate_of_local o hmem hlocal (guard_of_replicate hcall)] at hcall
  obtain rfl := Option.some.inj hcall
  refine ⟨rfl, fun tracked htracked => ?_, ?_⟩
  · rw [ReplicaManager.markReplicated, getReplicaState_mark] at htracked
    obtain ⟨before, -, rfl⟩ := Option.map_eq_some_iff.mp htracked
    rw [if_pos rfl]
  · rw [ReplicaManager.markReplicated, getReplicaState_mark, Option.map_eq_none_iff]
    by_cases hdelete : message.isDelete = true
    · rw [if_pos hdelete]
      exact ⟨fun h => ⟨hdelete, h⟩, fun h => h.2⟩
    · rw [if_neg hdelete]
      refine iff_of_false (fun h => ?_) fun h => hdelete h.1
      have hpending : (s.replicaManager.markPending message.base.blockId message.base.version
          locations).getReplicaState message.base.blockId =
            some ⟨message.base.blockId, message.base.version, locations, .pending⟩ :=
        Dict.get?_set_self
      rw [hpending] at h
      cases h

/-- A block that is tracked as replicated does not agree with jobs of which one did not succeed. -/
theorem update_ne_self {s : ReplicationService} {b : String} {tracked : BlockReplicationState}
    {job : ReplicationJob} (hjob : job ∈ versionJobs s.durable.store b) (hstatus : job.status ≠ .success)
    (htracked : s.replicaManager.getReplicaState b = some tracked)
    (hstate : tracked.state = .replicated) :
    (s.updateBlockStateFromJobs b).replicaManager.getReplicaState b ≠
      s.replicaManager.getReplicaState b := by
  intro hnow
  unfold updateBlockStateFromJobs at hnow
  split at hnow
  · rename_i hnil
    rw [hnil] at hjob
    cases hjob
  · rename_i job' jobs hjobs
    rw [hjobs] at hjob
    rw [getReplicaState_mark, htracked, Option.map_some, if_pos rfl] at hnow
    have heq := congrArg BlockReplicationState.state (Option.some.inj hnow)
    exact stateFromJobs_ne_replicated hjob hstatus (heq.trans hstate)

/-! ## The statement proved -/

/-- A call agrees with what is computed from the jobs, at once and after retries, just when it has a
replica to send to or leaves no unsuccessful jobs of an older version the newest. -/
theorem statesAgree_iff {s s' : ReplicationService} {message : ReplicaMessage}
    {locations : List String} {o : Delivery} (hnodup : locations.Nodup)
    (hmem : s.nodeId ∈ locations)
    (holder : ∀ job ∈ s.durable.store.listAllJobs, job.blockId = message.base.blockId →
      job.version < message.base.version)
    (hcall : s.replicate message locations o = some s') :
    StatesAgree s s' message locations o ↔ s.Superseded message locations := by
  by_cases hreplica : locations.filter (· ≠ s.nodeId) = []
  swap
  · refine iff_of_true (statesAgree_of_replicas hnodup hmem hreplica holder hcall) (Or.inl ?_)
    obtain ⟨n, hn⟩ := List.exists_mem_of_ne_nil _ hreplica
    obtain ⟨hn, hne⟩ := List.mem_filter.mp hn
    exact ⟨n, hn, of_decide_eq_true hne⟩
  have hguard := guard_of_replicate hcall
  have hany : ∀ o', s.replicate message locations o' = some s' := fun o' =>
    (replicate_of_local o' hmem hreplica hguard).trans
      ((replicate_of_local o hmem hreplica hguard).symm.trans hcall)
  obtain ⟨hstore, hreplicated, huntracked⟩ := replicate_local_spec hmem hreplica hcall
  constructor
  · intro hagree
    by_contra hno
    unfold Superseded at hno
    push Not at hno
    obtain ⟨-, ⟨job, hjob, hstatus⟩, htracked⟩ := hno
    obtain ⟨tracked, htracked⟩ := Option.ne_none_iff_exists'.mp
      (mt huntracked.mp fun h => htracked h.1 h.2)
    rw [← hstore] at hjob
    exact update_ne_self hjob hstatus htracked (hreplicated tracked htracked) hagree.now
  · intro hsuperseded
    have hsettled : s'.Settled message.base.blockId := by
      rcases hsuperseded with ⟨n, hn, hne⟩ | hsuccess | huntracked'
      · have hmem' : n ∈ locations.filter (· ≠ s.nodeId) :=
          List.mem_filter.mpr ⟨hn, decide_eq_true hne⟩
        rw [hreplica] at hmem'
        cases hmem'
      · exact Or.inr ⟨by rwa [hstore], hreplicated⟩
      · exact Or.inl (huntracked.mpr huntracked')
    refine ⟨hsettled.update _, fun answers => ?_⟩
    rw [hany, Option.map_some, hsettled.cycles answers]

/-- A primary that has replicated nothing yet. -/
def fresh : ReplicationService := ⟨"node1", .quorum, ⟨.empty, []⟩, Dict.empty⟩

/-- No replica accepts. -/
def refused : Delivery := ⟨fun target => target, fun _ => ⟨false, false, id⟩, fun _ => 0, false⟩

/-- A first write that its replica refuses. -/
theorem statesAgree_iff_refused :
    ∃ s', fresh.replicate firstWrite ["node1", "node2"] refused = some s' ∧
      (StatesAgree fresh s' firstWrite ["node1", "node2"] refused ↔
        fresh.Superseded firstWrite ["node1", "node2"]) := by
  have hcall : (fresh.replicate firstWrite ["node1", "node2"] refused).isSome = true := by
    decide +kernel
  obtain ⟨s', hs'⟩ := Option.isSome_iff_exists.mp hcall
  exact ⟨s', hs', statesAgree_iff (by decide) (by decide) nofun hs'⟩

theorem secondWrite_version : (1 : ℤ) ≤ 2 := by decide

/-- The next version of the block. -/
def secondWrite : ReplicaMessage :=
  .write ⟨⟨"invoice-1", 2, 2, "node1", firstWrite_blockId, secondWrite_version, secondWrite_version,
    firstWrite_nodeId⟩, "bye"⟩

/-- What is tracked after the second write, whose placement has lost the replica, and what is computed
from the job of the first one. -/
theorem replicated_or_failed :
    (fresh.replicate firstWrite ["node1", "node2"] refused).map (fun s =>
      (s.nodeId, s.durable.store.listAllJobs.map ReplicationJob.version,
        (s.replicate secondWrite ["node1"] refused).map fun s' =>
          (s'.replicaManager.getReplicaState "invoice-1",
            (s'.updateBlockStateFromJobs "invoice-1").replicaManager.getReplicaState
              "invoice-1"))) =
      some ("node1", [1], some (some ⟨"invoice-1", 2, ["node1"], .replicated⟩,
        some ⟨"invoice-1", 2, ["node1"], .failed⟩)) := by
  decide +kernel

/-- A block without replicas is replicated, and failed for the job of its version before. -/
theorem statesAgree_counterexample : ¬ ∀ (s s' : ReplicationService) (message : ReplicaMessage)
    (locations : List String) (o : Delivery), locations.Nodup → s.nodeId ∈ locations →
    (∀ job ∈ s.durable.store.listAllJobs, job.blockId = message.base.blockId →
      job.version < message.base.version) →
    s.replicate message locations o = some s' → StatesAgree s s' message locations o := by
  intro h
  obtain ⟨s, -, hs⟩ := Option.map_eq_some_iff.mp replicated_or_failed
  simp only [Prod.mk.injEq] at hs
  obtain ⟨hnodeId, hversions, hnext⟩ := hs
  obtain ⟨s', hcall, hstates⟩ := Option.map_eq_some_iff.mp hnext
  obtain ⟨htracked, hcomputed⟩ := Prod.mk.inj hstates
  have hagree := h s s' secondWrite ["node1"] refused (List.nodup_singleton _)
    (List.mem_singleton.mpr hnodeId) (fun job hjob _ => ?_) hcall
  · have hnow := hcomputed.symm.trans (hagree.now.trans htracked)
    cases hnow
  · have hversion : job.version ∈ s.durable.store.listAllJobs.map ReplicationJob.version :=
      List.mem_map_of_mem hjob
    rw [hversions] at hversion
    rw [List.mem_singleton.mp hversion]
    decide

end ReplicationService

end NanoFabric.Replication
