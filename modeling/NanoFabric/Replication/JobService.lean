import NanoFabric.Found.Dict
import NanoFabric.Found.Runs
import NanoFabric.Replication.ReplicaMessage

/-!
# Replication jobs

The job store of a primary (`node/replication_job_store.py`) and the calls and retry cycles of
`node/replication_service.py` that work on it. A call creates the job of each replica and then runs a
thread for each; a retry cycle is one thread for the jobs that it lists. An event is one statement of a
thread that the store or a replica sees, so that a crash may come between any two of them.

* `getJob_updateJobStatus`, `createJob_eq_some` — what the calls of the store leave.
* `Durable.Sound` — what holds of the store whatever is interrupted: a job that succeeded was
  accepted, and what was accepted has a job.
* `sound_of_run` — every run keeps it.
-/

namespace NanoFabric.Replication

open NanoFabric.Found
open NanoFabric.Node (Bindable)
open NanoFabric.Storage

/-! ## Jobs -/

/-- Source: `node/replication_models.py`, `JobStatus`. -/
inductive JobStatus
  | pending
  | inProgress
  | success
  | failed
deriving DecidableEq, Repr

/-- Source: `node/replication_models.py`, `ReplicationJob`. -/
structure ReplicationJob where
  jobId : String
  blockId : String
  version : ℤ
  primaryNode : String
  targetNode : String
  status : JobStatus
  attemptCount : ℕ
  isDelete : Bool
  data : Option String
  lsn : ℤ
deriving DecidableEq, Repr

/-- The request of a job.
Source: `node/replication_service.py`, `_execute_write_job`, `_execute_delete_job`. -/
def ReplicationJob.message (job : ReplicationJob) (nodeId : String) : Option ReplicaMessage :=
  ReplicaMessage.build job.isDelete
    ⟨job.blockId, some (job.data.getD ""), job.version, some job.lsn, some nodeId⟩

/-- What of a job no update changes. -/
def ReplicationJob.identity (job : ReplicationJob) : ReplicationJob :=
  { job with status := .pending, attemptCount := 0 }

/-! ## The job store -/

/-- Source: `node/replication_job_store.py`, `ReplicationJobStore`. -/
abbrev ReplicationJobStore := Table fun (jobId : String) (job : ReplicationJob) => job.jobId = jobId

namespace ReplicationJobStore

/-- Source: `node/replication_job_store.py`, `get_job`. -/
def getJob (s : ReplicationJobStore) (jobId : String) : Option ReplicationJob := s.rows.get? jobId

/-- A job gets a fresh id.
Source: `node/replication_job_store.py`, `create_job`. -/
def createJob (s : ReplicationJobStore) (jobId : String) (message : ReplicaMessage)
    (primaryNode targetNode : String) : Option (ReplicationJobStore × ReplicationJob) :=
  if (s.getJob jobId).isSome then none
  else
    let job : ReplicationJob := ⟨jobId, message.base.blockId, message.base.version, primaryNode,
      targetNode, .pending, 0, message.isDelete, message.data, message.base.lsn⟩
    some (Table.set s jobId job rfl, job)

/-- The row of a job after an update. -/
def updated (job : ReplicationJob) (status : JobStatus) (incrementAttempt : Bool) : ReplicationJob :=
  { job with
    status
    attemptCount := if incrementAttempt then job.attemptCount + 1 else job.attemptCount }

/-- Source: `node/replication_job_store.py`, `update_job_status`. -/
def updateJobStatus (s : ReplicationJobStore) (jobId : String) (status : JobStatus)
    (incrementAttempt : Bool) : ReplicationJobStore :=
  match hjob : s.getJob jobId with
  | none => s
  | some job => Table.set s jobId (updated job status incrementAttempt) (s.checked jobId job hjob)

/-- The jobs in the order in which they were created.
Source: `node/replication_job_store.py`, `list_pending_and_failed`. -/
def listPendingAndFailed (s : ReplicationJobStore) : List ReplicationJob :=
  s.rows.values.filter fun job => job.status ∈ [.pending, .failed]

end ReplicationJobStore

/-! ## What outlives a crash of the primary -/

/-- The job store, and what the replicas have accepted. -/
structure Durable where
  store : ReplicationJobStore
  delivered : List (String × ReplicaMessage)

/-- What becomes of a request: whether the replica accepts it, and whether the primary hears so. -/
structure Reply where
  accepted : Bool
  answered : Bool
  heard : answered = true → accepted = true

namespace Durable

/-- Source: `node/replication_service.py`, `_execute_write_job`, `_execute_delete_job`. -/
def beginJob (d : Durable) (job : ReplicationJob) : Durable :=
  { d with store := d.store.updateJobStatus job.jobId .inProgress true }

/-- The request of a job, and whether it comes back without an error.
Source: `node/replication_service.py`, `_execute_write_job`, `_execute_delete_job`. -/
def post (nodeId : String) (d : Durable) (job : ReplicationJob) (reply : Reply) : Durable × Bool :=
  match job.message nodeId with
  | none => (d, false)
  | some message =>
      (if reply.accepted then { d with delivered := (job.targetNode, message) :: d.delivered } else d,
        reply.answered)

/-- Source: `node/replication_service.py`, `_execute_write_job`, `_execute_delete_job`. -/
def finishJob (d : Durable) (job : ReplicationJob) (success : Bool) : Durable :=
  { d with
    store := d.store.updateJobStatus job.jobId (if success then .success else .failed) false }

/-- Source: `node/replication_service.py`, `_execute_write_job`, `_execute_delete_job`. -/
def executeJob (nodeId : String) (answer : ReplicationJob → Reply) (d : Durable)
    (job : ReplicationJob) : Durable :=
  let (d', success) := (d.beginJob job).post nodeId job (answer job)
  d'.finishJob job success

/-- The jobs that a cycle attempts.
Source: `node/replication_service.py`, `retry_failed_replications`. -/
def retried (nodeId : String) (d : Durable) : List ReplicationJob :=
  d.store.listPendingAndFailed.filter fun job => job.primaryNode = nodeId

/-- A cycle that is not interrupted.
Source: `node/replication_service.py`, `recover_pending_jobs`, `retry_failed_replications`. -/
def recoverPendingJobs (nodeId : String) (answer : ReplicationJob → Reply) (d : Durable) : Durable :=
  (d.retried nodeId).foldl (executeJob nodeId answer) d

end Durable

/-! ## The primary -/

/-- Where a thread is with its first job. -/
inductive Stage
  | queued
  | sending
  | answered (success : Bool)
deriving DecidableEq, Repr

/-- A thread with the jobs that it has left to execute. -/
structure Thread where
  jobs : List ReplicationJob
  stage : Stage

/-- A call that creates its jobs, with the targets that are left.
Source: `node/replication_service.py`, `_create_jobs`. -/
structure Creation where
  message : ReplicaMessage
  targets : List String
  jobs : List ReplicationJob

/-- A primary with the calls and cycles that are under way, and the calls it has started so far. -/
structure Replicator where
  nodeId : String
  durable : Durable
  creations : List Creation
  threads : List Thread
  started : List (ReplicaMessage × List String)

/-- A primary without jobs. -/
def Replicator.init (nodeId : String) : Replicator := ⟨nodeId, ⟨.empty, []⟩, [], [], []⟩

inductive JobEvent
  | replicate (message : ReplicaMessage) (replicas : List String)
  | create (i : ℕ) (jobId : String)
  | launch (i : ℕ)
  | retry
  | begin (i : ℕ)
  | post (i : ℕ) (reply : Reply)
  | finish (i : ℕ)
  | crash

namespace Replicator

/-- One step of a call, a thread or a cycle, or a crash of the process. A call replicates what the
engine has stored, so that its numbers fit into the columns.
Source: `node/replication_service.py`, `replicate_write`, `replicate_delete`, `_create_jobs`,
`_parallel_execute`, `retry_failed_replications`. -/
def step (s : Replicator) : JobEvent → Option Replicator
  | .replicate message replicas =>
      if message.base.originNodeId = s.nodeId ∧ Bindable message.base.version ∧
          Bindable message.base.lsn then
        some { s with
          creations := s.creations ++ [⟨message, replicas, []⟩]
          started := (message, replicas) :: s.started }
      else none
  | .create i jobId =>
      match s.creations[i]? with
      | some ⟨message, target :: targets, jobs⟩ =>
          (s.durable.store.createJob jobId message s.nodeId target).map fun (store, job) =>
            { s with
              durable := { s.durable with store }
              creations := s.creations.set i ⟨message, targets, jobs ++ [job]⟩ }
      | _ => none
  | .launch i =>
      match s.creations[i]? with
      | some ⟨_, [], jobs⟩ =>
          some { s with
            creations := s.creations.eraseIdx i
            threads := s.threads ++ jobs.map fun job => ⟨[job], .queued⟩ }
      | _ => none
  | .retry =>
      some { s with threads := s.threads ++ [⟨s.durable.retried s.nodeId, .queued⟩] }
  | .begin i =>
      match s.threads[i]? with
      | some ⟨job :: jobs, .queued⟩ =>
          some { s with
            durable := s.durable.beginJob job
            threads := s.threads.set i ⟨job :: jobs, .sending⟩ }
      | _ => none
  | .post i reply =>
      match s.threads[i]? with
      | some ⟨job :: jobs, .sending⟩ =>
          let (durable, success) := s.durable.post s.nodeId job reply
          some { s with durable, threads := s.threads.set i ⟨job :: jobs, .answered success⟩ }
      | _ => none
  | .finish i =>
      match s.threads[i]? with
      | some ⟨job :: jobs, .answered success⟩ =>
          some { s with
            durable := s.durable.finishJob job success
            threads := s.threads.set i ⟨jobs, .queued⟩ }
      | _ => none
  | .crash => some { s with creations := [], threads := [] }

end Replicator

/-! ## What the calls of the store leave -/

namespace ReplicationJobStore

variable {s s' : ReplicationJobStore} {job : ReplicationJob} {jobId : String}

theorem jobId_of_getJob (h : s.getJob jobId = some job) : job.jobId = jobId := s.checked jobId job h

theorem getJob_updateJobStatus (status : JobStatus) (inc : Bool) (jobId' : String) :
    (s.updateJobStatus jobId status inc).getJob jobId' =
      (s.getJob jobId').map fun job => if jobId' = jobId then updated job status inc else job := by
  unfold updateJobStatus
  split
  · rename_i hnone
    by_cases hid : jobId' = jobId
    · rw [hid, hnone]
      rfl
    · simp only [if_neg hid, Option.map_id']
  · rename_i job hjob
    unfold getJob at hjob ⊢
    simp only [Table.set, Dict.get?_set]
    by_cases hid : jobId' = jobId
    · rw [if_pos hid, hid, hjob, Option.map_some, if_pos rfl]
    · simp only [if_neg hid, Option.map_id']

theorem createJob_eq_some {message : ReplicaMessage} {primary target : String}
    (h : s.createJob jobId message primary target = some (s', job)) :
    s.getJob jobId = none ∧
      job = ⟨jobId, message.base.blockId, message.base.version, primary, target, .pending, 0,
        message.isDelete, message.data, message.base.lsn⟩ ∧
      ∀ jobId', s'.getJob jobId' = if jobId' = jobId then some job else s.getJob jobId' := by
  unfold createJob at h
  split_ifs at h with hfresh
  obtain ⟨rfl, rfl⟩ := Prod.mk.inj (Option.some.inj h)
  exact ⟨Option.not_isSome_iff_eq_none.mp hfresh, rfl, fun jobId' => Dict.get?_set⟩

theorem mem_listPendingAndFailed : job ∈ s.listPendingAndFailed ↔
    s.getJob job.jobId = some job ∧ (job.status = .pending ∨ job.status = .failed) := by
  unfold listPendingAndFailed
  rw [List.mem_filter, Dict.mem_values, decide_eq_true_iff, List.mem_cons, List.mem_singleton]
  apply and_congr_left'
  constructor
  · rintro ⟨jobId, hjob⟩
    rwa [jobId_of_getJob hjob]
  · exact fun hjob => ⟨_, hjob⟩

end ReplicationJobStore

variable {nodeId jobId : String} {job row : ReplicationJob} {message : ReplicaMessage}

/-- The job of a message sends that message. -/
theorem message_of_message (status : JobStatus) (n : ℕ) (primary target : String) :
    ReplicationJob.message ⟨jobId, message.base.blockId, message.base.version, primary, target,
      status, n, message.isDelete, message.data, message.base.lsn⟩ message.base.originNodeId =
        some message :=
  ReplicaMessage.build_eq_some message

/-! ## What holds whatever is interrupted -/

namespace Durable

/-- Whose the jobs are, and how they and the replicas agree. -/
structure Sound (nodeId : String) (d : Durable) : Prop where
  /-- The jobs are the primary's, and their requests can be built. -/
  owned : ∀ jobId job, d.store.getJob jobId = some job →
    job.primaryNode = nodeId ∧ (job.message nodeId).isSome
  /-- What a job that succeeded sent was accepted. -/
  acked : ∀ jobId job message, d.store.getJob jobId = some job → job.status = .success →
    job.message nodeId = some message → (job.targetNode, message) ∈ d.delivered
  /-- What was accepted has a job. -/
  sourced : ∀ target message, (target, message) ∈ d.delivered →
    ∃ jobId job, d.store.getJob jobId = some job ∧ job.targetNode = target ∧
      job.message nodeId = some message

/-- The store has a row of the job, whatever its status. -/
def Listed (d : Durable) (job : ReplicationJob) : Prop :=
  ∃ row, d.store.getJob job.jobId = some row ∧ row.identity = job.identity

variable {d d' : Durable} {reply : Reply}

/-- No call takes a job away or changes what it is about, and what was accepted stays so. -/
structure Keeps (d d' : Durable) : Prop where
  jobs : ∀ jobId job, d.store.getJob jobId = some job →
    ∃ job', d'.store.getJob jobId = some job' ∧ job'.identity = job.identity
  delivered : d.delivered ⊆ d'.delivered

theorem Keeps.refl (d : Durable) : d.Keeps d := ⟨fun _ job h => ⟨job, h, rfl⟩, fun _ h => h⟩

theorem Keeps.trans {d'' : Durable} (h : d.Keeps d') (h' : d'.Keeps d'') : d.Keeps d'' := by
  refine ⟨fun jobId job hjob => ?_, fun _ hx => h'.delivered (h.delivered hx)⟩
  obtain ⟨job', hjob', hsame⟩ := h.jobs jobId job hjob
  obtain ⟨job'', hjob'', hsame'⟩ := h'.jobs jobId job' hjob'
  exact ⟨job'', hjob'', hsame'.trans hsame⟩

theorem Keeps.listed (h : d.Keeps d') (hjob : d.Listed job) : d'.Listed job := by
  obtain ⟨row, hrow, hsame⟩ := hjob
  obtain ⟨row', hrow', hsame'⟩ := h.jobs _ row hrow
  exact ⟨row', hrow', hsame'.trans hsame⟩

theorem message_of_identity (nodeId : String) (h : row.identity = job.identity) :
    row.message nodeId = job.message nodeId ∧ row.targetNode = job.targetNode ∧
      row.primaryNode = job.primaryNode := by
  have hmessage : row.identity.message nodeId = job.identity.message nodeId := by rw [h]
  have htarget : row.identity.targetNode = job.identity.targetNode := by rw [h]
  have hprimary : row.identity.primaryNode = job.identity.primaryNode := by rw [h]
  exact ⟨hmessage, htarget, hprimary⟩

/-- An update of the status of a job. -/
theorem keeps_update (d : Durable) (jobId : String) (status : JobStatus) (inc : Bool) :
    d.Keeps { d with store := d.store.updateJobStatus jobId status inc } := by
  refine ⟨fun jobId' job hjob => ?_, fun _ h => h⟩
  rw [ReplicationJobStore.getJob_updateJobStatus, hjob]
  refine ⟨_, rfl, ?_⟩
  split <;> rfl

/-- An update keeps the store sound when success is only noted of what was accepted. -/
theorem Sound.update {status : JobStatus} {inc : Bool} (h : d.Sound nodeId)
    (hok : status = .success → ∀ row message, d.store.getJob jobId = some row →
      row.message nodeId = some message → (row.targetNode, message) ∈ d.delivered) :
    Sound nodeId { d with store := d.store.updateJobStatus jobId status inc } := by
  constructor
  · intro jobId' job hjob
    rw [ReplicationJobStore.getJob_updateJobStatus, Option.map_eq_some_iff] at hjob
    obtain ⟨row, hrow, rfl⟩ := hjob
    split <;> exact h.owned jobId' row hrow
  · intro jobId' job message hjob hstatus hmessage
    rw [ReplicationJobStore.getJob_updateJobStatus, Option.map_eq_some_iff] at hjob
    obtain ⟨row, hrow, rfl⟩ := hjob
    split at hstatus
    · rename_i hid
      rw [if_pos hid] at hmessage ⊢
      exact hok hstatus row message (hid ▸ hrow) hmessage
    · rename_i hid
      rw [if_neg hid] at hmessage ⊢
      exact h.acked jobId' row message hrow hstatus hmessage
  · intro target message hmem
    obtain ⟨jobId', job, hjob, htarget, hmessage⟩ := h.sourced target message hmem
    obtain ⟨job', hjob', hsame⟩ := (keeps_update d jobId status inc).jobs jobId' job hjob
    obtain ⟨hmessage', htarget', -⟩ := message_of_identity nodeId hsame
    exact ⟨jobId', job', hjob', htarget'.trans htarget, hmessage'.trans hmessage⟩

theorem Sound.beginJob (h : d.Sound nodeId) : (d.beginJob job).Sound nodeId :=
  h.update nofun

theorem keeps_beginJob (d : Durable) (job : ReplicationJob) : d.Keeps (d.beginJob job) :=
  keeps_update d _ _ _

theorem store_post : (post nodeId d job reply).1.store = d.store := by
  unfold post
  split
  · rfl
  · simp only
    split <;> rfl

theorem keeps_post (nodeId : String) (d : Durable) (job : ReplicationJob) (reply : Reply) :
    d.Keeps (post nodeId d job reply).1 := by
  refine ⟨fun jobId job hjob => ⟨job, by rwa [store_post], rfl⟩, ?_⟩
  unfold post
  split
  · exact fun _ h => h
  · simp only
    split
    · exact List.subset_cons_self _ _
    · exact fun _ h => h

/-- A request that comes back without an error was accepted. -/
theorem delivered_of_post (h : (post nodeId d job reply).2 = true) :
    ∃ message, job.message nodeId = some message ∧
      (job.targetNode, message) ∈ (post nodeId d job reply).1.delivered := by
  unfold post at h ⊢
  split at h
  · cases h
  · rename_i message hmessage
    refine ⟨message, hmessage, ?_⟩
    simp only [reply.heard h, if_true]
    exact List.mem_cons_self

theorem Sound.post (h : d.Sound nodeId) (hjob : d.Listed job) :
    (Durable.post nodeId d job reply).1.Sound nodeId := by
  have hkeeps := keeps_post nodeId d job reply
  constructor
  · intro jobId' job' hjob'
    rw [store_post] at hjob'
    exact h.owned jobId' job' hjob'
  · intro jobId' job' message hjob' hstatus hmessage
    rw [store_post] at hjob'
    exact hkeeps.delivered (h.acked jobId' job' message hjob' hstatus hmessage)
  · intro target message hmem
    rw [store_post]
    unfold Durable.post at hmem
    split at hmem
    · exact h.sourced target message hmem
    · rename_i message' hmessage'
      simp only at hmem
      split at hmem
      · rcases List.mem_cons.mp hmem with heq | hmem
        · obtain ⟨rfl, rfl⟩ := Prod.mk.inj heq
          obtain ⟨row, hrow, hsame⟩ := hjob
          obtain ⟨hmessage, htarget, -⟩ := message_of_identity nodeId hsame
          exact ⟨_, row, hrow, htarget, hmessage.trans hmessage'⟩
        · exact h.sourced target message hmem
      · exact h.sourced target message hmem

/-- A thread notes the success of a job whose request was accepted. -/
theorem Sound.finishJob {success : Bool} (h : d.Sound nodeId) (hjob : d.Listed job)
    (hok : success = true → ∃ message, job.message nodeId = some message ∧
      (job.targetNode, message) ∈ d.delivered) : (d.finishJob job success).Sound nodeId := by
  refine h.update fun hstatus row message hrow hmessage => ?_
  obtain ⟨row', hrow', hsame⟩ := hjob
  obtain rfl := Option.some.inj (hrow.symm.trans hrow')
  obtain ⟨hmessage', htarget, -⟩ := message_of_identity nodeId hsame
  cases success with
  | false => cases hstatus
  | true =>
      obtain ⟨message', hmessage'', hmem⟩ := hok rfl
      rw [htarget]
      rwa [Option.some.inj (hmessage.symm.trans (hmessage'.trans hmessage''))]

theorem keeps_finishJob (d : Durable) (job : ReplicationJob) (success : Bool) :
    d.Keeps (d.finishJob job success) := keeps_update d _ _ _

/-- A new job is pending, and no old one changes. -/
theorem Sound.createJob {s' : ReplicationJobStore} {target : String} (h : d.Sound nodeId)
    (horigin : message.base.originNodeId = nodeId)
    (hnew : d.store.createJob jobId message nodeId target = some (s', job)) :
    Sound nodeId { d with store := s' } ∧ d.Keeps { d with store := s' } ∧
      Listed { d with store := s' } job := by
  obtain ⟨hfresh, hjob, hget⟩ := ReplicationJobStore.createJob_eq_some hnew
  have hkeeps : d.Keeps { d with store := s' } := by
    refine ⟨fun jobId' row hrow => ⟨row, ?_, rfl⟩, fun _ hx => hx⟩
    rw [hget, if_neg]
    · exact hrow
    · rintro rfl
      rw [hfresh] at hrow
      cases hrow
  refine ⟨⟨?_, ?_, ?_⟩, hkeeps, job, ?_, rfl⟩
  · intro jobId' row hrow
    rw [hget] at hrow
    split_ifs at hrow
    · obtain rfl := Option.some.inj hrow
      rw [hjob, ← horigin, message_of_message]
      exact ⟨rfl, rfl⟩
    · exact h.owned jobId' row hrow
  · intro jobId' row message' hrow hstatus hmessage
    rw [hget] at hrow
    split_ifs at hrow
    · obtain rfl := Option.some.inj hrow
      rw [hjob] at hstatus
      cases hstatus
    · exact h.acked jobId' row message' hrow hstatus hmessage
  · intro target' message' hmem
    obtain ⟨jobId', row, hrow, htarget, hmessage⟩ := h.sourced target' message' hmem
    obtain ⟨row', hrow', hsame⟩ := hkeeps.jobs jobId' row hrow
    obtain ⟨hmessage', htarget', -⟩ := message_of_identity nodeId hsame
    exact ⟨jobId', row', hrow', htarget'.trans htarget, hmessage'.trans hmessage⟩
  · rw [hget, hjob]
    exact if_pos rfl

end Durable

/-! ## Runs of the primary -/

namespace Replicator

/-- The store is sound, and what the calls and the threads know of it is true. -/
structure Sound (s : Replicator) : Prop where
  durable : s.durable.Sound s.nodeId
  /-- A call replicates a message of this primary. -/
  origin : ∀ c ∈ s.creations, c.message.base.originNodeId = s.nodeId
  /-- The jobs of a call are stored. -/
  created : ∀ c ∈ s.creations, ∀ job ∈ c.jobs, s.durable.Listed job
  /-- The jobs of a thread are stored. -/
  listed : ∀ thread ∈ s.threads, ∀ job ∈ thread.jobs, s.durable.Listed job
  /-- What a thread has an answer for was accepted. -/
  answered : ∀ thread ∈ s.threads, ∀ job jobs, thread.jobs = job :: jobs →
    thread.stage = .answered true → ∃ message, job.message s.nodeId = some message ∧
      (job.targetNode, message) ∈ s.durable.delivered

variable {s s' : Replicator} {ev : JobEvent} {evs : List JobEvent}

theorem sound_init (nodeId : String) : (init nodeId).Sound := by
  have hnone : ∀ jobId job, (init nodeId).durable.store.getJob jobId ≠ some job :=
    fun _ _ h => absurd h (Option.some_ne_none _).symm
  refine ⟨⟨fun jobId job h => absurd h (hnone jobId job), fun jobId job _ h => absurd h (hnone jobId job),
    fun _ _ h => absurd h List.not_mem_nil⟩, ?_, ?_, ?_, ?_⟩
  · exact fun c hc => absurd hc List.not_mem_nil
  · exact fun c hc => absurd hc List.not_mem_nil
  · exact fun thread hthread => absurd hthread List.not_mem_nil
  · exact fun thread hthread => absurd hthread List.not_mem_nil

/-- A step of one thread keeps what the others know. -/
theorem Sound.thread {d : Durable} {i : ℕ} {thread : Thread} (h : s.Sound)
    (hsound : d.Sound s.nodeId) (hkeeps : s.durable.Keeps d)
    (hlisted : ∀ job ∈ thread.jobs, d.Listed job)
    (hanswered : ∀ job jobs, thread.jobs = job :: jobs → thread.stage = .answered true →
      ∃ message, job.message s.nodeId = some message ∧ (job.targetNode, message) ∈ d.delivered) :
    Sound { s with durable := d, threads := s.threads.set i thread } := by
  refine ⟨hsound, h.origin, fun c hc job hjob => hkeeps.listed (h.created c hc job hjob), ?_, ?_⟩
  · intro thread' hmem job hjob
    rcases List.mem_or_eq_of_mem_set hmem with hmem | rfl
    · exact hkeeps.listed (h.listed thread' hmem job hjob)
    · exact hlisted job hjob
  · intro thread' hmem job jobs hjobs hstage
    rcases List.mem_or_eq_of_mem_set hmem with hmem | rfl
    · obtain ⟨message, hmessage, hmem⟩ := h.answered thread' hmem job jobs hjobs hstage
      exact ⟨message, hmessage, hkeeps.delivered hmem⟩
    · exact hanswered job jobs hjobs hstage

/-- Every step keeps the store sound. -/
theorem Sound.step (h : s.Sound) (hstep : s.step ev = some s') : s'.Sound := by
  cases ev with
  | replicate message replicas =>
      simp only [Replicator.step] at hstep
      split_ifs at hstep with hok
      obtain rfl := Option.some.inj hstep
      refine ⟨h.durable, fun c hc => ?_, fun c hc => ?_, h.listed, h.answered⟩
      · rcases List.mem_append.mp hc with hc | hc
        · exact h.origin c hc
        · obtain rfl := List.mem_singleton.mp hc
          exact hok.1
      · rcases List.mem_append.mp hc with hc | hc
        · exact h.created c hc
        · obtain rfl := List.mem_singleton.mp hc
          exact nofun
  | create i jobId =>
      simp only [Replicator.step] at hstep
      split at hstep
      · rename_i message target targets jobs hc
        obtain ⟨⟨store, job⟩, hnew, rfl⟩ := Option.map_eq_some_iff.mp hstep
        have hmem := List.mem_of_getElem? hc
        obtain ⟨hsound, hkeeps, hlisted⟩ := h.durable.createJob (h.origin _ hmem) hnew
        refine ⟨hsound, fun c' hc' => ?_, fun c' hc' job' hjob' => ?_, fun thread ht job' hjob' =>
          hkeeps.listed (h.listed thread ht job' hjob'), h.answered⟩
        · rcases List.mem_or_eq_of_mem_set hc' with hc' | rfl
          · exact h.origin c' hc'
          · exact h.origin ⟨message, target :: targets, jobs⟩ hmem
        · rcases List.mem_or_eq_of_mem_set hc' with hc' | rfl
          · exact hkeeps.listed (h.created c' hc' job' hjob')
          · rcases List.mem_append.mp hjob' with hjob' | hjob'
            · exact hkeeps.listed (h.created _ hmem job' hjob')
            · obtain rfl := List.mem_singleton.mp hjob'
              exact hlisted
      · cases hstep
  | launch i =>
      simp only [Replicator.step] at hstep
      split at hstep
      · rename_i message jobs hc
        obtain rfl := Option.some.inj hstep
        have hmem := List.mem_of_getElem? hc
        refine ⟨h.durable, fun c' hc' => h.origin c' (List.mem_of_mem_eraseIdx hc'),
          fun c' hc' => h.created c' (List.mem_of_mem_eraseIdx hc'), fun thread ht => ?_,
          fun thread ht => ?_⟩
        · rcases List.mem_append.mp ht with ht | ht
          · exact h.listed thread ht
          · obtain ⟨job, hjob, rfl⟩ := List.mem_map.mp ht
            rintro job' hjob'
            obtain rfl := List.mem_singleton.mp hjob'
            exact h.created _ hmem job' hjob
        · rcases List.mem_append.mp ht with ht | ht
          · exact h.answered thread ht
          · obtain ⟨job, hjob, rfl⟩ := List.mem_map.mp ht
            exact nofun
      · cases hstep
  | retry =>
      obtain rfl := Option.some.inj hstep
      refine ⟨h.durable, h.origin, h.created, fun thread ht => ?_, fun thread ht => ?_⟩
      · rcases List.mem_append.mp ht with ht | ht
        · exact h.listed thread ht
        · obtain rfl := List.mem_singleton.mp ht
          intro job hjob
          obtain ⟨hstored, -⟩ :=
            ReplicationJobStore.mem_listPendingAndFailed.mp (List.mem_of_mem_filter hjob)
          exact ⟨job, hstored, rfl⟩
      · rcases List.mem_append.mp ht with ht | ht
        · exact h.answered thread ht
        · obtain rfl := List.mem_singleton.mp ht
          exact nofun
  | begin i =>
      simp only [Replicator.step] at hstep
      split at hstep
      · rename_i job jobs hthread
        obtain rfl := Option.some.inj hstep
        have hkeeps := Durable.keeps_beginJob s.durable job
        exact h.thread h.durable.beginJob hkeeps
          (fun job' hjob' => hkeeps.listed (h.listed _ (List.mem_of_getElem? hthread) job' hjob'))
          nofun
      · cases hstep
  | post i reply =>
      simp only [Replicator.step] at hstep
      split at hstep
      · rename_i job jobs hthread
        obtain rfl := Option.some.inj hstep
        have hlisted := h.listed _ (List.mem_of_getElem? hthread)
        have hkeeps := Durable.keeps_post s.nodeId s.durable job reply
        refine h.thread (h.durable.post (hlisted job List.mem_cons_self)) hkeeps
          (fun job' hjob' => hkeeps.listed (hlisted job' hjob')) ?_
        intro job' jobs' hjobs hstage
        obtain ⟨rfl, rfl⟩ := List.cons.inj hjobs
        exact Durable.delivered_of_post (Stage.answered.inj hstage)
      · cases hstep
  | finish i =>
      simp only [Replicator.step] at hstep
      split at hstep
      · rename_i job jobs success hthread
        obtain rfl := Option.some.inj hstep
        have hmem := List.mem_of_getElem? hthread
        have hkeeps := Durable.keeps_finishJob s.durable job success
        refine h.thread (h.durable.finishJob (h.listed _ hmem job List.mem_cons_self) ?_) hkeeps
          (fun job' hjob' =>
            hkeeps.listed (h.listed _ hmem job' (List.mem_cons_of_mem _ hjob'))) nofun
        rintro rfl
        exact h.answered _ hmem job jobs rfl rfl
      · cases hstep
  | crash =>
      obtain rfl := Option.some.inj hstep
      exact ⟨h.durable, nofun, nofun, nofun, nofun⟩

/-- The store is sound in every state that a primary reaches. -/
theorem sound_of_run {nodeId : String} (h : run step (init nodeId) evs = some s) : s.Sound :=
  runWhile_induction (I := Sound) (fun _ _ _ hs _ hstep => hs.step hstep) (sound_init nodeId) h

end Replicator

end NanoFabric.Replication
