import NanoFabric.Replication.JobService

/-!
# Recovery of replication jobs

What `recover_pending_jobs` does after a crash at any point of any run: it attempts the jobs that are
`PENDING` or `FAILED`, and no others.

* `recover_of_notMem`, `recover_attempts` — the jobs that a recovery leaves alone, and those that it
  attempts.
* `jobsRecover_iff` — every job that has not succeeded is attempted, and every replica ends up with the
  writes and deletes that were started, just when the crash leaves no job `IN_PROGRESS` and every call
  has created the jobs of all its replicas.
-/

namespace NanoFabric.Replication

open NanoFabric.Found
open NanoFabric.Storage

/-- A recovery makes good what the crash interrupted. -/
structure JobsRecover (nodeId : String) (d : Durable) (started : List (ReplicaMessage × List String)) :
    Prop where
  /-- Every job of the primary that has not succeeded is attempted, whatever the replicas answer. -/
  attempted : ∀ answer jobId job, d.store.getJob jobId = some job → job.primaryNode = nodeId →
    job.status ≠ .success → ∃ job',
      (d.recoverPendingJobs nodeId answer).store.getJob jobId = some job' ∧
        job.attemptCount < job'.attemptCount
  /-- When every replica accepts, every job of the primary has succeeded. -/
  succeeded : ∀ answer : ReplicationJob → Reply, (∀ job, (answer job).answered = true) →
    ∀ jobId job, (d.recoverPendingJobs nodeId answer).store.getJob jobId = some job →
      job.primaryNode = nodeId → job.status = .success
  /-- When every replica accepts, each has been sent every write and delete that was started. -/
  complete : ∀ answer : ReplicationJob → Reply, (∀ job, (answer job).answered = true) →
    ∀ message replicas, (message, replicas) ∈ started → ∀ target ∈ replicas,
      (target, message) ∈ (d.recoverPendingJobs nodeId answer).delivered

/-- When a crash can be recovered from: no thread was between the two updates of its job, then or at an
earlier crash, and no call was between the creation of two jobs. -/
structure Resumable (nodeId : String) (d : Durable)
    (started : List (ReplicaMessage × List String)) : Prop where
  idle : ∀ jobId job, d.store.getJob jobId = some job → job.primaryNode = nodeId →
    job.status ≠ .inProgress
  created : ∀ message replicas, (message, replicas) ∈ started → ∀ target ∈ replicas,
    ∃ jobId job, d.store.getJob jobId = some job ∧ job.targetNode = target ∧
      job.message nodeId = some message

namespace Durable

variable {nodeId jobId : String} {answer : ReplicationJob → Reply} {d : Durable}
  {job row : ReplicationJob} {L : List ReplicationJob}

/-! ## One job -/

theorem executeJob_eq (nodeId : String) (answer : ReplicationJob → Reply) (d : Durable)
    (job : ReplicationJob) : executeJob nodeId answer d job =
      ((d.beginJob job).post nodeId job (answer job)).1.finishJob job
        ((d.beginJob job).post nodeId job (answer job)).2 := rfl

/-- What an execution leaves of the rows. -/
theorem getJob_executeJob (nodeId : String) (answer : ReplicationJob → Reply) (d : Durable)
    (job : ReplicationJob) (jobId : String) : (executeJob nodeId answer d job).store.getJob jobId =
      (d.store.getJob jobId).map fun row =>
        if jobId = job.jobId then
          { row with
            status := if ((d.beginJob job).post nodeId job (answer job)).2 then .success else .failed
            attemptCount := row.attemptCount + 1 }
        else row := by
  simp only [executeJob_eq, finishJob, ReplicationJobStore.getJob_updateJobStatus, store_post,
    beginJob, Option.map_map]
  apply Option.map_congr
  intro row _
  rw [Function.comp_apply]
  by_cases hid : jobId = job.jobId
  · rw [if_pos hid, if_pos hid, if_pos hid]
    rfl
  · rw [if_neg hid, if_neg hid, if_neg hid]

theorem keeps_executeJob (nodeId : String) (answer : ReplicationJob → Reply) (d : Durable)
    (job : ReplicationJob) : d.Keeps (executeJob nodeId answer d job) := by
  rw [executeJob_eq]
  exact (keeps_beginJob d job).trans ((keeps_post nodeId _ job _).trans (keeps_finishJob _ job _))

theorem Sound.executeJob (h : d.Sound nodeId) (hjob : d.Listed job) :
    (Durable.executeJob nodeId answer d job).Sound nodeId := by
  rw [executeJob_eq]
  have hbegun := (keeps_beginJob d job).listed hjob
  exact (h.beginJob.post hbegun).finishJob ((keeps_post nodeId _ job _).listed hbegun)
    delivered_of_post

/-- A request that can be built comes back without an error when it is answered. -/
theorem post_of_answered {reply : Reply} (hmessage : (job.message nodeId).isSome)
    (hreply : reply.answered = true) : (post nodeId d job reply).2 = true := by
  obtain ⟨message, hmessage⟩ := Option.isSome_iff_exists.mp hmessage
  unfold post
  rw [hmessage]
  exact hreply

/-! ## A recovery -/

theorem mem_retried : job ∈ d.retried nodeId ↔ d.store.getJob job.jobId = some job ∧
    (job.status = .pending ∨ job.status = .failed) ∧ job.primaryNode = nodeId := by
  unfold retried
  rw [List.mem_filter, ReplicationJobStore.mem_listPendingAndFailed, decide_eq_true_iff, and_assoc]

theorem listed_of_mem_retried (h : job ∈ d.retried nodeId) : d.Listed job :=
  ⟨job, (mem_retried.mp h).1, rfl⟩

theorem keeps_foldl (nodeId : String) (answer : ReplicationJob → Reply) (L : List ReplicationJob)
    (d : Durable) : d.Keeps (L.foldl (executeJob nodeId answer) d) := by
  induction L generalizing d with
  | nil => exact .refl d
  | cons job L ih => exact (keeps_executeJob nodeId answer d job).trans (ih _)

theorem Sound.foldl (h : d.Sound nodeId) (hL : ∀ job ∈ L, d.Listed job) :
    (L.foldl (Durable.executeJob nodeId answer) d).Sound nodeId := by
  induction L generalizing d with
  | nil => exact h
  | cons job L ih =>
      exact ih (h.executeJob (hL job List.mem_cons_self)) fun job' hjob' =>
        (keeps_executeJob nodeId answer d job).listed (hL job' (List.mem_cons_of_mem _ hjob'))

theorem Sound.recover (h : d.Sound nodeId) : (d.recoverPendingJobs nodeId answer).Sound nodeId :=
  h.foldl fun _ hjob => listed_of_mem_retried hjob

/-- A row whose job is not among those that are executed stays as it is. -/
theorem getJob_foldl_of_notMem (h : ∀ job ∈ L, job.jobId ≠ jobId) :
    (L.foldl (executeJob nodeId answer) d).store.getJob jobId = d.store.getJob jobId := by
  induction L generalizing d with
  | nil => rfl
  | cons job L ih =>
      rw [List.foldl_cons, ih fun job' hjob' => h job' (List.mem_cons_of_mem _ hjob'),
        getJob_executeJob]
      simp only [if_neg (h job List.mem_cons_self).symm, Option.map_id']

/-- No execution takes an attempt back. -/
theorem attemptCount_le_foldl (h : d.store.getJob jobId = some row) :
    ∃ row', (L.foldl (executeJob nodeId answer) d).store.getJob jobId = some row' ∧
      row.attemptCount ≤ row'.attemptCount := by
  induction L generalizing d row with
  | nil => exact ⟨row, h, le_rfl⟩
  | cons job L ih =>
      have hget := getJob_executeJob nodeId answer d job jobId
      rw [h, Option.map_some] at hget
      obtain ⟨row', hrow', hle⟩ := ih hget
      refine ⟨row', hrow', le_trans ?_ hle⟩
      split
      · exact Nat.le_succ _
      · exact le_rfl

/-- A job that is executed has been attempted once more. -/
theorem attemptCount_lt_foldl (h : d.store.getJob jobId = some row)
    (hmem : ∃ job ∈ L, job.jobId = jobId) :
    ∃ row', (L.foldl (executeJob nodeId answer) d).store.getJob jobId = some row' ∧
      row.attemptCount < row'.attemptCount := by
  induction L generalizing d row with
  | nil => exact absurd hmem (by simp)
  | cons job L ih =>
      have hget := getJob_executeJob nodeId answer d job jobId
      rw [h, Option.map_some] at hget
      by_cases hid : jobId = job.jobId
      · rw [if_pos hid] at hget
        obtain ⟨row', hrow', hle⟩ := attemptCount_le_foldl (L := L) hget
        exact ⟨row', hrow', Nat.lt_of_succ_le hle⟩
      · rw [if_neg hid] at hget
        refine ih hget ?_
        obtain ⟨job', hjob', hid'⟩ := hmem
        rcases List.mem_cons.mp hjob' with rfl | hjob'
        · exact absurd hid'.symm hid
        · exact ⟨job', hjob', hid'⟩

/-- When every replica accepts, a job that is executed has succeeded, and so it stays. -/
theorem status_foldl (hanswer : ∀ job, (answer job).answered = true)
    (hL : ∀ job ∈ L, (job.message nodeId).isSome) (h : d.store.getJob jobId = some row)
    (hdone : row.status = .success ∨ ∃ job ∈ L, job.jobId = jobId) :
    ∃ row', (L.foldl (executeJob nodeId answer) d).store.getJob jobId = some row' ∧
      row'.status = .success := by
  induction L generalizing d row with
  | nil => exact ⟨row, h, hdone.resolve_right (by simp)⟩
  | cons job L ih =>
      have hget := getJob_executeJob nodeId answer d job jobId
      rw [h, Option.map_some, post_of_answered (hL job List.mem_cons_self) (hanswer job)] at hget
      refine ih (fun job' hjob' => hL job' (List.mem_cons_of_mem _ hjob')) hget ?_
      by_cases hid : jobId = job.jobId
      · rw [if_pos hid]
        exact Or.inl rfl
      · rw [if_neg hid]
        refine hdone.imp_right ?_
        rintro ⟨job', hjob', hid'⟩
        rcases List.mem_cons.mp hjob' with rfl | hjob'
        · exact absurd hid'.symm hid
        · exact ⟨job', hjob', hid'⟩

/-- The jobs after a recovery are those before it. -/
theorem exists_of_getJob_recover
    (h : (d.recoverPendingJobs nodeId answer).store.getJob jobId = some row) :
    ∃ job, d.store.getJob jobId = some job ∧ row.identity = job.identity := by
  have hnone : ∀ (L : List ReplicationJob) (d : Durable), d.store.getJob jobId = none →
      (L.foldl (executeJob nodeId answer) d).store.getJob jobId = none := by
    intro L
    induction L with
    | nil => exact fun _ h => h
    | cons job L ih =>
        intro d hd
        refine ih _ ?_
        rw [getJob_executeJob, hd]
        rfl
  rcases hjob : d.store.getJob jobId with _ | job
  · exact absurd (h.symm.trans (hnone _ d hjob)) (by simp)
  · obtain ⟨row', hrow', hsame⟩ := (keeps_foldl nodeId answer (d.retried nodeId) d).jobs jobId job hjob
    obtain rfl := Option.some.inj (h.symm.trans hrow')
    exact ⟨job, rfl, hsame⟩

/-- A recovery leaves a job that is in progress as it is. -/
theorem recover_of_inProgress (h : d.store.getJob jobId = some row) (hrow : row.status = .inProgress) :
    (d.recoverPendingJobs nodeId answer).store.getJob jobId = some row := by
  unfold recoverPendingJobs
  rw [getJob_foldl_of_notMem, h]
  rintro job hjob rfl
  obtain ⟨hstored, hstatus, -⟩ := mem_retried.mp hjob
  obtain rfl := Option.some.inj (hstored.symm.trans h)
  rcases hstatus with hstatus | hstatus <;> rw [hrow] at hstatus <;> cases hstatus

end Durable

/-! ## Every crash -/

/-- A recovery after a crash makes everything good just when the crash leaves no job in progress and
no replica without a job. -/
theorem jobsRecover_iff {nodeId : String} {evs : List JobEvent} {s : Replicator}
    (h : run Replicator.step (.init nodeId) evs = some s) :
    JobsRecover s.nodeId s.durable s.started ↔ Resumable s.nodeId s.durable s.started := by
  have hsound := (Replicator.sound_of_run h).durable
  constructor
  · intro hrec
    refine ⟨?_, ?_⟩
    · intro jobId job hjob howned hstatus
      obtain ⟨job', hjob', hlt⟩ := hrec.attempted (fun _ => ⟨true, true, id⟩) jobId job hjob howned
        (by rw [hstatus]; decide)
      rw [Durable.recover_of_inProgress hjob hstatus] at hjob'
      exact hlt.ne (congrArg ReplicationJob.attemptCount (Option.some.inj hjob'))
    · intro message replicas hstarted target htarget
      have hmem := hrec.complete (fun _ => ⟨true, true, id⟩) (fun _ => rfl) message replicas hstarted
        target htarget
      -- what is delivered after the recovery has a job then, and the recovery creates none
      obtain ⟨jobId, row, hrow, htarget', hmessage⟩ := hsound.recover.sourced target message hmem
      obtain ⟨job, hjob, hsame⟩ := Durable.exists_of_getJob_recover hrow
      obtain ⟨hmessage', htarget'', -⟩ := Durable.message_of_identity s.nodeId hsame
      exact ⟨jobId, job, hjob, htarget''.symm.trans htarget', hmessage'.symm.trans hmessage⟩
  · intro hres
    -- a job that has not succeeded is pending or failed, so that the recovery lists it
    have hlisted : ∀ jobId job, s.durable.store.getJob jobId = some job → job.status ≠ .success →
        ∃ job' ∈ s.durable.retried s.nodeId, job'.jobId = jobId := by
      intro jobId job hjob hstatus
      have hid := ReplicationJobStore.jobId_of_getJob hjob
      have howned := (hsound.owned jobId job hjob).1
      have hidle := hres.idle jobId job hjob howned
      refine ⟨job, Durable.mem_retried.mpr ⟨by rwa [hid], ?_, howned⟩, hid⟩
      rcases hcase : job.status with _ | _ | _ | _
      · exact Or.inl rfl
      · exact absurd hcase hidle
      · exact absurd hcase hstatus
      · exact Or.inr rfl
    have hvalid : ∀ job ∈ s.durable.retried s.nodeId, (job.message s.nodeId).isSome :=
      fun job hjob => (hsound.owned _ job (Durable.mem_retried.mp hjob).1).2
    have hall : ∀ answer : ReplicationJob → Reply, (∀ job, (answer job).answered = true) →
        ∀ jobId row, s.durable.store.getJob jobId = some row →
          ∃ row', (s.durable.recoverPendingJobs s.nodeId answer).store.getJob jobId = some row' ∧
            row'.status = .success := by
      intro answer hanswer jobId row hrow
      refine Durable.status_foldl hanswer hvalid hrow ?_
      by_cases hstatus : row.status = .success
      · exact Or.inl hstatus
      · exact Or.inr (hlisted jobId row hrow hstatus)
    refine ⟨?_, ?_, ?_⟩
    · intro answer jobId job hjob _ hstatus
      exact Durable.attemptCount_lt_foldl hjob (hlisted jobId job hjob hstatus)
    · intro answer hanswer jobId row hrow _
      obtain ⟨job, hjob, -⟩ := Durable.exists_of_getJob_recover hrow
      obtain ⟨row', hrow', hstatus⟩ := hall answer hanswer jobId job hjob
      obtain rfl := Option.some.inj (hrow.symm.trans hrow')
      exact hstatus
    · intro answer hanswer message replicas hstarted target htarget
      obtain ⟨jobId, job, hjob, rfl, hmessage⟩ := hres.created message replicas hstarted target htarget
      obtain ⟨row, hrow, hstatus⟩ := hall answer hanswer jobId job hjob
      obtain ⟨job', hjob', hsame⟩ := Durable.exists_of_getJob_recover hrow
      obtain rfl := Option.some.inj (hjob.symm.trans hjob')
      obtain ⟨hmessage', htarget', -⟩ := Durable.message_of_identity s.nodeId hsame
      have hmem := hsound.recover.acked jobId row message hrow hstatus (hmessage'.trans hmessage)
      rwa [htarget'] at hmem

theorem firstWrite_blockId : "invoice-1" ≠ "" := by decide

theorem firstWrite_number : (1 : ℤ) ≤ 1 := le_rfl

theorem firstWrite_nodeId : "node1" ≠ "" := by decide

/-- The write of a block with one replica. -/
def firstWrite : ReplicaMessage :=
  .write ⟨⟨"invoice-1", 1, 1, "node1", firstWrite_blockId, firstWrite_number, firstWrite_number,
    firstWrite_nodeId⟩, "hello"⟩

/-- A write whose job is created, and waits for its thread at the crash. -/
theorem jobsRecover_iff_pending : ∃ s,
    run Replicator.step (.init "node1") [.replicate firstWrite ["node2"], .create 0 "job1"] = some s ∧
      (JobsRecover s.nodeId s.durable s.started ↔ Resumable s.nodeId s.durable s.started) := by
  have hrun : ∃ s, run Replicator.step (.init "node1")
      [.replicate firstWrite ["node2"], .create 0 "job1"] = some s := ⟨_, rfl⟩
  obtain ⟨s, hs⟩ := hrun
  exact ⟨s, hs, jobsRecover_iff hs⟩

/-- A job that a thread has marked `IN_PROGRESS` before the crash is never attempted again. -/
theorem jobsRecover_counterexample : ¬ ∀ (nodeId : String) (evs : List JobEvent) (s : Replicator),
    run Replicator.step (.init nodeId) evs = some s → JobsRecover s.nodeId s.durable s.started := by
  intro h
  have hrec := h "node1" [.replicate firstWrite ["node2"], .create 0 "job1", .launch 0, .begin 0] _ rfl
  obtain ⟨job, hjob, hlt⟩ := hrec.attempted (fun _ => ⟨true, true, id⟩) "job1"
    ⟨"job1", "invoice-1", 1, "node1", "node2", .inProgress, 1, false, some "hello", 1⟩
    (by decide) rfl (by decide)
  revert hlt
  obtain rfl := Option.some.inj hjob
  decide

end NanoFabric.Replication
