import NanoFabric.Repair.RepairService

/-!
# The life cycle of repair jobs

The calls of `RepairService` of `cluster/repair_service.py` that create and execute jobs, as the threads
of the worker and of the API take them: every call of the job store is a step, threads take their steps
in any order, and the process may crash between any two of them.

* `RepairProcess.Sound.step` — the steps that find the stored row as the copy in hand promises it keep
  the life cycle.
* `RepairProcess.lifeCycle_iff` — a run respects the life cycle of its jobs just when all its steps do.
* `RepairProcess.lifeCycle_counterexample` — a job is executed that another thread has completed.

What a job does to the nodes and to the placements is left out, and so are divergent and extra copies,
which a cycle treats without jobs. What comes from there is chosen freely, as is the order of threads.
-/

namespace NanoFabric.Metadata.RepairJobStore

open NanoFabric.Found
open NanoFabric.Node (Bindable)

variable {s s' : RepairJobStore} {jobId : String} {now : ℤ}

theorem getJob_upsertJob {job : RepairJob} (h : s.upsertJob job = .ok s') (jobId : String) :
    s'.getJob jobId = if jobId = job.jobId then some job else s.getJob jobId := by
  unfold upsertJob at h
  split at h
  · obtain rfl := Except.ok.inj h
    exact Dict.get?_set
  · cases h

/-- An update changes the row of its job. -/
theorem getJob_updateJobStatus {status : RepairStatus} {lastError : Option String} {inc : Bool}
    (h : s.updateJobStatus jobId status lastError inc now = .ok s') (jobId' : String) :
    s'.getJob jobId' = if jobId' = jobId then
      (s.getJob jobId).map fun job => updated job status lastError inc now
      else s.getJob jobId' := by
  unfold updateJobStatus at h
  by_cases hnow : Bindable now
  swap
  · rw [if_pos hnow] at h
    cases h
  rw [if_neg (not_not.mpr hnow)] at h
  rcases hjob : s.getJob jobId with _ | job
  · rw [hjob] at h
    obtain rfl := Except.ok.inj h
    split
    · rename_i heq
      rw [heq, hjob]
      rfl
    · rfl
  · rw [hjob] at h
    rw [getJob_upsertJob h, Option.map_some]
    have hid : (updated job status lastError inc now).jobId = jobId := (s.checked jobId job hjob).1
    rw [hid]

/-- An update is stored as long as the attempts can be counted. -/
theorem updateJobStatus_isOk (status : RepairStatus) (lastError : Option String) (inc : Bool)
    (hattempts : ∀ job, s.getJob jobId = some job → job.attemptCount ≤ 5) (hnow : Bindable now) :
    ∃ s', s.updateJobStatus jobId status lastError inc now = .ok s' := by
  unfold updateJobStatus
  rw [if_neg (not_not.mpr hnow)]
  rcases hjob : s.getJob jobId with _ | job
  · exact ⟨s, rfl⟩
  · have hle := hattempts job hjob
    obtain ⟨hversion, hcount, hcreated, -, hcompleted⟩ := (s.checked jobId job hjob).2
    have hstorable : (updated job status lastError inc now).Storable := by
      refine ⟨hversion, ?_, hcreated, hnow, ?_⟩
      · unfold updated
        unfold Bindable at hcount ⊢
        simp only
        split <;> omega
      · unfold updated
        simp only
        split
        · rintro t ht
          obtain rfl := Option.some.inj ht
          exact hnow
        · exact hcompleted
    unfold upsertJob
    simp only [dif_pos hstorable]
    exact ⟨_, rfl⟩

/-- A call of `create_job` hands out an active job, or a new one under a fresh id. -/
theorem createJob_eq_ok {blockId sourceNode targetNode : String} {version : ℤ}
    {repairType : RepairType} {job : RepairJob}
    (h : s.createJob blockId sourceNode targetNode version repairType jobId now = .ok (s', job)) :
    s' = s ∨ s.getJob jobId = none ∧ job.attemptCount = 0 ∧ job.status = .pending ∧
      ∀ jobId', s'.getJob jobId' = if jobId' = jobId then some job else s.getJob jobId' := by
  unfold createJob at h
  split at h
  · simp only [Except.ok.injEq, Prod.mk.injEq] at h
    exact Or.inl h.1.symm
  · split_ifs at h with hsome
    rw [Option.not_isSome_iff_eq_none] at hsome
    simp only [Except.map] at h
    split at h
    · cases h
    · rename_i s₁ hnew
      simp only [Except.ok.injEq, Prod.mk.injEq] at h
      obtain ⟨rfl, rfl⟩ := h
      exact Or.inr ⟨hsome, rfl, rfl, getJob_upsertJob hnew⟩

end NanoFabric.Metadata.RepairJobStore

namespace NanoFabric.Repair

open NanoFabric.Found
open NanoFabric.Metadata
open NanoFabric.Node (Bindable)

/-! ## Threads -/

/-- The calls that work on jobs. -/
inductive RepairCall
  | recoverJobs
  | runRepairCycle
  | repairBlock (blockId : String)
  | repairNode (failedNode : String)

/-- What is left to do in a call. -/
inductive RepairTask
  /-- The interrupted jobs are listed, to be set back. -/
  | listInterrupted
  /-- The failed jobs are listed, to be set back. -/
  | listFailed
  | reset (jobId : String)
  /-- A scan, of which every block is used. -/
  | scanCluster
  /-- A scan, of which one block is used. -/
  | scanBlock (blockId : String)
  /-- A scan, of which the blocks are used that a node misses. -/
  | scanNode (failedNode : String)
  | schedule (block : UnderReplicatedBlock) (repairType : RepairType)
  /-- The pending jobs are listed, to be executed. -/
  | listPending
  | execute (job : RepairJob)

/-- Source: `cluster/repair_service.py`, `recover_jobs`, `run_repair_cycle`, `repair_block`,
`repair_node`. -/
def RepairCall.tasks : RepairCall → List RepairTask
  | .recoverJobs => [.listInterrupted, .listFailed]
  | .runRepairCycle => [.listInterrupted, .listFailed, .scanCluster, .listPending]
  | .repairBlock blockId => [.scanBlock blockId]
  | .repairNode failedNode => [.scanNode failedNode]

/-- How far an execution is. -/
inductive RepairStage
  /-- The copy is under way. -/
  | copying
  /-- The job is about to be looked up. -/
  | lookup
  /-- The copy is being verified. -/
  | verifying
  /-- The verification failed. -/
  | failing
deriving DecidableEq

/-- A job between the first update of its status and the last one, as `_execute_job` holds it. -/
structure Execution where
  job : RepairJob
  stage : RepairStage

/-- What a thread executes, and what is left to do after it. -/
structure RepairThread where
  running : Option Execution
  todo : List RepairTask

namespace RepairThread

/-- A thread without a call. -/
def idle : RepairThread := ⟨none, []⟩

/-- The job that a thread executes. -/
def jobId? (thread : RepairThread) : Option String := thread.running.map (·.job.jobId)

/-- The task that a thread is about to start. -/
def next? (thread : RepairThread) : Option RepairTask :=
  match thread.running with
  | some _ => none
  | none => thread.todo.head?

end RepairThread

/-- What a step draws from outside: the clock, a fresh id, what a scan finds, the node that is selected
as the target, and how a copy and a verification end. -/
structure Outside where
  now : ℤ
  uuid : String
  underReplicated : List UnderReplicatedBlock
  diverged : List String
  selected : Option String
  copied : Except String Unit
  verified : Bool
  bindable : Bindable now

/-- The job store and the threads of a process. -/
structure RepairProcess where
  jobs : RepairJobStore
  threads : ℕ → RepairThread

/-- An event of a process. -/
inductive RepairEvent
  | call (t : ℕ) (call : RepairCall)
  /-- The thread takes its next step. -/
  | advance (t : ℕ) (o : Outside)
  /-- The call of the thread raises. -/
  | raise (t : ℕ)
  /-- The process ends, and starts again. -/
  | crash

namespace RepairProcess

/-- A new job store. -/
def init : RepairProcess := ⟨Table.empty, fun _ => .idle⟩

/-- The thread is at another place. -/
def setThread (s : RepairProcess) (t : ℕ) (thread : RepairThread) : RepairProcess :=
  { s with threads := Function.update s.threads t thread }

/-- What a call of the job store leaves; one that raises ends the call of the thread. -/
def storing (s : RepairProcess) (t : ℕ) (thread : RepairThread) :
    Except StoreError RepairJobStore → RepairProcess
  | .ok jobs => { s.setThread t thread with jobs }
  | .error _ => s.setThread t .idle

/-- A step of an execution.
Source: `cluster/repair_service.py`, `_execute_job`, `verify_repair`. -/
def continueJob (s : RepairProcess) (t : ℕ) (job : RepairJob) (todo : List RepairTask)
    (o : Outside) : RepairStage → RepairProcess
  | .copying =>
      match o.copied with
      | .error message => s.storing t ⟨none, todo⟩
          (s.jobs.updateJobStatus job.jobId .failed (some message) false o.now)
      | .ok () => s.storing t ⟨some ⟨job, .lookup⟩, todo⟩
          (s.jobs.updateJobStatus job.jobId .verifying none false o.now)
  | .lookup =>
      match s.jobs.getJob job.jobId with
      | none => s.setThread t ⟨some ⟨job, .failing⟩, todo⟩
      | some _ => s.setThread t ⟨some ⟨job, .verifying⟩, todo⟩
  | .verifying =>
      if o.verified then
        s.storing t ⟨none, todo⟩ (s.jobs.updateJobStatus job.jobId .completed none false o.now)
      else s.setThread t ⟨some ⟨job, .failing⟩, todo⟩
  | .failing => s.storing t ⟨none, todo⟩
      (s.jobs.updateJobStatus job.jobId .failed (some "verification failed") false o.now)

/-- The start of an execution. The number of attempts is read off the copy in hand.
Source: `cluster/repair_service.py`, `_execute_job`. -/
def executeJob (s : RepairProcess) (t : ℕ) (job : RepairJob) (todo : List RepairTask)
    (o : Outside) : RepairProcess :=
  if maxRepairAttempts ≤ job.attemptCount then
    s.storing t ⟨none, todo⟩
      (s.jobs.updateJobStatus job.jobId .failed (some "max attempts exceeded") false o.now)
  else
    s.storing t ⟨some ⟨job, .copying⟩, todo⟩
      (s.jobs.updateJobStatus job.jobId .copying none true o.now)

/-- A job for a block, if a source and a target are found.
Source: `cluster/repair_service.py`, `repair_block`, `repair_node`, `run_repair_cycle`. -/
def scheduleRepair (s : RepairProcess) (t : ℕ) (block : UnderReplicatedBlock)
    (repairType : RepairType) (todo : List RepairTask) (o : Outside) : RepairProcess :=
  match truthy block.presentNodes.head?, truthy o.selected with
  | some source, some target =>
      match s.jobs.createJob block.blockId source target block.version repairType o.uuid o.now with
      | .ok (jobs, job) => { s.setThread t ⟨none, .execute job :: todo⟩ with jobs }
      | .error _ => s.setThread t .idle
  | _, _ => s.setThread t ⟨none, todo⟩

/-- What a scan gives a call for one block to do.
Source: `cluster/repair_service.py`, `repair_block`. -/
def ofBlock (blockId : String) (o : Outside) : List RepairTask :=
  if blockId ∈ o.diverged then []
  else ((o.underReplicated.find? (·.blockId = blockId)).map
    fun block => RepairTask.schedule block .reReplication).toList

/-- A step of a call.
Source: `cluster/repair_service.py`, `recover_jobs`, `run_repair_cycle`, `repair_block`,
`repair_node`. -/
def perform (s : RepairProcess) (t : ℕ) (todo : List RepairTask) (o : Outside) :
    RepairTask → RepairProcess
  | .listInterrupted => s.setThread t
      ⟨none, s.jobs.listInterruptedJobs.map (fun job => .reset job.jobId) ++ todo⟩
  | .listFailed => s.setThread t
      ⟨none, ((s.jobs.listJobsByStatus [.failed]).filter fun job =>
        job.attemptCount < maxRepairAttempts).map (fun job => .reset job.jobId) ++ todo⟩
  | .reset jobId => s.storing t ⟨none, todo⟩
      (s.jobs.updateJobStatus jobId .pending none false o.now)
  | .scanCluster => s.setThread t
      ⟨none, o.underReplicated.map (fun block => .schedule block .reReplication) ++ todo⟩
  | .scanBlock blockId => s.setThread t ⟨none, ofBlock blockId o ++ todo⟩
  | .scanNode failedNode => s.setThread t
      ⟨none, (o.underReplicated.filter fun block => failedNode ∈ block.missingNodes).map
        (fun block => .schedule block .nodeRecovery) ++ todo⟩
  | .schedule block repairType => s.scheduleRepair t block repairType todo o
  | .listPending => s.setThread t
      ⟨none, (s.jobs.listJobsByStatus [.pending]).map .execute ++ todo⟩
  | .execute job => s.executeJob t job todo o

/-- A step of a process. -/
def step (s : RepairProcess) : RepairEvent → Option RepairProcess
  | .call t call =>
      match s.threads t with
      | ⟨none, []⟩ => some (s.setThread t ⟨none, call.tasks⟩)
      | _ => none
  | .advance t o =>
      match s.threads t with
      | ⟨some ⟨job, stage⟩, todo⟩ => some (s.continueJob t job todo o stage)
      | ⟨none, task :: todo⟩ => some (s.perform t todo o task)
      | ⟨none, []⟩ => none
  | .raise t => some (s.setThread t .idle)
  | .crash => some { s with threads := fun _ => .idle }

/-- The thread executes the job. -/
def Executes (s : RepairProcess) (t : ℕ) (jobId : String) : Prop :=
  (s.threads t).jobId? = some jobId

/-- What is asked of every step: after it no job has more attempts than are allowed and none is
executed twice at a time, and the jobs that were completed before it still are.
The attempts of a job are those of its row. -/
structure Respects (s s' : RepairProcess) : Prop where
  attempts : ∀ jobId job, s'.jobs.getJob jobId = some job → job.attemptCount ≤ maxRepairAttempts
  completed : ∀ jobId job, s.jobs.getJob jobId = some job → job.status = .completed →
    ∃ job', s'.jobs.getJob jobId = some job' ∧ job'.status = .completed
  alone : ∀ jobId t t', s'.Executes t jobId → s'.Executes t' jobId → t = t'

/-- Jobs respect their life cycle in a run. -/
def LifeCycle (evs : List RepairEvent) : Prop := EachStep step Respects init evs

/-- The stored row of the job is not completed. -/
def Unfinished (s : RepairProcess) (jobId : String) : Prop :=
  ∀ job, s.jobs.getJob jobId = some job → job.status ≠ .completed

/-- The stored row of the job has an attempt left. -/
def AttemptLeft (s : RepairProcess) (jobId : String) : Prop :=
  ∀ job, s.jobs.getJob jobId = some job → job.attemptCount < maxRepairAttempts

/-- A task that sets a job back, gives it up or starts to execute it finds it unfinished, and one that
starts to execute it finds an attempt left and no thread at it. -/
def TaskUpToDate (s : RepairProcess) : RepairTask → Prop
  | .reset jobId => s.Unfinished jobId
  | .execute job => s.Unfinished job.jobId ∧ (job.attemptCount < maxRepairAttempts →
      s.AttemptLeft job.jobId ∧ ∀ t, ¬ s.Executes t job.jobId)
  | _ => True

/-- If the event is the start of a task, the task is up to date. -/
def UpToDate (s : RepairProcess) : RepairEvent → Prop
  | .advance t _ => ∀ task ∈ (s.threads t).next?, s.TaskUpToDate task
  | _ => True

/-! ## One step -/

variable {s s' : RepairProcess} {t : ℕ}

/-- What the steps keep that are up to date. -/
structure Sound (s : RepairProcess) : Prop where
  attempts : ∀ jobId job, s.jobs.getJob jobId = some job → job.attemptCount ≤ maxRepairAttempts
  alone : ∀ jobId t t', s.Executes t jobId → s.Executes t' jobId → t = t'
  unfinished : ∀ t jobId, s.Executes t jobId → s.Unfinished jobId

theorem Sound.init : Sound init where
  attempts _ _ h := by cases h
  alone _ _ _ h := by cases h
  unfinished _ _ h := by cases h

theorem executes_setThread {thread : RepairThread} {t' : ℕ} {jobId : String} :
    (s.setThread t thread).Executes t' jobId ↔
      if t' = t then thread.jobId? = some jobId else s.Executes t' jobId := by
  unfold Executes setThread
  split
  · rename_i heq
    simp only [heq, Function.update_self]
  · rename_i hne
    simp only [Function.update_of_ne hne]

/-- A thread that executes the job that it executed before, or none. -/
theorem executes_of_setThread {thread : RepairThread}
    (hthread : thread.jobId? = none ∨ thread.jobId? = (s.threads t).jobId?) {t' : ℕ} {jobId : String}
    (h : (s.setThread t thread).Executes t' jobId) : s.Executes t' jobId := by
  rw [executes_setThread] at h
  split at h
  · rename_i heq
    rw [heq]
    rcases hthread with hnone | hsame
    · rw [hnone] at h
      cases h
    · exact hsame.symm.trans h
  · exact h

theorem call_eq_some {call : RepairCall} (h : step s (.call t call) = some s') :
    s' = s.setThread t ⟨none, call.tasks⟩ := by
  simp only [step] at h
  split at h
  · exact (Option.some.inj h).symm
  · cases h

/-- A thread takes a step of its execution, or starts a task. -/
theorem advance_eq_some {o : Outside} (h : step s (.advance t o) = some s') :
    (∃ job stage todo, s.threads t = ⟨some ⟨job, stage⟩, todo⟩ ∧
      s' = s.continueJob t job todo o stage) ∨
    ∃ task todo, s.threads t = ⟨none, task :: todo⟩ ∧ s' = s.perform t todo o task := by
  simp only [step] at h
  split at h
  · rename_i job stage todo hthread
    exact Or.inl ⟨job, stage, todo, hthread, (Option.some.inj h).symm⟩
  · rename_i task todo hthread
    exact Or.inr ⟨task, todo, hthread, (Option.some.inj h).symm⟩
  · cases h

/-- A step that starts no execution and completes only what no thread is left with. -/
theorem Sound.keeps (hs : Sound s) (hexec : ∀ t jobId, s'.Executes t jobId → s.Executes t jobId)
    (hrows : ∀ jobId job', s'.jobs.getJob jobId = some job' →
      job'.attemptCount ≤ maxRepairAttempts ∧ (job'.status = .completed →
        (∃ job, s.jobs.getJob jobId = some job ∧ job.status = .completed) ∨
          ∀ t, ¬ s'.Executes t jobId))
    (hcompleted : ∀ jobId job, s.jobs.getJob jobId = some job → job.status = .completed →
      ∃ job', s'.jobs.getJob jobId = some job' ∧ job'.status = .completed) :
    Sound s' ∧ Respects s s' := by
  have halone : ∀ jobId t t', s'.Executes t jobId → s'.Executes t' jobId → t = t' :=
    fun jobId t t' h h' => hs.alone jobId t t' (hexec t jobId h) (hexec t' jobId h')
  refine ⟨⟨fun jobId job' h => (hrows jobId job' h).1, halone, ?_⟩,
    fun jobId job' h => (hrows jobId job' h).1, hcompleted, halone⟩
  intro t jobId hexecutes job' hjob' hstatus
  rcases (hrows jobId job' hjob').2 hstatus with ⟨job, hjob, hdone⟩ | hnone
  · exact hs.unfinished t jobId (hexec t jobId hexecutes) job hjob hdone
  · exact hnone t hexecutes

/-- A step that leaves the jobs. -/
theorem Sound.quiet (hs : Sound s) (hjobs : s'.jobs = s.jobs)
    (hexec : ∀ t jobId, s'.Executes t jobId → s.Executes t jobId) : Sound s' ∧ Respects s s' := by
  refine hs.keeps hexec (fun jobId job h => ?_) fun jobId job h hdone => ⟨job, ?_, hdone⟩
  · rw [hjobs] at h
    exact ⟨hs.attempts jobId job h, fun hdone => Or.inl ⟨job, h, hdone⟩⟩
  · rw [hjobs]
    exact h

/-- A thread moves on. -/
theorem Sound.setThread (hs : Sound s) {thread : RepairThread}
    (hthread : thread.jobId? = none ∨ thread.jobId? = (s.threads t).jobId?) :
    Sound (s.setThread t thread) ∧ Respects s (s.setThread t thread) :=
  hs.quiet rfl fun _ _ => executes_of_setThread hthread

/-- An update of a job that is unfinished; only the thread that executes it completes it. -/
theorem Sound.storing (hs : Sound s) {thread : RepairThread} {jobId : String}
    {status : RepairStatus} {lastError : Option String} {now : ℤ}
    (hthread : thread.jobId? = none ∨ thread.jobId? = (s.threads t).jobId?)
    (hunfinished : s.Unfinished jobId)
    (hstatus : status = .completed → thread.jobId? = none ∧ s.Executes t jobId) :
    Sound (s.storing t thread (s.jobs.updateJobStatus jobId status lastError false now)) ∧
      Respects s (s.storing t thread
        (s.jobs.updateJobStatus jobId status lastError false now)) := by
  rcases hstored : s.jobs.updateJobStatus jobId status lastError false now with e | jobs
  · exact hs.setThread (Or.inl rfl)
  have hget : ∀ jobId', (s.storing t thread (.ok jobs)).jobs.getJob jobId' = _ :=
    RepairJobStore.getJob_updateJobStatus hstored
  have hexec : ∀ t' jobId', (s.storing t thread (.ok jobs)).Executes t' jobId' →
      s.Executes t' jobId' := fun _ _ => executes_of_setThread hthread
  refine hs.keeps hexec (fun jobId' job' hjob' => ?_) fun jobId' job hjob hdone => ⟨job, ?_, hdone⟩
  · rw [hget] at hjob'
    split at hjob'
    · rename_i heq
      obtain ⟨job, hjob, rfl⟩ := Option.map_eq_some_iff.mp hjob'
      refine ⟨hs.attempts jobId job hjob, fun hdone => Or.inr fun t' ht' => ?_⟩
      -- the thread that completed the job was the only one at it
      obtain ⟨hnone, hown⟩ := hstatus hdone
      obtain rfl := hs.alone jobId t t' hown (heq ▸ hexec t' jobId' ht')
      have hstill : (s.setThread t thread).Executes t jobId' := ht'
      rw [executes_setThread, if_pos rfl, hnone] at hstill
      cases hstill
    · exact ⟨hs.attempts jobId' job' hjob', fun hdone => Or.inl ⟨job', hjob', hdone⟩⟩
  · have hne : jobId' ≠ jobId := by
      rintro rfl
      exact hunfinished job hjob hdone
    rw [hget, if_neg hne]
    exact hjob

/-- A job starts that is up to date. -/
theorem Sound.begins (hs : Sound s) {job : RepairJob} {todo : List RepairTask} {now : ℤ}
    (hunfinished : s.Unfinished job.jobId) (hleft : s.AttemptLeft job.jobId)
    (halone : ∀ t', ¬ s.Executes t' job.jobId) :
    Sound (s.storing t ⟨some ⟨job, .copying⟩, todo⟩
        (s.jobs.updateJobStatus job.jobId .copying none true now)) ∧
      Respects s (s.storing t ⟨some ⟨job, .copying⟩, todo⟩
        (s.jobs.updateJobStatus job.jobId .copying none true now)) := by
  rcases hstored : s.jobs.updateJobStatus job.jobId .copying none true now with e | jobs
  · exact hs.setThread (Or.inl rfl)
  have hget : ∀ jobId, (s.storing t ⟨some ⟨job, .copying⟩, todo⟩ (.ok jobs)).jobs.getJob jobId = _ :=
    RepairJobStore.getJob_updateJobStatus hstored
  have hexec : ∀ t' jobId, (s.storing t ⟨some ⟨job, .copying⟩, todo⟩ (.ok jobs)).Executes t' jobId →
      t' = t ∧ jobId = job.jobId ∨ s.Executes t' jobId ∧ jobId ≠ job.jobId := by
    intro t' jobId h
    have hnext : (s.setThread t ⟨some ⟨job, .copying⟩, todo⟩).Executes t' jobId := h
    rw [executes_setThread] at hnext
    split at hnext
    · rename_i heq
      exact Or.inl ⟨heq, (Option.some.inj hnext).symm⟩
    · refine Or.inr ⟨hnext, ?_⟩
      rintro rfl
      exact halone t' hnext
  have hattempts : ∀ jobId row, (s.storing t ⟨some ⟨job, .copying⟩, todo⟩ (.ok jobs)).jobs.getJob jobId
      = some row → row.attemptCount ≤ maxRepairAttempts := by
    intro jobId row hrow
    rw [hget] at hrow
    split at hrow
    · obtain ⟨stored, hjob, rfl⟩ := Option.map_eq_some_iff.mp hrow
      exact Int.add_one_le_iff.mpr (hleft stored hjob)
    · exact hs.attempts jobId row hrow
  have honce : ∀ jobId t₁ t₂,
      (s.storing t ⟨some ⟨job, .copying⟩, todo⟩ (.ok jobs)).Executes t₁ jobId →
      (s.storing t ⟨some ⟨job, .copying⟩, todo⟩ (.ok jobs)).Executes t₂ jobId → t₁ = t₂ := by
    intro jobId t₁ t₂ h₁ h₂
    rcases hexec t₁ jobId h₁ with ⟨rfl, hid⟩ | ⟨h₁, hne⟩
    · rcases hexec t₂ jobId h₂ with ⟨rfl, -⟩ | ⟨-, hne⟩
      · rfl
      · exact absurd hid hne
    · rcases hexec t₂ jobId h₂ with ⟨-, hid⟩ | ⟨h₂, -⟩
      · exact absurd hid hne
      · exact hs.alone jobId t₁ t₂ h₁ h₂
  refine ⟨⟨hattempts, honce, fun t' jobId h row hrow => ?_⟩, hattempts, ?_, honce⟩
  · rw [hget] at hrow
    split at hrow
    · obtain ⟨stored, -, rfl⟩ := Option.map_eq_some_iff.mp hrow
      exact nofun
    · rename_i hne
      rcases hexec t' jobId h with ⟨-, hid⟩ | ⟨h, -⟩
      · exact absurd hid hne
      · exact hs.unfinished t' jobId h row hrow
  · intro jobId row hrow hdone
    have hne : jobId ≠ job.jobId := by
      rintro rfl
      exact hunfinished row hrow hdone
    refine ⟨row, ?_, hdone⟩
    rw [hget, if_neg hne]
    exact hrow

/-- A step of an execution. -/
theorem Sound.continueJob (hs : Sound s) {job : RepairJob} {stage : RepairStage}
    {todo : List RepairTask} (hthread : s.threads t = ⟨some ⟨job, stage⟩, todo⟩) (o : Outside) :
    Sound (s.continueJob t job todo o stage) ∧
      Respects s (s.continueJob t job todo o stage) := by
  have hexecutes : s.Executes t job.jobId := by
    unfold Executes
    rw [hthread]
    rfl
  have hunfinished := hs.unfinished t job.jobId hexecutes
  have hsame : ∀ stage', (⟨some ⟨job, stage'⟩, todo⟩ : RepairThread).jobId? =
      (s.threads t).jobId? := fun _ => hexecutes.symm
  cases stage with
  | copying =>
      simp only [RepairProcess.continueJob]
      split
      · exact hs.storing (Or.inl rfl) hunfinished nofun
      · exact hs.storing (Or.inr (hsame .lookup)) hunfinished nofun
  | lookup =>
      simp only [RepairProcess.continueJob]
      split
      · exact hs.setThread (Or.inr (hsame .failing))
      · exact hs.setThread (Or.inr (hsame .verifying))
  | verifying =>
      simp only [RepairProcess.continueJob]
      split
      · exact hs.storing (Or.inl rfl) hunfinished fun _ => ⟨rfl, hexecutes⟩
      · exact hs.setThread (Or.inr (hsame .failing))
  | failing => exact hs.storing (Or.inl rfl) hunfinished nofun

/-- A job is handed out or made. -/
theorem Sound.scheduleRepair (hs : Sound s) (block : UnderReplicatedBlock) (repairType : RepairType)
    (todo : List RepairTask) (o : Outside) : Sound (s.scheduleRepair t block repairType todo o) ∧
      Respects s (s.scheduleRepair t block repairType todo o) := by
  unfold RepairProcess.scheduleRepair
  split
  swap
  · exact hs.setThread (Or.inl rfl)
  split
  swap
  · exact hs.setThread (Or.inl rfl)
  rename_i jobs job hcreated
  have hexec : ∀ t' jobId,
      ({ s.setThread t ⟨none, .execute job :: todo⟩ with jobs } : RepairProcess).Executes t' jobId →
      s.Executes t' jobId := fun _ _ => executes_of_setThread (Or.inl rfl)
  rcases RepairJobStore.createJob_eq_ok hcreated with hsame | ⟨hfresh, hzero, hpending, hget⟩
  · exact hs.quiet hsame hexec
  · refine hs.keeps hexec (fun jobId row hrow => ?_) fun jobId row hrow hdone => ⟨row, ?_, hdone⟩
    · rw [hget] at hrow
      split at hrow
      · obtain rfl := Option.some.inj hrow
        rw [hzero, hpending]
        exact ⟨by decide, nofun⟩
      · exact ⟨hs.attempts jobId row hrow, fun hdone => Or.inl ⟨row, hrow, hdone⟩⟩
    · have hne : jobId ≠ o.uuid := by
        rintro rfl
        rw [hfresh] at hrow
        cases hrow
      rw [hget, if_neg hne]
      exact hrow

/-- The steps that are up to date keep the life cycle. -/
theorem Sound.step {ev : RepairEvent} (hs : Sound s) (hC : s.UpToDate ev)
    (hstep : RepairProcess.step s ev = some s') : Sound s' ∧ Respects s s' := by
  cases ev with
  | call t call =>
      obtain rfl := call_eq_some hstep
      exact hs.setThread (Or.inl rfl)
  | raise t =>
      obtain rfl := Option.some.inj hstep
      exact hs.setThread (Or.inl rfl)
  | crash =>
      obtain rfl := Option.some.inj hstep
      exact hs.quiet rfl fun _ _ h => by cases h
  | advance t o =>
      rcases advance_eq_some hstep with ⟨job, stage, todo, hthread, rfl⟩ | ⟨task, todo, hthread, rfl⟩
      · exact hs.continueJob hthread o
      have hC : s.TaskUpToDate task := hC task (by rw [hthread]; rfl)
      cases task with
      | reset jobId => exact hs.storing (Or.inl rfl) hC nofun
      | schedule block repairType => exact hs.scheduleRepair block repairType todo o
      | execute job =>
          simp only [perform, executeJob]
          split
          · exact hs.storing (Or.inl rfl) hC.1 nofun
          · rename_i hlt
            obtain ⟨hleft, halone⟩ := hC.2 (not_le.mp hlt)
            exact hs.begins hC.1 hleft halone
      | listInterrupted => exact hs.setThread (Or.inl rfl)
      | listFailed => exact hs.setThread (Or.inl rfl)
      | scanCluster => exact hs.setThread (Or.inl rfl)
      | scanBlock blockId => exact hs.setThread (Or.inl rfl)
      | scanNode failedNode => exact hs.setThread (Or.inl rfl)
      | listPending => exact hs.setThread (Or.inl rfl)

/-- No update may move a job that is completed. -/
theorem Sound.not_respects_storing (hs : Sound s) {thread : RepairThread} {jobId : String}
    {status : RepairStatus} {lastError : Option String} {inc : Bool} {now : ℤ}
    (hnow : Bindable now) (hstatus : status ≠ .completed) (h : ¬ s.Unfinished jobId) :
    ¬ Respects s (s.storing t thread
      (s.jobs.updateJobStatus jobId status lastError inc now)) := by
  unfold Unfinished at h
  push Not at h
  obtain ⟨job, hjob, hdone⟩ := h
  obtain ⟨jobs, hstored⟩ := RepairJobStore.updateJobStatus_isOk status lastError inc
    (hs.attempts jobId) hnow
  rw [hstored]
  intro hrespects
  obtain ⟨job', hjob', hdone'⟩ := hrespects.completed jobId job hjob hdone
  have hget := RepairJobStore.getJob_updateJobStatus hstored jobId
  rw [if_pos rfl, hjob] at hget
  obtain rfl := Option.some.inj (hget.symm.trans hjob')
  exact hstatus hdone'

/-- No execution may start without an attempt left, or beside another one. -/
theorem Sound.not_respects_begins (hs : Sound s) {job : RepairJob} {task : RepairTask}
    {todo : List RepairTask} {now : ℤ} (hthread : s.threads t = ⟨none, task :: todo⟩)
    (hnow : Bindable now)
    (h : ¬ (s.AttemptLeft job.jobId ∧ ∀ t, ¬ s.Executes t job.jobId)) :
    ¬ Respects s (s.storing t ⟨some ⟨job, .copying⟩, todo⟩
      (s.jobs.updateJobStatus job.jobId .copying none true now)) := by
  obtain ⟨jobs, hstored⟩ := RepairJobStore.updateJobStatus_isOk .copying none true
    (hs.attempts job.jobId) hnow
  rw [hstored]
  intro hrespects
  refine h ⟨fun row hrow => ?_, fun t' ht' => ?_⟩
  · have hget := RepairJobStore.getJob_updateJobStatus hstored job.jobId
    rw [if_pos rfl, hrow] at hget
    exact Int.add_one_le_iff.mp (hrespects.attempts job.jobId _ hget)
  · have hne : t' ≠ t := by
      rintro rfl
      unfold Executes at ht'
      rw [hthread] at ht'
      cases ht'
    have hstill : (s.setThread t ⟨some ⟨job, .copying⟩, todo⟩).Executes t' job.jobId := by
      rw [executes_setThread, if_neg hne]
      exact ht'
    have hstarted : (s.setThread t ⟨some ⟨job, .copying⟩, todo⟩).Executes t job.jobId := by
      rw [executes_setThread, if_pos rfl]
      rfl
    exact hne (hrespects.alone job.jobId t' t hstill hstarted)

/-- A step that is not up to date breaks the life cycle. -/
theorem Sound.not_respects {ev : RepairEvent} (hs : Sound s) (hC : ¬ s.UpToDate ev)
    (hstep : RepairProcess.step s ev = some s') : ¬ Respects s s' := by
  cases ev with
  | call t call => exact absurd trivial hC
  | raise t => exact absurd trivial hC
  | crash => exact absurd trivial hC
  | advance t o =>
      rcases advance_eq_some hstep with ⟨job, stage, todo, hthread, rfl⟩ | ⟨task, todo, hthread, rfl⟩
      · refine absurd (fun task htask => ?_) hC
        rw [hthread] at htask
        cases htask
      replace hC : ¬ s.TaskUpToDate task := by
        intro htask
        refine hC fun task' htask' => ?_
        rw [hthread] at htask'
        exact Option.some.inj htask' ▸ htask
      cases task with
      | reset jobId => exact hs.not_respects_storing o.bindable nofun hC
      | execute job =>
          by_cases hunfinished : s.Unfinished job.jobId
          swap
          · simp only [perform, executeJob]
            split
            · exact hs.not_respects_storing o.bindable nofun hunfinished
            · exact hs.not_respects_storing o.bindable nofun hunfinished
          have hlt : job.attemptCount < maxRepairAttempts := by
            by_contra hle
            exact hC ⟨hunfinished, fun hlt => absurd hlt hle⟩
          have hstale : ¬ (s.AttemptLeft job.jobId ∧ ∀ t, ¬ s.Executes t job.jobId) :=
            fun hfresh => hC ⟨hunfinished, fun _ => hfresh⟩
          simp only [perform, executeJob]
          rw [if_neg (not_le.mpr hlt)]
          exact hs.not_respects_begins hthread o.bindable hstale
      | listInterrupted => exact absurd trivial hC
      | listFailed => exact absurd trivial hC
      | schedule block repairType => exact absurd trivial hC
      | scanCluster => exact absurd trivial hC
      | scanBlock blockId => exact absurd trivial hC
      | scanNode failedNode => exact absurd trivial hC
      | listPending => exact absurd trivial hC

/-! ## Runs -/

/-- Jobs respect their life cycle in a run of any calls just when every task that starts is up to
date. -/
theorem lifeCycle_iff (evs : List RepairEvent) :
    LifeCycle evs ↔ StepsMeet step UpToDate init evs :=
  eachStep_iff_stepsMeet_of_invariant (fun _ _ _ hs hC hstep => hs.step hC hstep)
    (fun _ _ _ hs hC hstep => hs.not_respects hC hstep) Sound.init

theorem goesWell_bindable : Bindable 1000 := by decide

/-- A scan that finds the block `b1` missing on one node, and a copy to another one that goes well. -/
def goesWell : Outside where
  now := 1000
  uuid := "j1"
  underReplicated := [⟨"b1", 1, ["n1", "n2"], ["n1"], ["n2"]⟩]
  diverged := []
  selected := some "n3"
  copied := .ok ()
  verified := true
  bindable := goesWell_bindable

/-- Two calls for one block, the second of which goes all the way before the first executes its job. -/
def twoCalls : List RepairEvent :=
  [.call 0 (.repairBlock "b1"), .advance 0 goesWell, .advance 0 goesWell,
    .call 1 (.repairBlock "b1"), .advance 1 goesWell, .advance 1 goesWell, .advance 1 goesWell,
    .advance 1 goesWell, .advance 1 goesWell, .advance 1 goesWell]

/-- The second call completes the job, and the first starts it again. -/
theorem lifeCycle_counterexample : ¬ ∀ evs, LifeCycle evs := by
  intro h
  have hstatus : (run step init twoCalls).map (fun s => (s.jobs.getJob "j1").map RepairJob.status) =
      some (some .completed) := by
    decide +kernel
  have hstatus' : ((run step init twoCalls).bind fun s => step s (.advance 0 goesWell)).map
      (fun s => (s.jobs.getJob "j1").map RepairJob.status) = some (some .copying) := by
    decide +kernel
  obtain ⟨s, hrun, hs⟩ := Option.map_eq_some_iff.mp hstatus
  obtain ⟨job, hjob, hdone⟩ := Option.map_eq_some_iff.mp hs
  rw [hrun, Option.bind_some] at hstatus'
  obtain ⟨s', hstep, hs'⟩ := Option.map_eq_some_iff.mp hstatus'
  have hlife : LifeCycle (twoCalls ++ [.advance 0 goesWell]) := h _
  obtain ⟨job', hjob', hdone'⟩ := (hlife.of_run hrun hstep).completed "j1" job hjob hdone
  rw [hjob', Option.map_some, hdone'] at hs'
  cases hs'

end RepairProcess

end NanoFabric.Repair
