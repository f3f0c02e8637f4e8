import NanoFabric.Found.Runs
import NanoFabric.Found.Upsert
import NanoFabric.Storage.BackupService
import NanoFabric.Storage.RestoreService
import NanoFabric.Storage.SnapshotScheduler

/-!
# The tables of backups, restore jobs and policies

The rest of `SnapshotStore` of `storage/snapshot_store.py`. Each table has one statement that inserts
a record or updates the row that is there, with its own list of columns to update: all of them for a
policy, all but what a job is about and when it was created for a restore job, and for a backup all
but its type, its time, its base and its snapshot ids.

* `StoredBackup.updated_eq_iff`, `StoredRestoreJob.updated_eq_iff` — when a row becomes the record
  that is saved.
* `BackupCall.getBackup_saves_iff` — `create_backup` saves its snapshot ids too late.
* `Ledger.returnsSaved_iff` — the tables return what was last saved just when no save is to change a
  column that is not updated.

A finite `float` is the rational number that it is.
-/

namespace NanoFabric.Storage

open NanoFabric.Found
open NanoFabric.Metadata (StoreError)
open NanoFabric.Node (Bindable)

/-! ## Records -/

/-- Source: `storage/models.py`, `BackupRecord`. -/
structure StoredBackup where
  backupType : BackupType
  timestamp : ℤ
  snapshotIds : List String
  blockCount : ℤ
  sizeBytes : ℤ
  status : BackupStatus
  archivePath : Option String
  baseBackupId : Option String
  error : Option String
deriving DecidableEq

/-- Source: `storage/models.py`, `RestoreJob`. -/
structure StoredRestoreJob where
  sourceType : String
  sourceId : String
  status : RestoreJobStatus
  blocksRestored : ℤ
  placementsRestored : ℤ
  createdAt : ℤ
  completedAt : Option ℤ
  durationMs : Option ℚ
  error : Option String
deriving DecidableEq

namespace StoredBackup

/-- What a save makes of the row that is there.
Source: `storage/snapshot_store.py`, `save_backup`. -/
def updated (old new : StoredBackup) : StoredBackup :=
  { old with
    status := new.status
    sizeBytes := new.sizeBytes
    blockCount := new.blockCount
    archivePath := new.archivePath
    error := new.error }

theorem updated_eq_iff {old new : StoredBackup} : updated old new = new ↔
    old.backupType = new.backupType ∧ old.timestamp = new.timestamp ∧
      old.snapshotIds = new.snapshotIds ∧ old.baseBackupId = new.baseBackupId := by
  obtain ⟨type, time, ids, count, size, status, path, base, error⟩ := new
  simp only [updated, mk.injEq, true_and, and_true]

/-- The numbers fit into their columns. -/
def Storable (r : StoredBackup) : Prop :=
  Bindable r.timestamp ∧ Bindable r.blockCount ∧ Bindable r.sizeBytes

instance : DecidablePred Storable := fun _ => inferInstanceAs (Decidable (_ ∧ _ ∧ _))

/-- The row of an interrupted backup.
Source: `storage/backup_service.py`, `recover_interrupted_backups`. -/
def interrupted (r : StoredBackup) : StoredBackup :=
  { r with status := .failed, error := some "interrupted — recovered on startup" }

/-- A recovery updates the row as it is. -/
theorem updated_interrupted (r : StoredBackup) : updated r r.interrupted = r.interrupted :=
  updated_eq_iff.mpr ⟨rfl, rfl, rfl, rfl⟩

end StoredBackup

namespace StoredRestoreJob

/-- What a save makes of the row that is there.
Source: `storage/snapshot_store.py`, `save_restore_job`. -/
def updated (old new : StoredRestoreJob) : StoredRestoreJob :=
  { old with
    status := new.status
    blocksRestored := new.blocksRestored
    placementsRestored := new.placementsRestored
    completedAt := new.completedAt
    durationMs := new.durationMs
    error := new.error }

theorem updated_eq_iff {old new : StoredRestoreJob} : updated old new = new ↔
    old.sourceType = new.sourceType ∧ old.sourceId = new.sourceId ∧
      old.createdAt = new.createdAt := by
  obtain ⟨type, id, status, blocks, placements, created, completed, duration, error⟩ := new
  simp only [updated, mk.injEq, true_and, and_true]

/-- The numbers fit into their columns. -/
def Storable (job : StoredRestoreJob) : Prop :=
  Bindable job.blocksRestored ∧ Bindable job.placementsRestored ∧ Bindable job.createdAt ∧
    ∀ at' ∈ job.completedAt, Bindable at'

instance : DecidablePred Storable := fun job => by
  unfold Storable
  infer_instance

/-- A restore that has begun.
Source: `storage/restore_service.py`, `restore_snapshot`, `restore_backup`. -/
def started (sourceType sourceId : String) (now : ℤ) : StoredRestoreJob :=
  ⟨sourceType, sourceId, .running, 0, 0, now, none, none, none⟩

/-- A restore that is over.
Source: `storage/restore_service.py`, `restore_snapshot`, `restore_backup`,
`recover_interrupted_restores`. -/
def ended (job : StoredRestoreJob) (status : RestoreJobStatus) (blocks placements now : ℤ)
    (durationMs : Option ℚ) (error : Option String) : StoredRestoreJob :=
  { job with
    status
    blocksRestored := blocks
    placementsRestored := placements
    completedAt := some now
    durationMs
    error }

/-- What the restore service saves of a job after the first save is stored as it is given. -/
theorem updated_ended (job : StoredRestoreJob) (status : RestoreJobStatus)
    (blocks placements now : ℤ) (durationMs : Option ℚ) (error : Option String) :
    updated job (job.ended status blocks placements now durationMs error) =
      job.ended status blocks placements now durationMs error :=
  updated_eq_iff.mpr ⟨rfl, rfl, rfl⟩

end StoredRestoreJob

/-- The numbers fit into their columns. -/
def SnapshotPolicy.Storable (policy : SnapshotPolicy) : Prop :=
  Bindable policy.retentionCount ∧ (∀ at' ∈ policy.lastRunAt, Bindable at') ∧
    ∀ at' ∈ policy.nextRunAt, Bindable at'

instance : DecidablePred SnapshotPolicy.Storable := fun policy => by
  unfold SnapshotPolicy.Storable
  infer_instance

/-! ## Tables -/

/-- Source: `storage/snapshot_store.py`, `SnapshotStore`. -/
structure ProtectionTables where
  backups : Dict String StoredBackup
  restoreJobs : Dict String StoredRestoreJob
  policies : Dict String SnapshotPolicy

namespace ProtectionTables

/-- The tables of an empty database. -/
def empty : ProtectionTables := ⟨Dict.empty, Dict.empty, Dict.empty⟩

/-- Source: `storage/snapshot_store.py`, `save_backup`. -/
def saveBackup (T : ProtectionTables) (backupId : String) (record : StoredBackup) :
    Except StoreError ProtectionTables :=
  if record.Storable then
    .ok { T with backups := T.backups.upsert StoredBackup.updated backupId record }
  else .error .overflow

/-- Source: `storage/snapshot_store.py`, `save_restore_job`. -/
def saveRestoreJob (T : ProtectionTables) (jobId : String) (job : StoredRestoreJob) :
    Except StoreError ProtectionTables :=
  if job.Storable then
    .ok { T with restoreJobs := T.restoreJobs.upsert StoredRestoreJob.updated jobId job }
  else .error .overflow

/-- Source: `storage/snapshot_store.py`, `save_policy`. -/
def savePolicy (T : ProtectionTables) (policyId : String) (policy : SnapshotPolicy) :
    Except StoreError ProtectionTables :=
  if policy.Storable then
    .ok { T with policies := T.policies.upsert (fun _ new => new) policyId policy }
  else .error .overflow

/-- Source: `storage/snapshot_store.py`, `get_backup`. -/
def getBackup (T : ProtectionTables) (backupId : String) : Option StoredBackup :=
  T.backups.get? backupId

/-- Source: `storage/snapshot_store.py`, `list_backups`. -/
def listBackups (T : ProtectionTables) : List (String × StoredBackup) :=
  T.backups.entries.insertionSort fun item item' => item'.2.timestamp ≤ item.2.timestamp

/-- Source: `storage/snapshot_store.py`, `list_restore_jobs`. -/
def listRestoreJobs (T : ProtectionTables) : List (String × StoredRestoreJob) :=
  T.restoreJobs.entries.insertionSort fun item item' => item'.2.createdAt ≤ item.2.createdAt

/-- Source: `storage/snapshot_store.py`, `list_policies`. -/
def listPolicies (T : ProtectionTables) : List (String × SnapshotPolicy) :=
  SnapshotPolicy.listPolicies T.policies

variable {T : ProtectionTables} {id : String}

theorem mem_listBackups {record : StoredBackup} :
    (id, record) ∈ T.listBackups ↔ T.backups.get? id = some record :=
  (List.perm_insertionSort _ _).mem_iff.trans Dict.mem_entries

theorem mem_listRestoreJobs {job : StoredRestoreJob} :
    (id, job) ∈ T.listRestoreJobs ↔ T.restoreJobs.get? id = some job :=
  (List.perm_insertionSort _ _).mem_iff.trans Dict.mem_entries

theorem mem_listPolicies {policy : SnapshotPolicy} :
    (id, policy) ∈ T.listPolicies ↔ T.policies.get? id = some policy :=
  (List.perm_insertionSort _ _).mem_iff.trans Dict.mem_entries

end ProtectionTables

/-! ## Saves -/

/-- A save of a record under an id. -/
inductive Save
  | backup (backupId : String) (record : StoredBackup)
  | restoreJob (jobId : String) (job : StoredRestoreJob)
  | policy (policyId : String) (policy : SnapshotPolicy)

/-- The tables, and the records that were passed to the last saves of their ids. -/
structure Ledger where
  tables : ProtectionTables
  saved : ProtectionTables

namespace Ledger

/-- Nothing has been saved. -/
def init : Ledger := ⟨.empty, .empty⟩

/-- One save; one that raises saves nothing. -/
def step (s : Ledger) : Save → Option Ledger
  | .backup id record => some <|
      match s.tables.saveBackup id record with
      | .error _ => s
      | .ok tables =>
          { tables, saved := { s.saved with backups := s.saved.backups.set id record } }
  | .restoreJob id job => some <|
      match s.tables.saveRestoreJob id job with
      | .error _ => s
      | .ok tables =>
          { tables, saved := { s.saved with restoreJobs := s.saved.restoreJobs.set id job } }
  | .policy id policy => some <|
      match s.tables.savePolicy id policy with
      | .error _ => s
      | .ok tables =>
          { tables, saved := { s.saved with policies := s.saved.policies.set id policy } }

/-- Every record is read as it was last saved. -/
structure ReturnsSaved (s : Ledger) : Prop where
  getBackup : ∀ id, s.tables.getBackup id = s.saved.backups.get? id
  listBackups : ∀ id record, (id, record) ∈ s.tables.listBackups ↔
    s.saved.backups.get? id = some record
  listRestoreJobs : ∀ id job, (id, job) ∈ s.tables.listRestoreJobs ↔
    s.saved.restoreJobs.get? id = some job
  listPolicies : ∀ id policy, (id, policy) ∈ s.tables.listPolicies ↔
    s.saved.policies.get? id = some policy

/-- The save is to change no column of a row that is there but those that are updated. -/
def KeepsColumns (s : Ledger) : Save → Prop
  | .backup id record => record.Storable → ∀ old, s.tables.backups.get? id = some old →
      old.backupType = record.backupType ∧ old.timestamp = record.timestamp ∧
        old.snapshotIds = record.snapshotIds ∧ old.baseBackupId = record.baseBackupId
  | .restoreJob id job => job.Storable → ∀ old, s.tables.restoreJobs.get? id = some old →
      old.sourceType = job.sourceType ∧ old.sourceId = job.sourceId ∧
        old.createdAt = job.createdAt
  | .policy _ _ => True

variable {s s' : Ledger} {ev : Save}

/-- The tables are what was last saved. -/
theorem returnsSaved_iff_get? : ReturnsSaved s ↔
    (∀ id, s.tables.backups.get? id = s.saved.backups.get? id) ∧
    (∀ id, s.tables.restoreJobs.get? id = s.saved.restoreJobs.get? id) ∧
    ∀ id, s.tables.policies.get? id = s.saved.policies.get? id := by
  constructor
  · intro h
    refine ⟨h.getBackup, fun id => Option.ext fun job => ?_, fun id => Option.ext fun policy => ?_⟩
    · exact ProtectionTables.mem_listRestoreJobs.symm.trans (h.listRestoreJobs id job)
    · exact ProtectionTables.mem_listPolicies.symm.trans (h.listPolicies id policy)
  · rintro ⟨hbackups, hjobs, hpolicies⟩
    refine ⟨hbackups, fun id record => ?_, fun id job => ?_, fun id policy => ?_⟩
    · rw [ProtectionTables.mem_listBackups, hbackups]
    · rw [ProtectionTables.mem_listRestoreJobs, hjobs]
    · rw [ProtectionTables.mem_listPolicies, hpolicies]

/-- A save keeps the reads exact just when it keeps the columns that are not updated. -/
theorem returnsSaved_step_iff (h : ReturnsSaved s) (hstep : step s ev = some s') :
    ReturnsSaved s' ↔ s.KeepsColumns ev := by
  have hsame := returnsSaved_iff_get?.mp h
  obtain ⟨hbackups, hjobs, hpolicies⟩ := hsame
  rw [returnsSaved_iff_get?]
  cases ev with
  | backup id record =>
      obtain rfl := Option.some.inj hstep
      by_cases hstorable : record.Storable
      · have hsave : s.tables.saveBackup id record = .ok { s.tables with
            backups := s.tables.backups.upsert StoredBackup.updated id record } :=
          if_pos hstorable
        simp only [hsave, hjobs, hpolicies, implies_true, and_true]
        rw [Dict.upsert_returns_iff hbackups, Dict.merged_eq_iff]
        simp only [StoredBackup.updated_eq_iff]
        exact ⟨fun h _ => h, fun h => h hstorable⟩
      · have hsave : s.tables.saveBackup id record = .error .overflow := if_neg hstorable
        simp only [hsave, hbackups, hjobs, hpolicies, implies_true, and_true, true_iff]
        exact fun h => absurd h hstorable
  | restoreJob id job =>
      obtain rfl := Option.some.inj hstep
      by_cases hstorable : job.Storable
      · have hsave : s.tables.saveRestoreJob id job = .ok { s.tables with
            restoreJobs := s.tables.restoreJobs.upsert StoredRestoreJob.updated id job } :=
          if_pos hstorable
        simp only [hsave, hbackups, hpolicies, implies_true, true_and, and_true]
        rw [Dict.upsert_returns_iff hjobs, Dict.merged_eq_iff]
        simp only [StoredRestoreJob.updated_eq_iff]
        exact ⟨fun h _ => h, fun h => h hstorable⟩
      · have hsave : s.tables.saveRestoreJob id job = .error .overflow := if_neg hstorable
        simp only [hsave, hbackups, hjobs, hpolicies, implies_true, and_true, true_iff]
        exact fun h => absurd h hstorable
  | policy id policy =>
      obtain rfl := Option.some.inj hstep
      by_cases hstorable : policy.Storable
      · have hsave : s.tables.savePolicy id policy = .ok { s.tables with
            policies := s.tables.policies.upsert (fun _ new => new) id policy } :=
          if_pos hstorable
        simp only [hsave, hbackups, hjobs, implies_true, true_and]
        rw [Dict.upsert_returns_iff hpolicies, Dict.merged_eq_iff]
        exact ⟨fun _ => trivial, fun _ _ _ => rfl⟩
      · have hsave : s.tables.savePolicy id policy = .error .overflow := if_neg hstorable
        simp only [hsave, hbackups, hjobs, hpolicies, implies_true, and_true, true_iff]
        trivial

/-! ## The saves of a backup -/

end Ledger

namespace StoredBackup

/-- A record with the size of its files. -/
def ofRecord (record : BackupRecord) (sizeBytes : ℤ) : StoredBackup :=
  ⟨record.backupType, record.timestamp, record.snapshotIds, record.blockCount, sizeBytes,
    record.status, record.archivePath, record.baseBackupId, record.error⟩

/-- A record without the size of its files. -/
def toRecord (r : StoredBackup) : BackupRecord :=
  ⟨r.backupType, r.timestamp, r.snapshotIds, r.blockCount.toNat, r.status, r.archivePath,
    r.baseBackupId, r.error⟩

end StoredBackup

namespace BackupCall

/-- The record that a call has made in the end, and returns if it does not raise; the ids of its
snapshots are set before the archive is built.
Source: `storage/backup_service.py`, `create_backup`. -/
def lastRecord (call : BackupCall) (built : Except String Archive) (sizeBytes : ℤ) : StoredBackup :=
  match built with
  | .ok archive => .ofRecord { call.record with
      snapshotIds := archive.metadata.snapshotIds
      blockCount := archive.metadata.blockCount
      archivePath := some (call.backupId ++ ".zip")
      status := .ready } sizeBytes
  | .error err => .ofRecord { call.record with
      snapshotIds := call.snapshotIds.toOption.getD []
      status := .failed
      error := some err } 0

/-- What a call saves, before and after it has built its archive.
Source: `storage/backup_service.py`, `create_backup`. -/
def saves (call : BackupCall) (built : Except String Archive) (sizeBytes : ℤ) : List Save :=
  [.backup call.backupId (.ofRecord call.record 0),
    .backup call.backupId (call.lastRecord built sizeBytes)]

variable {call : BackupCall} {built : Except String Archive} {sizeBytes : ℤ} {s s' : Ledger}

/-- The record of a call as the table has it in the end: without the ids of the snapshots. -/
theorem getBackup_saves (hfresh : s.tables.backups.get? call.backupId = none)
    (hfirst : (StoredBackup.ofRecord call.record 0).Storable)
    (hlast : (call.lastRecord built sizeBytes).Storable)
    (hrun : run Ledger.step s (call.saves built sizeBytes) = some s') :
    s'.tables.getBackup call.backupId =
      some { call.lastRecord built sizeBytes with snapshotIds := [] } := by
  obtain ⟨-, s₁, hs₁, hrun⟩ := runWhile_cons.mp hrun
  obtain ⟨-, s₂, hs₂, hrun⟩ := runWhile_cons.mp hrun
  obtain rfl := Option.some.inj hrun
  have hsave : s.tables.saveBackup call.backupId (.ofRecord call.record 0) = .ok { s.tables with
      backups := s.tables.backups.set call.backupId (.ofRecord call.record 0) } := by
    unfold ProtectionTables.saveBackup Dict.upsert
    rw [if_pos hfirst, Dict.merged_of_none hfresh]
  simp only [Ledger.step, hsave] at hs₁
  obtain rfl := Option.some.inj hs₁
  simp only [Ledger.step, ProtectionTables.saveBackup, if_pos hlast] at hs₂
  obtain rfl := Option.some.inj hs₂
  unfold ProtectionTables.getBackup Dict.upsert
  rw [Dict.get?_set_self, Dict.merged_of_some Dict.get?_set_self]
  unfold lastRecord
  rcases built with err | archive <;> rfl

/-- A backup is read back as it was returned only if it is of no snapshots. -/
theorem getBackup_saves_iff (hfresh : s.tables.backups.get? call.backupId = none)
    (hfirst : (StoredBackup.ofRecord call.record 0).Storable)
    (hlast : (call.lastRecord built sizeBytes).Storable)
    (hrun : run Ledger.step s (call.saves built sizeBytes) = some s') :
    s'.tables.getBackup call.backupId = some (call.lastRecord built sizeBytes) ↔
      (call.lastRecord built sizeBytes).snapshotIds = [] := by
  rw [getBackup_saves hfresh hfirst hlast hrun, Option.some.injEq]
  constructor
  · intro h
    exact (congrArg StoredBackup.snapshotIds h).symm
  · intro h
    rw [← h]

/-- The rows of a backup service are those of the table, without the sizes. -/
theorem toRecord_getBackup_saves {refuses : String → Option String} {store : SnapshotStore}
    {S : Backups} (hfresh : s.tables.backups.get? call.backupId = none)
    (hnone : S.getBackup call.backupId = none)
    (hbuilt : (S.saveBackup call.backupId call.record).buildArchive refuses store call = built)
    (hfirst : (StoredBackup.ofRecord call.record 0).Storable)
    (hlast : (call.lastRecord built sizeBytes).Storable)
    (hrun : run Ledger.step s (call.saves built sizeBytes) = some s') :
    (s'.tables.getBackup call.backupId).map StoredBackup.toRecord =
      (S.createBackup refuses store call).1.getBackup call.backupId := by
  have hrecords : S.records.get? call.backupId = none := hnone
  rw [getBackup_saves hfresh hfirst hlast hrun, Option.map_some]
  unfold Backups.createBackup
  simp only [hbuilt]
  unfold lastRecord Backups.getBackup
  rcases built with err | archive <;>
    simp only [Backups.saveBackup, hrecords, Dict.get?_set_self] <;> rfl

end BackupCall

namespace Ledger

/-! ## The statement -/

/-- After every save the tables return what was last saved under each id, just when no save is to
change a column of a row that the statement does not update. -/
theorem returnsSaved_iff (saves : List Save) :
    Throughout step ReturnsSaved init saves ↔ StepsMeet step KeepsColumns init saves := by
  refine throughout_iff_stepsMeet (fun _ h => h) ?_ ?_ ?_
  · exact fun s ev s' h hkeeps hstep => (returnsSaved_step_iff h hstep).mpr hkeeps
  · exact fun s ev s' h hkeeps hstep => mt (returnsSaved_step_iff h hstep).mp hkeeps
  · exact returnsSaved_iff_get?.mpr ⟨fun _ => rfl, fun _ => rfl, fun _ => rfl⟩

/-- A call that backs up one snapshot. -/
def oneSnapshotBackup : BackupCall :=
  ⟨"bk1", .full, none, .ok ["s1"], 1000, 1, Dict.empty⟩

/-- A backup is read back without the ids of its snapshots. -/
theorem returnsSaved_counterexample : ¬ ∀ (call : BackupCall) (built : Except String Archive)
    (sizeBytes : ℤ), Throughout step ReturnsSaved init (call.saves built sizeBytes) := by
  intro h
  have hthroughout := h oneSnapshotBackup
    (.ok ⟨⟨"bk1", .full, 1000, ["s1"], 1, Dict.empty, 0⟩, Dict.empty, Dict.empty⟩) 300
  have hrun : (run step init (oneSnapshotBackup.saves
      (.ok ⟨⟨"bk1", .full, 1000, ["s1"], 1, Dict.empty, 0⟩, Dict.empty, Dict.empty⟩) 300)).map
        (fun s => ((s.tables.getBackup "bk1").map StoredBackup.snapshotIds,
          (s.saved.backups.get? "bk1").map StoredBackup.snapshotIds)) =
      some (some [], some ["s1"]) := by decide +kernel
  obtain ⟨s, hs, hpair⟩ := Option.map_eq_some_iff.mp hrun
  obtain ⟨hread, hsaved⟩ := Prod.mk.inj hpair
  rw [(hthroughout.of_run hs).getBackup, hsaved] at hread
  revert hread
  decide

end Ledger

end NanoFabric.Storage
