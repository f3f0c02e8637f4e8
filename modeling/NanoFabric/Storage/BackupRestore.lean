import NanoFabric.Storage.BackupService
import NanoFabric.Storage.ClusterRestore

/-!
# Restoring a backup into an engine

`RestoreService.restore_backup` of `storage/restore_service.py`, over any block writer and over an
engine that is purged first.

* `restoreBackup_congr` — archives with the same blocks and placements restore alike.
* `restoreBackup_completed` — a restore that ends `COMPLETED` left the live blocks of the archive live
  with their data.
* `liveData_restoreBackup_of_notMem` — it leaves no other block.
-/

namespace NanoFabric.Node

/-- The text of an exception.
Source: `node/errors.py`. -/
def StorageError.text : StorageError → String
  | .validation message => message
  | .versionConflict blockId requested current =>
      "version conflict for " ++ blockId ++ ": requested " ++ toString requested ++ ", current " ++
        toString current
  | .overflow => "Python int too large to convert to SQLite INTEGER"

end NanoFabric.Node

namespace NanoFabric.Storage

open NanoFabric.Found
open NanoFabric.Node (EngineOp Row StorageError)

/-! ## The service -/

section Service

variable {W : Type}

/-- Writes or deletes a block as the archive has it.
Source: `storage/restore_service.py`, `restore_backup`. -/
def RestoreWiring.restoreBackupBlock (R : RestoreWiring W) (block : SnapshotBlock) : Call W :=
  if block.deleted then R.deleteLocal block.blockId block.version
  else match block.data with
    | some data => R.writeLocal block.blockId data block.version
    | none => fun w => (w, .error "data must be str")

/-- The calls of a restore: the purge, the blocks of the archive, and the placements.
Source: `storage/restore_service.py`, `restore_backup`. -/
def RestoreWiring.applyBackup (R : RestoreWiring W) (blocks : List SnapshotBlock)
    (placements : Dict String (List String)) : Call W :=
  R.clear.andThen ((forEach R.restoreBackupBlock blocks : Call W).andThen
    (forEach (fun item => R.restorePlacement item.1 1 item.2) placements.entries))

/-- The blocks after a restore, and the job.
Source: `storage/restore_service.py`, `restore_backup`. -/
def RestoreWiring.restoreBackup (R : RestoreWiring W) (S : Backups) (w : W) (backupId : String) :
    W × RestoreJob :=
  match S.extractBackupBlocks backupId with
  | .error e => (w, ⟨backupId, .failed, some e⟩)
  | .ok (metadata, blocks) =>
      match R.applyBackup blocks metadata.placements w with
      | (w', .ok ()) => (w', ⟨backupId, .completed, none⟩)
      | (w', .error e) => (w', ⟨backupId, .failed, some e⟩)

variable {R : RestoreWiring W} {S S' : Backups} {backupId : String} {archive : Archive} {w : W}

/-- What a restore makes of an archive. -/
theorem RestoreWiring.restoreBackup_eq (h : S.archiveOf backupId = .ok archive) :
    (R.restoreBackup S w backupId).1 =
        (R.applyBackup archive.blockList archive.metadata.placements w).1 ∧
      ((R.restoreBackup S w backupId).2.status = .completed →
        (R.applyBackup archive.blockList archive.metadata.placements w).2 = .ok ()) := by
  obtain ⟨metadata, hextract, hplacements⟩ := Backups.extractBackupBlocks_eq h
  unfold RestoreWiring.restoreBackup
  rw [hextract, ← hplacements]
  simp only
  rcases R.applyBackup archive.blockList metadata.placements w with ⟨w', _ | _⟩
  · exact ⟨rfl, fun h => by cases h⟩
  · exact ⟨rfl, fun _ => rfl⟩

/-- Archives with the same blocks and placements restore alike. -/
theorem RestoreWiring.restoreBackup_congr {archive' : Archive}
    (h : S.archiveOf backupId = .ok archive) (h' : S'.archiveOf backupId = .ok archive')
    (hblocks : archive.blockList = archive'.blockList)
    (hplacements : archive.metadata.placements = archive'.metadata.placements) :
    (R.restoreBackup S w backupId).1 = (R.restoreBackup S' w backupId).1 := by
  rw [(R.restoreBackup_eq h).1, (R.restoreBackup_eq h').1, hblocks, hplacements]

end Service

/-! ## An engine as the target -/

namespace LocalEngine

/-- Source: `storage/cluster_bridge.py`, `EngineBlockAdapter.write_local`. -/
def writeLocal (blockId data : String) (version : ℤ) : Call LocalEngine := fun e =>
  (e.call (.writeLocal blockId data (.idempotent version) none none),
    match (e.running.engine.writeLocal e.running.disk blockId data (.idempotent version) none
      none).result with
    | .ok _ => .ok ()
    | .error err => .error err.text)

/-- Source: `storage/cluster_bridge.py`, `EngineBlockAdapter.delete_local`. -/
def deleteLocal (blockId : String) (version : ℤ) : Call LocalEngine := fun e =>
  (e.call (.deleteLocal blockId (some version) none none true),
    match (e.running.engine.deleteLocal e.running.disk blockId (some version) none none true).result
      with
    | .ok _ => .ok ()
    | .error err => .error err.text)

/-- A restore into an engine that is purged first, with the registry `M` of its placements.
Source: `tests/test_disaster_recovery.py`, `_build_stack`. -/
def restoring {M : Type} (order : SetOrder) (restorePlacement : String → ℤ → List String → Call M) :
    RestoreWiring (LocalEngine × M) where
  writeLocal blockId data version w :=
    let out := writeLocal blockId data version w.1
    ((out.1, w.2), out.2)
  deleteLocal blockId version w :=
    let out := deleteLocal blockId version w.1
    ((out.1, w.2), out.2)
  listBlocks w := w.1.listBlocks
  restorePlacement blockId version nodes w :=
    let out := restorePlacement blockId version nodes w.2
    ((w.1, out.1), out.2)
  clearBlocks := some fun w => ((w.1.call .purgeAllBlocks, w.2), .ok ())
  order := order

variable {e : LocalEngine} {b : String}

/-- A call leaves the rows of other blocks alone, unless it purges. -/
theorem rows_call_of_ne {op : EngineOp} (hb : op.target ≠ some b) (hpurge : op ≠ .purgeAllBlocks) :
    (e.call op).rows b = e.rows b := by
  have hcalls := e.running.call_cases op
  unfold rows LocalEngine.call Node.Running.run
  simp only
  generalize (e.running.call op).1 = engine at hcalls ⊢
  generalize (e.running.call op).2 = effects at hcalls ⊢
  cases hcalls with
  | quiet hm hcoh => rfl
  | stored hm hok hcoh =>
      rename_i m cache
      refine Registers.put_of_ne ?_
      rintro rfl
      exact hb (EngineOp.target_eq_of_mutation hm)
  | rejected hm hno => rfl
  | purged => exact absurd rfl hpurge
  | checkpointed t => rfl

/-- A purge leaves no row. -/
theorem rows_purge (e : LocalEngine) (b : String) : (e.call .purgeAllBlocks).rows b = none := rfl

theorem liveData_congr {e' : LocalEngine} (h : e'.rows b = e.rows b) :
    e'.liveData b = e.liveData b := by
  unfold liveData liveRow
  rw [show e'.running.disk.db.blocks b = e.running.disk.db.blocks b from h]

/-- A write to a block without a row leaves it live. -/
theorem liveData_writeLocal {data : String} {version : ℤ} (hnone : e.rows b = none)
    (hok : (writeLocal b data version e).2 = .ok ()) :
    (writeLocal b data version e).1.liveData b = some data := by
  have hopen : e.running.disk.db.Open b version := fun row hrow => by
    rw [show e.running.disk.db.blocks b = none from hnone] at hrow
    cases hrow
  by_cases hstorable : e.running.Storable version none
  · obtain ⟨-, hdb⟩ := Node.Running.writeLocal_of_open data none hopen hstorable
    have hrow : (writeLocal b data version e).1.rows b = some (.live data version
        (e.running.engine.effectiveOrigin none) e.running.engine.oplog.nextLsn) := by
      show (e.running.run _).disk.db.blocks b = _
      rw [hdb]
      simp only [Node.ExtentStore.offer, Registers.put_same,
        show e.running.disk.db.blocks b = none from hnone]
      rfl
    unfold liveData liveRow
    rw [show (writeLocal b data version e).1.running.disk.db.blocks b = _ from hrow]
    rfl
  · have hres := Node.Running.writeLocal_of_not_storable data none hopen hstorable
    unfold writeLocal at hok
    simp only [hres] at hok
    cases hok

/-! ### The blocks of an archive -/

variable {M : Type} (order : SetOrder) (restorePlacement : String → ℤ → List String → Call M)

/-- A block that is restored leaves the rows of other blocks alone. -/
theorem rows_restoreBackupBlock_of_ne {block : SnapshotBlock} (hb : block.blockId ≠ b)
    (w : LocalEngine × M) :
    ((restoring order restorePlacement).restoreBackupBlock block w).1.1.rows b = w.1.rows b := by
  have htarget : some block.blockId ≠ some b := fun h => hb (Option.some.inj h)
  unfold RestoreWiring.restoreBackupBlock
  split
  · exact rows_call_of_ne htarget (by simp)
  · cases block.data with
    | some data => exact rows_call_of_ne htarget (by simp)
    | none => rfl

/-- The blocks that are restored leave the rows of other blocks alone. -/
theorem rows_restoreBlocks_of_notMem {blocks : List SnapshotBlock} (w : LocalEngine × M)
    (hb : b ∉ blocks.map SnapshotBlock.blockId) :
    (forEach (restoring order restorePlacement).restoreBackupBlock blocks w).1.1.rows b =
      w.1.rows b := by
  apply forEach_induction (P := fun w' : LocalEngine × M => w'.1.rows b = w.1.rows b) _ rfl
  intro block hblock w' hw'
  rw [rows_restoreBackupBlock_of_ne order restorePlacement _ w', hw']
  rintro rfl
  exact hb (List.mem_map_of_mem hblock)

/-- The live blocks are live with their data once all blocks are restored, if none was there. -/
theorem restoreBlocks_completed {blocks : List SnapshotBlock} {w w' : LocalEngine × M}
    (hids : (blocks.map SnapshotBlock.blockId).Nodup)
    (hnone : ∀ block ∈ blocks, w.1.rows block.blockId = none)
    (h : forEach (restoring order restorePlacement).restoreBackupBlock blocks w = (w', .ok ())) :
    ∀ block ∈ blocks, block.deleted = false →
      block.data.isSome ∧ w'.1.liveData block.blockId = block.data := by
  induction blocks generalizing w with
  | nil => exact fun _ h => absurd h List.not_mem_nil
  | cons block blocks ih =>
      rw [List.map_cons, List.nodup_cons] at hids
      unfold forEach at h
      split at h
      swap
      · cases h
      rename_i w₁ hblock
      have hframe : ∀ b, block.blockId ≠ b → w₁.1.rows b = w.1.rows b := by
        intro b hb
        have := rows_restoreBackupBlock_of_ne order restorePlacement hb w
        rwa [hblock] at this
      have hrest := ih hids.2 (fun block' hblock' => by
        rw [hframe _ (fun heq => hids.1 (heq ▸ List.mem_map_of_mem hblock'))]
        exact hnone block' (List.mem_cons_of_mem block hblock')) h
      intro block' hblock' hlive
      rcases List.mem_cons.mp hblock' with rfl | hblock'
      swap
      · exact hrest block' hblock' hlive
      have htail : w'.1.rows block'.blockId = w₁.1.rows block'.blockId := by
        have := rows_restoreBlocks_of_notMem order restorePlacement w₁ hids.1
        rwa [h] at this
      rw [liveData_congr htail]
      unfold RestoreWiring.restoreBackupBlock at hblock
      rw [if_neg (by simp [hlive])] at hblock
      rcases hdata : block'.data with _ | data
      · rw [hdata] at hblock
        cases hblock
      · rw [hdata] at hblock
        obtain ⟨hw₁, hok⟩ := Prod.mk.inj hblock
        rw [← hw₁]
        exact ⟨rfl, liveData_writeLocal (hnone block' List.mem_cons_self) hok⟩

/-- The engine after a restore is what its blocks make of the purged one. -/
theorem engine_applyBackup (blocks : List SnapshotBlock) (placements : Dict String (List String))
    (w : LocalEngine × M) :
    ((restoring order restorePlacement).applyBackup blocks placements w).1.1 =
        (forEach (restoring order restorePlacement).restoreBackupBlock blocks
          (w.1.call .purgeAllBlocks, w.2)).1.1 ∧
      (((restoring order restorePlacement).applyBackup blocks placements w).2 = .ok () →
        (forEach (restoring order restorePlacement).restoreBackupBlock blocks
          (w.1.call .purgeAllBlocks, w.2)).2 = .ok ()) := by
  have hclear : (restoring order restorePlacement).clear w =
      ((w.1.call .purgeAllBlocks, w.2), .ok ()) := rfl
  unfold RestoreWiring.applyBackup
  rw [Call.andThen_of_ok hclear]
  rcases hblocks : forEach (restoring order restorePlacement).restoreBackupBlock blocks
    (w.1.call .purgeAllBlocks, w.2) with ⟨w₁, err | ⟨⟩⟩
  · rw [Call.andThen_of_error hblocks]
    exact ⟨rfl, fun h => by cases h⟩
  · rw [Call.andThen_of_ok hblocks]
    refine ⟨?_, fun _ => rfl⟩
    apply forEach_induction (P := fun w' : LocalEngine × M => w'.1 = w₁.1) _ rfl
    exact fun _ _ _ hw' => hw'

/-- A restore that ends `COMPLETED` left the live blocks of the archive live with their data. -/
theorem restoreBackup_completed {S : Backups} {backupId : String} {archive : Archive}
    {w : LocalEngine × M} (h : S.archiveOf backupId = .ok archive)
    (hids : (archive.blockList.map SnapshotBlock.blockId).Nodup)
    (hdone : ((restoring order restorePlacement).restoreBackup S w backupId).2.status = .completed) :
    ∀ block ∈ archive.blockList, block.deleted = false → block.data.isSome ∧
      ((restoring order restorePlacement).restoreBackup S w backupId).1.1.liveData block.blockId =
        block.data := by
  obtain ⟨hworld, hok⟩ :=
    RestoreWiring.restoreBackup_eq (R := restoring order restorePlacement) (w := w) h
  obtain ⟨hengine, hloop⟩ :=
    engine_applyBackup order restorePlacement archive.blockList archive.metadata.placements w
  have hrun : forEach (restoring order restorePlacement).restoreBackupBlock archive.blockList
      (w.1.call .purgeAllBlocks, w.2) = (_, .ok ()) := Prod.ext rfl (hloop (hok hdone))
  rw [hworld, hengine]
  exact restoreBlocks_completed order restorePlacement hids (fun block _ => rows_purge _ _) hrun

/-- A restore leaves no block that is not in the archive. -/
theorem liveData_restoreBackup_of_notMem {S : Backups} {backupId : String} {archive : Archive}
    (w : LocalEngine × M) (h : S.archiveOf backupId = .ok archive)
    (hb : b ∉ archive.blockList.map SnapshotBlock.blockId) :
    ((restoring order restorePlacement).restoreBackup S w backupId).1.1.liveData b = none := by
  obtain ⟨hworld, -⟩ := RestoreWiring.restoreBackup_eq (R := restoring order restorePlacement) (w := w) h
  obtain ⟨hengine, -⟩ :=
    engine_applyBackup order restorePlacement archive.blockList archive.metadata.placements w
  rw [hworld, hengine, liveData_congr (rows_restoreBlocks_of_notMem order restorePlacement _ hb)]
  rfl

end LocalEngine

end NanoFabric.Storage
