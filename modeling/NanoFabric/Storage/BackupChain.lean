import NanoFabric.Storage.BackupRestore
import NanoFabric.Storage.SnapshotFidelity

/-!
# Chains of backups

Backups of one engine, full and incremental ones on any base, as they follow each other among writes,
deletes, snapshots and restores. Beside each backup stands its twin, the full backup that the same call
would have taken.

* `Undeleted.step` — no snapshot has a tombstone.
* `blocks_of_buildArchive` — an incremental backup has the captured blocks that are not in its base.
* `Vault.restoresAsFull_iff` — a run of backups that leave out nothing a full one would keep restores
  like full ones, and only such a run does.
* `Vault.restoresAsFull_counterexample` — a block that did not change since the base is gone.
-/

namespace NanoFabric.Storage

open NanoFabric.Found
open NanoFabric.Node (EngineOp)

/-! ## Snapshots without tombstones -/

namespace SnapshotStore

/-- No contents are those of a tombstone. -/
def Undeleted (s : SnapshotStore) : Prop :=
  ∀ w row, s.blockVersions.get? w = some row → row.deleted = false

variable {s s' : SnapshotStore}

theorem Undeleted.of_map (h : s.Undeleted) (hrows : ∀ w row', s'.blockVersions.get? w = some row' →
    ∃ row, s.blockVersions.get? w = some row ∧ row'.deleted = row.deleted) : s'.Undeleted := by
  intro w row' hrow'
  obtain ⟨row, hrow, hdel⟩ := hrows w row' hrow'
  exact hdel.trans (h w row hrow)

theorem Undeleted.getOrCreateBlockVersion {b w newId : String} {v : ℤ} {data : Option String}
    (h : s.Undeleted) (hok : s.getOrCreateBlockVersion b v data false newId = .ok (s', w)) :
    s'.Undeleted := by
  unfold SnapshotStore.getOrCreateBlockVersion at hok
  by_cases hbind : Node.Bindable v
  swap
  · rw [if_pos hbind] at hok
    cases hok
  rw [if_neg (not_not.mpr hbind)] at hok
  split at hok
  · rename_i w₀ hshared
    simp only [Except.ok.injEq, Prod.mk.injEq] at hok
    obtain ⟨rfl, -⟩ := hok
    apply h.of_map
    intro w row' hrow'
    rw [Dict.get?_modify] at hrow'
    obtain ⟨row, hrow, rfl⟩ := Option.map_eq_some_iff.mp hrow'
    refine ⟨row, hrow, ?_⟩
    split <;> rfl
  · split_ifs at hok with hcontains
    simp only [Except.ok.injEq, Prod.mk.injEq] at hok
    obtain ⟨rfl, -⟩ := hok
    intro w row hrow
    rw [Dict.get?_set] at hrow
    split at hrow
    · obtain rfl := Option.some.inj hrow
      rfl
    · exact h w row hrow

theorem Undeleted.collected {rows : Dict String BlockVersion} (h : s.Undeleted)
    (hrows : ∀ w, (rows.get? w).map BlockVersion.deleted =
      (s.blockVersions.get? w).map BlockVersion.deleted)
    (hs' : s'.blockVersions = Found.collected BlockVersion.counter rows) : s'.Undeleted := by
  apply h.of_map
  intro w row' hrow'
  rw [hs'] at hrow'
  unfold Found.collected at hrow'
  rw [Dict.get?_filter, Option.filter_eq_some_iff] at hrow'
  have hmap := hrows w
  rw [hrow'.1, Option.map_some] at hmap
  obtain ⟨row, hrow, hdel⟩ := Option.map_eq_some_iff.mp hmap.symm
  exact ⟨row, hrow, hdel.symm⟩

theorem Undeleted.deleteSnapshot {sid : String} {size : ℕ} (h : s.Undeleted)
    (hdel : s.deleteSnapshot sid = some (s', size)) : s'.Undeleted := by
  obtain ⟨row, -, hdel⟩ := Option.map_eq_some_iff.mp hdel
  simp only [Prod.mk.injEq] at hdel
  obtain ⟨rfl, -⟩ := hdel
  exact h.collected (fun w => get?_lowered BlockVersion.deleted (fun _ _ => rfl) _ _ _) rfl

theorem Undeleted.reclaimOrphanBlocks (h : s.Undeleted) : s.reclaimOrphanBlocks.Undeleted :=
  h.collected (fun _ => rfl) rfl

theorem Undeleted.of_sameBlocks (h : s.Undeleted) (hsame : SameBlocks s s') : s'.Undeleted := by
  unfold Undeleted
  rw [hsame.blockVersions]
  exact h

/-- A snapshot has no tombstone. -/
theorem Undeleted.deleted_eq {sid : String} {block : SnapshotBlock} (h : s.Undeleted)
    (hblock : block ∈ s.getSnapshotBlocks sid) : block.deleted = false := by
  obtain ⟨w, -, hrow⟩ := Option.bind_eq_some_iff.mp (mem_getSnapshotBlocks.mp hblock)
  obtain ⟨row, hrow, hcontent⟩ := Option.map_eq_some_iff.mp hrow
  exact (congrArg SnapshotBlock.deleted hcontent).symm.trans (h w row hrow)

end SnapshotStore

namespace Protection

open SnapshotStore

variable {W ρ χ : Type} {R : Wiring W ρ χ} {s s' : Protection W}

/-- No contents are those of a tombstone, and none is about to be shared. -/
structure Undeleted (s : Protection W) : Prop where
  store : s.store.Undeleted
  captured : ∀ sid count size block unread,
    s.creation = some ⟨sid, count, size, .captured block unread⟩ → block.deleted = false

theorem Undeleted.init (w : W) : Undeleted (Protection.init w) where
  store _ _ h := by cases h
  captured _ _ _ _ _ h := by cases h

/-- Steps that share nothing, and leave a creation alone or end it. -/
theorem Undeleted.of_store (h : Undeleted s) (hstore : s'.store.Undeleted)
    (hcreation : s'.creation = s.creation ∨ s'.creation = none) : Undeleted s' := by
  refine ⟨hstore, fun sid count size block unread hc => ?_⟩
  rcases hcreation with hsame | hnone
  · exact h.captured sid count size block unread (hsame ▸ hc)
  · rw [hnone] at hc
    cases hc

/-- No snapshot is given a tombstone. -/
theorem Undeleted.step {ev : ProtectionEvent ρ χ} (h : Undeleted s)
    (hstep : Protection.step R s ev = some s') : Undeleted s' := by
  cases ev with
  | change c =>
      obtain rfl := Option.some.inj hstep
      exact h.of_store h.store (Or.inl rfl)
  | create sid now version placements =>
      obtain rfl | ⟨-, -, store, hstore, rfl⟩ := create_eq_some hstep
      · exact h
      · obtain ⟨hversions, -, -⟩ := createSnapshotRecord_ok hstore
        refine ⟨?_, fun _ _ _ _ _ hc => by cases hc⟩
        unfold SnapshotStore.Undeleted
        rw [hversions]
        exact h.store
  | list =>
      obtain ⟨sid, count, size, -, rfl⟩ := list_eq_some hstep
      exact ⟨h.store, fun _ _ _ _ _ hc => by cases hc⟩
  | read r =>
      obtain ⟨sid, count, size, b, unread, -, ⟨-, rfl⟩ | ⟨view, size', hview, rfl⟩⟩ :=
        read_eq_some hstep
      · exact ⟨h.store, fun _ _ _ _ _ hc => by cases hc⟩
      · refine ⟨h.store, fun _ _ _ _ _ hc => ?_⟩
        cases hc
        exact R.live_of_readBlock _ _ _ _ hview
  | share newId =>
      obtain ⟨sid, count, size, block, unread, hc, ⟨error, rfl⟩ | ⟨store, w, hshare, rfl⟩⟩ :=
        share_eq_some hstep
      · exact h.of_store (h.store.of_sameBlocks (sameBlocks_finalizeSnapshot _ _ _ _ _ _))
          (Or.inr rfl)
      · rw [h.captured _ _ _ _ _ hc] at hshare
        exact ⟨h.store.getOrCreateBlockVersion hshare, fun _ _ _ _ _ hc => by cases hc⟩
  | add =>
      obtain ⟨sid, count, size, b, w, unread, -, rfl⟩ := add_eq_some hstep
      exact ⟨h.store, fun _ _ _ _ _ hc => by cases hc⟩
  | finish =>
      obtain ⟨sid, count, size, -, rfl⟩ := finish_eq_some hstep
      exact h.of_store (h.store.of_sameBlocks (sameBlocks_finalizeSnapshot _ _ _ _ _ _)) (Or.inr rfl)
  | raise error recorded =>
      obtain ⟨c, -, rfl⟩ := Option.map_eq_some_iff.mp hstep
      split
      · exact h.of_store (h.store.of_sameBlocks (sameBlocks_finalizeSnapshot _ _ _ _ _ _))
          (Or.inr rfl)
      · exact h.of_store h.store (Or.inr rfl)
  | delete sid =>
      obtain ⟨-, rfl | ⟨store, size, hdel, rfl⟩⟩ := delete_eq_some hstep
      · exact h
      · exact h.of_store (h.store.deleteSnapshot hdel) (Or.inl rfl)
  | reclaim =>
      obtain rfl := Option.some.inj hstep
      exact h.of_store h.store.reclaimOrphanBlocks (Or.inl rfl)
  | recover =>
      obtain rfl := Option.some.inj hstep
      exact h.of_store (h.store.of_sameBlocks (sameBlocks_recoverInterruptedSnapshots _)) (Or.inl rfl)
  | crash =>
      obtain rfl := Option.some.inj hstep
      exact h.of_store h.store (Or.inr rfl)
  | restore sid =>
      obtain rfl := Option.some.inj hstep
      rcases s.restore_cases sid with heq | ⟨snapshot, -, -, heq⟩
      · rwa [heq]
      · rw [heq]
        exact h.of_store h.store (Or.inl rfl)
  | mark i =>
      obtain ⟨sid, live, -, rfl⟩ := mark_eq_some hstep
      exact h.of_store (h.store.of_sameBlocks (sameBlocks_updateStatus _ _ _)) (Or.inl rfl)
  | load i =>
      obtain ⟨sid, live, -, rfl⟩ := load_eq_some hstep
      exact h.of_store h.store (Or.inl rfl)
  | sweep i =>
      obtain ⟨sid, live, blocks, -, rfl⟩ := sweep_eq_some hstep
      exact h.of_store h.store (Or.inl rfl)
  | endRestore i =>
      obtain ⟨r, -, rfl⟩ := endRestore_eq_some hstep
      exact h.of_store (h.store.of_sameBlocks (sameBlocks_updateStatus _ _ _)) (Or.inl rfl)

end Protection

/-! ## What a backup leaves out -/

section Archives

variable {refuses : String → Option String} {store : SnapshotStore} {S : Backups}
  {call : BackupCall} {sid : String} {archive archive' : Archive}

/-- A captured block that no later one overwrites. -/
def Kept (blocks : List SnapshotBlock) (block : SnapshotBlock) : Prop :=
  (blocks.filter fun block' => block'.filename = block.filename).getLast? = some block

instance (blocks : List SnapshotBlock) (block : SnapshotBlock) : Decidable (Kept blocks block) :=
  inferInstanceAs (Decidable (_ = _))

theorem nodup_capturedBlocks (store : SnapshotStore) (sid : String) :
    ((capturedBlocks store [sid]).map SnapshotBlock.blockId).Nodup := by
  unfold capturedBlocks
  rw [List.flatMap_singleton]
  split
  · exact List.nodup_nil
  · exact store.nodup_getSnapshotBlocks sid

theorem deleted_eq_of_mem_capturedBlocks {block : SnapshotBlock} (h : store.Undeleted)
    (hblock : block ∈ capturedBlocks store [sid]) : block.deleted = false := by
  unfold capturedBlocks at hblock
  rw [List.flatMap_singleton] at hblock
  split at hblock
  · cases hblock
  · exact h.deleted_eq hblock

/-- The blocks of a backup of one snapshot: those captured that are not in its base. -/
theorem values_collectBlocks (backupType : BackupType) (base : Dict String SnapshotBlock)
    (store : SnapshotStore) (sid : String) :
    (collectBlocks backupType base store [sid]).values =
      (capturedBlocks store [sid]).filter fun block => !omits backupType base block := by
  rw [collectBlocks_eq]
  apply Dict.values_collect_of_nodup
  have hids : (((capturedBlocks store [sid]).filter fun block =>
      !omits backupType base block).map SnapshotBlock.blockId).Nodup :=
    (nodup_capturedBlocks store sid).sublist (List.filter_sublist.map _)
  rw [List.nodup_map_iff_inj_on hids.of_map]
  intro block hblock block' hblock' hkey
  exact List.inj_on_of_nodup_map hids hblock hblock' (blockKey_inj.mp hkey).1

/-- What a call puts into the archive of one snapshot. -/
theorem blocks_of_buildArchive (hsid : call.snapshotIds = .ok [sid])
    (h : S.buildArchive refuses store call = .ok archive) : ∃ base, S.baseBlocks call = .ok base ∧
      archive.blocks = Dict.collect SnapshotBlock.filename
        ((capturedBlocks store [sid]).filter fun block => !omits call.backupType base block) ∧
      archive.metadata.placements = call.placements := by
  obtain ⟨sids, base, hsids, hbase, -, hblocks, hplacements⟩ := Backups.buildArchive_eq_ok h
  obtain rfl : sids = [sid] := Except.ok.inj (hsids.symm.trans hsid)
  rw [values_collectBlocks] at hblocks
  exact ⟨base, hbase, hblocks, hplacements⟩

/-- A file directory is listed by the names and the files alone. -/
theorem namelist_congr {β : Type} {files files' : Dict String β}
    (h : ∀ name, files.get? name = files'.get? name) : namelist files = namelist files' := by
  have htotal : Std.Total fun file file' : String × β => file.1 ≤ file'.1 :=
    ⟨fun file file' => le_total file.1 file'.1⟩
  have htrans : IsTrans (String × β) fun file file' => file.1 ≤ file'.1 :=
    ⟨fun _ _ _ => le_trans⟩
  have hperm : (namelist files).Perm (namelist files') :=
    (List.perm_insertionSort _ _).trans
      ((Dict.perm_entries h).trans (List.perm_insertionSort _ _).symm)
  refine List.Perm.eq_of_pairwise ?_ (List.pairwise_insertionSort _ _)
    (List.pairwise_insertionSort _ _) hperm
  rintro ⟨name, file⟩ ⟨name', file'⟩ hmem hmem' hle hle'
  obtain rfl : name = name' := le_antisymm hle hle'
  rw [← hperm.mem_iff] at hmem'
  have hget : ∀ {file}, (name, file) ∈ namelist files → files.get? name = some file := fun hmem =>
    Dict.mem_entries.mp ((List.perm_insertionSort _ _).mem_iff.mp hmem)
  exact congrArg _ (Option.some.inj ((hget hmem).symm.trans (hget hmem')))

/-- A backup whose base has nothing that a full one would keep has the blocks of a full one. -/
theorem blockList_eq_of_kept {base : Dict String SnapshotBlock} {blocks : List SnapshotBlock}
    (hblocks : archive.blocks = Dict.collect SnapshotBlock.filename
      (blocks.filter fun block => !omits call.backupType base block))
    (hblocks' : archive'.blocks = Dict.collect SnapshotBlock.filename blocks)
    (hkept : ∀ block ∈ blocks, Kept blocks block → base.contains (blockKey block) = false) :
    archive.blockList = archive'.blockList := by
  unfold Archive.blockList
  rw [namelist_congr fun name => ?_]
  rw [hblocks, hblocks']
  apply Dict.get?_collect_filter
  intro block hblock
  have hbase := hkept block (Dict.mem_of_mem_values_collect hblock)
    (Dict.mem_values_collect.mp hblock)
  simp [omits, hbase]

end Archives

/-! ## Runs of backups -/

/-- A call of `create_backup` for one snapshot, or whose snapshot failed. -/
def BackupCall.ofOneSnapshot (call : BackupCall) : Bool :=
  match call.snapshotIds with
  | .ok sids => sids.length = 1
  | .error _ => true

/-- The same call for a full backup. -/
def BackupCall.asFull (call : BackupCall) : BackupCall := { call with backupType := .full }

/-- An engine, its snapshots and its backups, with what the backups would be if the call that took a
backup had been one for a full backup. -/
structure Vault where
  protection : Protection LocalEngine
  backups : Backups
  twins : Dict String Backups

/-- The steps: those of the engine, of snapshots and of restores, and calls of `create_backup`. -/
inductive VaultEvent
  | protect (ev : ProtectionEvent Unit EngineOp)
  | backup (call : BackupCall)

namespace Vault

/-- No backup has been taken. -/
def init (e : LocalEngine) : Vault := ⟨.init e, .empty, Dict.empty⟩

/-- A call of `create_backup` under a new id. A backup has a twin if neither call raises. -/
def backup (refuses : String → Option String) (S : Vault) (call : BackupCall) : Vault :=
  let out := S.backups.createBackup refuses S.protection.store call
  let full := S.backups.createBackup refuses S.protection.store call.asFull
  { S with
    backups := out.1
    twins := match out.2, full.2 with
      | .ok _, .ok _ => S.twins.set call.backupId full.1
      | _, _ => S.twins }

/-- One step, if it can happen. -/
def step (refuses : String → Option String) (S : Vault) : VaultEvent → Option Vault
  | .protect ev =>
      (Protection.step LocalEngine.adapter S.protection ev).map fun protection =>
        { S with protection }
  | .backup call =>
      if S.backups.records.get? call.backupId = none ∧ call.ofOneSnapshot then
        some (S.backup refuses call)
      else none

section Restores

variable {M : Type} (order : SetOrder) (restorePlacement : String → ℤ → List String → Call M)
  {refuses : String → Option String} {S S' : Vault} {call : BackupCall} {id : String}

/-- Every backup restores like its twin, into any engine: the same blocks are live, with the same
data. -/
def RestoresAsFull (S : Vault) : Prop :=
  ∀ id twin, S.twins.get? id = some twin → ∀ (w : LocalEngine × M) b,
    ((LocalEngine.restoring order restorePlacement).restoreBackup S.backups w id).1.1.liveData b =
      ((LocalEngine.restoring order restorePlacement).restoreBackup twin w id).1.1.liveData b

/-- The base of a backup has no version of a block that a full backup would keep. -/
def LeavesNothingOut (S : Vault) : VaultEvent → Prop
  | .protect _ => True
  | .backup call => ∀ sids ∈ call.snapshotIds.toOption,
      ∀ base ∈ ((S.backups.saveBackup call.backupId call.record).baseBlocks call).toOption,
        ∀ block ∈ capturedBlocks S.protection.store sids,
          Kept (capturedBlocks S.protection.store sids) block →
            base.contains (blockKey block) = false

instance (S : Vault) : (ev : VaultEvent) → Decidable (S.LeavesNothingOut ev)
  | .protect _ => isTrue trivial
  | .backup _ => inferInstanceAs (Decidable (∀ _ ∈ _, ∀ _ ∈ _, ∀ _ ∈ _, _ → _))

/-- A full backup can be taken, and restored into some engine. -/
def FullRestorable (refuses : String → Option String) (S : Vault) : VaultEvent → Prop
  | .protect _ => True
  | .backup call =>
      let full := S.backups.createBackup refuses S.protection.store call.asFull
      (∃ record, full.2 = .ok record) ∧ ∃ w : LocalEngine × M,
        ((LocalEngine.restoring order restorePlacement).restoreBackup full.1 w
          call.backupId).2.status = .completed

/-- Every backup has the blocks and the placements of its twin. -/
structure Invariant (S : Vault) : Prop where
  twins : ∀ id twin, S.twins.get? id = some twin → ∃ archive archive',
    S.backups.archiveOf id = .ok archive ∧ twin.archiveOf id = .ok archive' ∧
      archive.blockList = archive'.blockList ∧
      archive.metadata.placements = archive'.metadata.placements
  /-- An archive is named after its backup. -/
  paths : ∀ id path, (S.backups.getBackup id).bind BackupRecord.archivePath = some path →
    path = id ++ ".zip"
  undeleted : S.protection.Undeleted

theorem Invariant.init (e : LocalEngine) : Invariant (Vault.init e) where
  twins _ _ h := by cases h
  paths _ _ h := by cases h
  undeleted := .init e

theorem Invariant.restoresAsFull (h : Invariant S) : S.RestoresAsFull order restorePlacement := by
  intro id twin htwin w b
  obtain ⟨archive, archive', harchive, harchive', hblocks, hplacements⟩ := h.twins id twin htwin
  rw [RestoreWiring.restoreBackup_congr harchive harchive' hblocks hplacements]

/-- A call leaves the archives of other backups alone. -/
theorem archiveOf_createBackup_of_ne {B : Backups} {store : SnapshotStore} {archive : Archive}
    (hpaths : ∀ path, (B.getBackup id).bind BackupRecord.archivePath = some path →
      path = id ++ ".zip") (hne : id ≠ call.backupId) (h : B.archiveOf id = .ok archive) :
    (B.createBackup refuses store call).1.archiveOf id = .ok archive := by
  unfold Backups.archiveOf at h
  split at h
  · cases h
  · rename_i path hpath
    unfold Backups.openArchive at h
    split at h
    · cases h
    · rename_i archive' harchive
      obtain rfl := Except.ok.inj h
      have hname : path ≠ call.backupId ++ ".zip" := by
        rw [hpaths path hpath]
        exact fun heq => hne ((String.append_left_inj ".zip").mp heq)
      have hpath' : ((B.createBackup refuses store call).1.getBackup id).bind
          BackupRecord.archivePath = some path := by
        rw [Backups.getBackup_createBackup_of_ne hne]
        exact hpath
      exact Backups.archiveOf_eq_ok hpath' ((Backups.archives_createBackup_of_ne hname).trans harchive)

/-- The archive of a call for one snapshot. -/
theorem archiveOf_createBackup {B : Backups} {store : SnapshotStore} {record : BackupRecord}
    (hone : call.ofOneSnapshot = true) (hok : (B.createBackup refuses store call).2 = .ok record) :
    ∃ sid base archive, call.snapshotIds = .ok [sid] ∧
      (B.saveBackup call.backupId call.record).baseBlocks call = .ok base ∧
      (B.createBackup refuses store call).1.archiveOf call.backupId = .ok archive ∧
      archive.blocks = Dict.collect SnapshotBlock.filename
        ((capturedBlocks store [sid]).filter fun block => !omits call.backupType base block) ∧
      archive.metadata.placements = call.placements := by
  obtain ⟨archive, hbuilt, harchive⟩ := Backups.createBackup_eq_ok hok
  obtain ⟨sids, -, hsids, -, -, -, -⟩ := Backups.buildArchive_eq_ok hbuilt
  obtain ⟨sid, rfl⟩ : ∃ sid, sids = [sid] := by
    unfold BackupCall.ofOneSnapshot at hone
    rw [hsids] at hone
    exact List.length_eq_one_iff.mp (of_decide_eq_true hone)
  obtain ⟨base, hbase, hblocks, hplacements⟩ := blocks_of_buildArchive hsids hbuilt
  exact ⟨sid, base, archive, hsids, hbase, harchive, hblocks, hplacements⟩

/-- The archive of a full backup of one snapshot. -/
theorem archiveOf_createBackup_asFull {B : Backups} {store : SnapshotStore} {record : BackupRecord}
    (hone : call.ofOneSnapshot = true)
    (hok : (B.createBackup refuses store call.asFull).2 = .ok record) :
    ∃ sid archive, call.snapshotIds = .ok [sid] ∧
      (B.createBackup refuses store call.asFull).1.archiveOf call.backupId = .ok archive ∧
      archive.blocks = Dict.collect SnapshotBlock.filename (capturedBlocks store [sid]) ∧
      archive.metadata.placements = call.placements := by
  have honeFull : call.asFull.ofOneSnapshot = true := hone
  obtain ⟨sid, base, archive, hsid, -, harchive, hblocks, hplacements⟩ :=
    archiveOf_createBackup honeFull hok
  have hall : (capturedBlocks store [sid]).filter (fun block =>
      !omits call.asFull.backupType base block) = capturedBlocks store [sid] :=
    List.filter_eq_self.mpr fun _ _ => rfl
  exact ⟨sid, archive, hsid, harchive, hall ▸ hblocks, hplacements⟩

/-- A backup that leaves nothing out has the blocks and the placements of its twin. -/
theorem twin_of_leavesNothingOut {record record' : BackupRecord} (hone : call.ofOneSnapshot = true)
    (hleaves : S.LeavesNothingOut (.backup call))
    (hok : (S.backups.createBackup refuses S.protection.store call).2 = .ok record)
    (hfull : (S.backups.createBackup refuses S.protection.store call.asFull).2 = .ok record') :
    ∃ archive archive',
      (S.backups.createBackup refuses S.protection.store call).1.archiveOf call.backupId =
        .ok archive ∧
      (S.backups.createBackup refuses S.protection.store call.asFull).1.archiveOf call.backupId =
        .ok archive' ∧
      archive.blockList = archive'.blockList ∧
      archive.metadata.placements = archive'.metadata.placements := by
  obtain ⟨sid, base, archive, hsid, hbase, harchive, hblocks, hplacements⟩ :=
    archiveOf_createBackup hone hok
  obtain ⟨sid', archive', hsid', harchive', hblocks', hplacements'⟩ :=
    archiveOf_createBackup_asFull hone hfull
  obtain rfl : sid = sid' := by simpa [hsid] using hsid'
  refine ⟨archive, archive', harchive, harchive', ?_, hplacements.trans hplacements'.symm⟩
  exact blockList_eq_of_kept hblocks hblocks' (hleaves [sid] (by rw [hsid]; rfl) base (by rw [hbase]; rfl))

theorem Invariant.backup (h : Invariant S) (hnew : S.backups.records.get? call.backupId = none)
    (hone : call.ofOneSnapshot = true) (hleaves : S.LeavesNothingOut (.backup call)) :
    Invariant (S.backup refuses call) := by
  have hold : ∀ id twin, S.twins.get? id = some twin → id ≠ call.backupId := by
    rintro id twin htwin rfl
    obtain ⟨archive, -, harchive, -⟩ := h.twins _ twin htwin
    unfold Backups.archiveOf Backups.getBackup at harchive
    rw [hnew] at harchive
    cases harchive
  have hkeep : ∀ id twin, S.twins.get? id = some twin → ∃ archive archive',
      (S.backup refuses call).backups.archiveOf id = .ok archive ∧
        twin.archiveOf id = .ok archive' ∧ archive.blockList = archive'.blockList ∧
        archive.metadata.placements = archive'.metadata.placements := by
    intro id twin htwin
    obtain ⟨archive, archive', harchive, hrest⟩ := h.twins id twin htwin
    exact ⟨archive, archive', archiveOf_createBackup_of_ne (h.paths id) (hold id twin htwin) harchive,
      hrest⟩
  refine ⟨fun id twin htwin => ?_, fun id path hpath => ?_, h.undeleted⟩
  · unfold Vault.backup at htwin
    simp only at htwin
    split at htwin
    · rename_i record record' hok hfull
      rw [Dict.get?_set] at htwin
      split at htwin
      · rename_i hid
        obtain rfl := Option.some.inj htwin
        rw [hid]
        exact twin_of_leavesNothingOut hone hleaves hok hfull
      · exact hkeep id twin htwin
    · exact hkeep id twin htwin
  · by_cases hid : id = call.backupId
    · subst hid
      exact Backups.archivePath_createBackup hpath
    · unfold Vault.backup at hpath
      simp only at hpath
      rw [Backups.getBackup_createBackup_of_ne hid] at hpath
      exact h.paths id path hpath

theorem step_backup (h : step refuses S (.backup call) = some S') :
    S.backups.records.get? call.backupId = none ∧ call.ofOneSnapshot = true ∧
      S' = S.backup refuses call := by
  unfold step at h
  rw [Option.ite_none_right_eq_some] at h
  exact ⟨h.1.1, h.1.2, (Option.some.inj h.2).symm⟩

theorem Invariant.step {ev : VaultEvent} (h : Invariant S) (hleaves : S.LeavesNothingOut ev)
    (hstep : Vault.step refuses S ev = some S') : Invariant S' := by
  cases ev with
  | protect ev =>
      obtain ⟨protection, hprotection, rfl⟩ := Option.map_eq_some_iff.mp hstep
      exact ⟨h.twins, h.paths, h.undeleted.step hprotection⟩
  | backup call =>
      obtain ⟨hnew, hone, rfl⟩ := step_backup hstep
      exact h.backup hnew hone hleaves

theorem eq_ok_of_mem_toOption {α β : Type} {x : Except α β} {a : β} (h : a ∈ x.toOption) :
    x = .ok a := by
  cases x with
  | error err => cases h
  | ok a' => exact congrArg _ (Option.some.inj h)

/-- A call returns if its base is there and a full backup can be taken. -/
theorem createBackup_of_asFull {B : Backups} {store : SnapshotStore} {record' : BackupRecord}
    {sid : String} {base : Dict String SnapshotBlock} (hsid : call.snapshotIds = .ok [sid])
    (hbase : (B.saveBackup call.backupId call.record).baseBlocks call = .ok base)
    (hfull : (B.createBackup refuses store call.asFull).2 = .ok record') :
    ∃ record, (B.createBackup refuses store call).2 = .ok record := by
  obtain ⟨archive', hbuilt, -⟩ := Backups.createBackup_eq_ok hfull
  obtain ⟨sids, base', hsids, -, hnames, -, -⟩ := Backups.buildArchive_eq_ok hbuilt
  obtain rfl : [sid] = sids := Except.ok.inj (hsid.symm.trans hsids)
  have haccepted : ∀ block ∈ (collectBlocks call.backupType base store [sid]).values,
      refuses block.filename = none := by
    intro block hblock
    apply hnames
    rw [values_collectBlocks] at hblock ⊢
    exact List.mem_filter.mpr ⟨(List.mem_filter.mp hblock).1, rfl⟩
  obtain ⟨archive, hbuilt, -⟩ := Backups.buildArchive_of_names hsid hbase haccepted
  exact Backups.createBackup_of_buildArchive hbuilt

/-- The blocks of an archive of one snapshot are among those captured. -/
theorem mem_of_mem_blockList {archive : Archive} {blocks : List SnapshotBlock}
    {block : SnapshotBlock}
    (hblocks : archive.blocks = Dict.collect SnapshotBlock.filename blocks)
    (hblock : block ∈ archive.blockList) : block ∈ blocks := by
  rw [(perm_blockList archive).mem_iff, hblocks] at hblock
  exact Dict.mem_of_mem_values_collect hblock

theorem nodup_blockList {archive : Archive} {store : SnapshotStore} {sid : String}
    (hblocks : archive.blocks = Dict.collect SnapshotBlock.filename (capturedBlocks store [sid])) :
    (archive.blockList.map SnapshotBlock.blockId).Nodup := by
  have hnodup : archive.blockList.Nodup := by
    rw [(perm_blockList archive).nodup_iff, hblocks]
    exact (Dict.nodup_map_values_collect _ _).of_map
  rw [List.nodup_map_iff_inj_on hnodup]
  intro block hblock block' hblock' hid
  exact List.inj_on_of_nodup_map (nodup_capturedBlocks store sid)
    (mem_of_mem_blockList hblocks hblock) (mem_of_mem_blockList hblocks hblock') hid

/-- A backup that leaves a block out restores without it. -/
theorem not_restoresAsFull (h : Invariant S)
    (hfull : S.FullRestorable order restorePlacement refuses (.backup call))
    (hbad : ¬ S.LeavesNothingOut (.backup call))
    (hstep : step refuses S (.backup call) = some S') : ¬ S'.RestoresAsFull order restorePlacement := by
  obtain ⟨hnew, hone, rfl⟩ := step_backup hstep
  obtain ⟨⟨record', hfullok⟩, w, hdone⟩ := hfull
  obtain ⟨sid, archive', hsid, harchive', hblocks', -⟩ := archiveOf_createBackup_asFull hone hfullok
  simp only [LeavesNothingOut, not_forall] at hbad
  obtain ⟨sids, hsids, base, hbase, block, hblock, hkept, hcontains⟩ := hbad
  rw [hsid] at hsids
  obtain rfl : [sid] = sids := Option.some.inj hsids
  replace hbase := eq_ok_of_mem_toOption hbase
  rw [Bool.not_eq_false] at hcontains
  obtain ⟨record, hok⟩ := createBackup_of_asFull hsid hbase hfullok
  obtain ⟨sid', base', archive, hsid', hbase', harchive, hblocks, -⟩ :=
    archiveOf_createBackup hone hok
  obtain rfl : sid = sid' := by simpa [hsid] using hsid'
  obtain rfl : base = base' := Except.ok.inj (hbase.symm.trans hbase')
  -- the full backup brings the block back
  have hlive := deleted_eq_of_mem_capturedBlocks h.undeleted.store hblock
  have hmem' : block ∈ archive'.blockList := by
    rw [(perm_blockList archive').mem_iff, hblocks']
    exact Dict.mem_values_collect.mpr hkept
  obtain ⟨hdata, hback⟩ := LocalEngine.restoreBackup_completed order restorePlacement harchive'
    (nodup_blockList hblocks') hdone block hmem' hlive
  -- the incremental one has no block of its id
  have hincremental : call.backupType = .incremental := by
    rcases htype : call.backupType with _ | _
    · rw [Backups.baseBlocks_full htype] at hbase
      rw [← Except.ok.inj hbase] at hcontains
      cases hcontains
    · rfl
  have hgone : block.blockId ∉ archive.blockList.map SnapshotBlock.blockId := by
    intro hmem
    obtain ⟨block', hblock', hid⟩ := List.mem_map.mp hmem
    obtain ⟨hcaptured, homits⟩ := List.mem_filter.mp (mem_of_mem_blockList hblocks hblock')
    obtain rfl := List.inj_on_of_nodup_map (nodup_capturedBlocks _ sid) hcaptured hblock hid
    simp [omits, hincremental, hcontains] at homits
  have hlast : (S.backup refuses call).backups.archiveOf call.backupId = .ok archive := harchive
  intro hall
  have htwin : (S.backup refuses call).twins.get? call.backupId =
      some (S.backups.createBackup refuses S.protection.store call.asFull).1 := by
    unfold Vault.backup
    simp only [hok, hfullok]
    exact Dict.get?_set_self
  have hsame := hall call.backupId _ htwin w block.blockId
  rw [hback, LocalEngine.liveData_restoreBackup_of_notMem order restorePlacement w hlast hgone] at hsame
  rw [← hsame] at hdata
  cases hdata

/-- **In every run of backups that leave out nothing a full one would keep, every backup restores like
the full backup of its moment; and a run in which the full ones can be restored has no others.** -/
theorem restoresAsFull_iff (e : LocalEngine) (evs : List VaultEvent) :
    (StepsMeet (step refuses) LeavesNothingOut (init e) evs →
      Throughout (step refuses) (RestoresAsFull order restorePlacement) (init e) evs) ∧
    (StepsMeet (step refuses) (FullRestorable order restorePlacement refuses) (init e) evs →
      Throughout (step refuses) (RestoresAsFull order restorePlacement) (init e) evs →
      StepsMeet (step refuses) LeavesNothingOut (init e) evs) := by
  constructor
  · intro h
    exact h.throughout (I := Invariant) (fun S hS => hS.restoresAsFull order restorePlacement)
      (fun S ev S' hS hleaves hstep => hS.step hleaves hstep) (.init e)
  · intro hfull hall
    refine hall.stepsMeet (I := Invariant)
      (fun S ev S' hS hleaves hstep => hS.step hleaves hstep) ?_ (.init e) hfull
    intro S ev S' hS hfull hbad hstep
    cases ev with
    | protect ev => exact absurd trivial hbad
    | backup call => exact not_restoresAsFull order restorePlacement hS hfull hbad hstep

end Restores

/-- The backups of a run. -/
def calls (evs : List VaultEvent) : List BackupCall :=
  evs.filterMap fun ev =>
    match ev with
    | .protect _ => none
    | .backup call => some call

/-- A full backup, and then incremental ones, each on the one before. -/
def Chained (calls : List BackupCall) : Prop :=
  (∀ call ∈ calls.head?, call.backupType = .full) ∧
    calls.IsChain fun call call' =>
      call'.backupType = .incremental ∧ call'.baseBackupId = some call.backupId

/-- A call for the snapshot that it made. -/
def callFor (backupId : String) (backupType : BackupType) (baseBackupId : Option String)
    (snapshotId : String) : BackupCall :=
  ⟨backupId, backupType, baseBackupId, .ok [snapshotId], 2000, 1, Dict.empty⟩

/-- A full backup of one block, and an incremental one on it after other steps. -/
def twoBackups (between : List (ProtectionEvent Unit EngineOp)) : List VaultEvent :=
  (Protection.writeBlock "old" 1 :: Protection.oneBlockSnapshot "s1" "v1").map .protect ++
    .backup (callFor "full" .full none "s1") ::
      (between ++ Protection.oneBlockSnapshot "s2" "v2").map .protect ++
        [.backup (callFor "inc" .incremental (some "full") "s2")]

/-- Restores that leave placements alone. -/
def noPlacements (_ : String) (_ : ℤ) (_ : List String) : Call Unit := fun m => (m, .ok ())

/-- What a new engine has of the block after a restore of the incremental backup. -/
def restored (B : Backups) : Option String :=
  ((LocalEngine.restoring .asListed noPlacements).restoreBackup B (.empty "node2", ()) "inc").1.1.liveData "b1"

theorem restoresAsFull_rewritten : Throughout (step Backups.shortNames) (RestoresAsFull .asListed noPlacements)
    (init (.empty "node1")) (twoBackups [Protection.writeBlock "new" 2]) := by
  have hrun : (runWhile (step Backups.shortNames) (fun S ev => S.LeavesNothingOut ev)
      (init (.empty "node1")) (twoBackups [Protection.writeBlock "new" 2])).isSome = true := by
    decide +kernel
  obtain ⟨S, hS⟩ := Option.isSome_iff_exists.mp hrun
  exact (restoresAsFull_iff .asListed noPlacements _ _).1 (stepsMeet_of_runWhile hS)

/-- The block of the base is in no incremental backup. -/
theorem restoresAsFull_counterexample : ¬ ∀ evs, Chained (calls evs) →
    Throughout (step Backups.shortNames) (RestoresAsFull .asListed noPlacements) (init (.empty "node1")) evs := by
  intro h
  have hchained : Chained (calls (twoBackups [])) := by
    unfold Chained
    decide +kernel
  have hrun : (run (step Backups.shortNames) (init (.empty "node1")) (twoBackups [])).map (fun S =>
      (restored S.backups, (S.twins.get? "inc").map restored)) = some (none, some (some "old")) := by
    decide +kernel
  obtain ⟨S, hS, hpair⟩ := Option.map_eq_some_iff.mp hrun
  obtain ⟨hgone, hback⟩ := Prod.mk.inj hpair
  obtain ⟨twin, htwin, hback⟩ := Option.map_eq_some_iff.mp hback
  have hsame := (h _ hchained).of_run hS "inc" twin htwin (.empty "node2", ()) "b1"
  have hnone : (none : Option String) = some "old" := hgone.symm.trans (hsame.trans hback)
  cases hnone

end Vault

end NanoFabric.Storage
