import NanoFabric.Found.Numbered
import NanoFabric.Node.StorageEngine
import NanoFabric.Storage.SnapshotStore

/-!
# The backup service

`BackupService` of `storage/backup_service.py`: the rows of backups, the archives of the backup
directory, and what a call of `create_backup` puts into an archive. A block is told from another by
its key while the blocks are collected, and by its file name in the archive.

* `blockKey_inj`, `safeBlockFilename_inj` — what a key and a file name say of a block.
* `collectBlocks_eq`, `writeBlockFiles_eq_ok` — what the loops of a call leave.
* `fullBackup_returns_iff` — a full backup returns what was captured just when no two captured blocks
  have the same file name.

An archive is taken to give back the texts that were put into it. The sizes of archives and their
checksums are left out; `refuses` is the exception of the file system for a file name, if it raises
one.
-/

namespace NanoFabric.Storage

open NanoFabric.Found

/-! ## Names -/

/-- `str.replace` of a character by an underscore. -/
def underscored (c : Char) (s : String) : String := s.map fun x => if x = c then '_' else x

/-- The block id in a file name.
Source: `storage/backup_service.py`, `_safe_block_filename`. -/
def safeId (blockId : String) : String :=
  underscored '\\' (underscored '/' (underscored ':' blockId))

/-- Source: `storage/backup_service.py`, `_safe_block_filename`. -/
def safeBlockFilename (blockId : String) (version : ℤ) : String :=
  numbered "__v" (safeId blockId) version ++ ".json"

/-- The name of the file of a block. -/
def SnapshotBlock.filename (block : SnapshotBlock) : String :=
  safeBlockFilename block.blockId block.version

/-- The key of a block while blocks are collected.
Source: `storage/backup_service.py`, `create_backup`, `_load_blocks_from_archive`. -/
def blockKey (block : SnapshotBlock) : String := numbered ":" block.blockId block.version

theorem blockKey_inj {block block' : SnapshotBlock} :
    blockKey block = blockKey block' ↔
      block.blockId = block'.blockId ∧ block.version = block'.version := by
  constructor
  · exact numbered_inj [] (c := ':') rfl rfl (by decide)
  · rintro ⟨hid, hversion⟩
    unfold blockKey
    rw [hid, hversion]

/-- A file name tells the version, and the id with some characters replaced. -/
theorem filename_inj {block block' : SnapshotBlock} :
    block.filename = block'.filename ↔
      safeId block.blockId = safeId block'.blockId ∧ block.version = block'.version := by
  unfold SnapshotBlock.filename safeBlockFilename
  constructor
  · intro h
    exact numbered_inj ['_', '_'] (c := 'v') rfl rfl (by decide)
      ((String.append_left_inj ".json").mp h)
  · rintro ⟨hid, hversion⟩
    rw [hid, hversion]

/-! ## Records and archives -/

/-- Source: `storage/models.py`, `BackupType`. -/
inductive BackupType
  | full
  | incremental
deriving DecidableEq, Repr

/-- Source: `storage/models.py`, `BackupStatus`. -/
inductive BackupStatus
  | creating
  | ready
  | failed
  | restoring
deriving DecidableEq, Repr

/-- A row of `backups`, whose key is the id.
Source: `storage/models.py`, `BackupRecord`. -/
structure BackupRecord where
  backupType : BackupType
  timestamp : ℤ
  snapshotIds : List String
  blockCount : ℕ
  status : BackupStatus
  archivePath : Option String
  baseBackupId : Option String
  error : Option String
deriving DecidableEq

/-- The file `metadata.json` of an archive. -/
structure BackupMetadata where
  backupId : String
  backupType : BackupType
  timestamp : ℤ
  snapshotIds : List String
  metadataVersion : ℤ
  placements : Dict String (List String)
  blockCount : ℕ

/-- The files of an archive. -/
structure Archive where
  metadata : BackupMetadata
  /-- The directory `snapshots`, by snapshot id. -/
  snapshots : Dict String SnapshotRecord
  /-- The directory `blocks`, by file name. -/
  blocks : Dict String SnapshotBlock

/-- The files of a directory as an archive lists them.
Source: `storage/backup_service.py`, `_create_zip`. -/
def namelist {β : Type} (files : Dict String β) : List (String × β) :=
  files.entries.insertionSort fun file file' => file.1 ≤ file'.1

/-- The blocks of an archive, in its order. -/
def Archive.blockList (archive : Archive) : List SnapshotBlock :=
  (namelist archive.blocks).map Prod.snd

/-- The rows of the backups, and the archives in the backup directory. -/
structure Backups where
  records : Dict String BackupRecord
  archives : Dict String Archive

/-- No backup has been taken. -/
def Backups.empty : Backups := ⟨Dict.empty, Dict.empty⟩

/-- A call of `create_backup`, with the id that it draws, what `create_snapshot` returned or raised
where no snapshot ids were given, and what the callbacks return. -/
structure BackupCall where
  backupId : String
  backupType : BackupType
  baseBackupId : Option String
  snapshotIds : Except String (List String)
  now : ℤ
  metadataVersion : ℤ
  placements : Dict String (List String)

/-- The row of a call that has begun.
Source: `storage/backup_service.py`, `create_backup`. -/
def BackupCall.record (call : BackupCall) : BackupRecord :=
  ⟨call.backupType, call.now, [], 0, .creating, none, call.baseBackupId, none⟩

/-! ## The blocks of a backup -/

/-- The blocks of the snapshots that are there.
Source: `storage/backup_service.py`, `create_backup`. -/
def capturedBlocks (store : SnapshotStore) (snapshotIds : List String) : List SnapshotBlock :=
  snapshotIds.flatMap fun sid =>
    if (store.getSnapshot sid).isNone then [] else store.getSnapshotBlocks sid

/-- Whether a block is left to the base of a backup.
Source: `storage/backup_service.py`, `create_backup`. -/
def omits (backupType : BackupType) (baseBlocks : Dict String SnapshotBlock)
    (block : SnapshotBlock) : Bool :=
  backupType = .incremental && baseBlocks.contains (blockKey block)

/-- Source: `storage/backup_service.py`, `create_backup`. -/
def collectBlocks (backupType : BackupType) (baseBlocks : Dict String SnapshotBlock)
    (store : SnapshotStore) (snapshotIds : List String) : Dict String SnapshotBlock :=
  snapshotIds.foldl (fun allBlocks sid =>
    if (store.getSnapshot sid).isNone then allBlocks
    else (store.getSnapshotBlocks sid).foldl (fun allBlocks block =>
      if omits backupType baseBlocks block then allBlocks
      else allBlocks.set (blockKey block) block) allBlocks) Dict.empty

/-- The files of the blocks, up to the first one that the file system refuses.
Source: `storage/backup_service.py`, `create_backup`. -/
def writeBlockFiles (refuses : String → Option String) :
    List SnapshotBlock → Dict String SnapshotBlock → Except String (Dict String SnapshotBlock)
  | [], files => .ok files
  | block :: blocks, files =>
      match refuses block.filename with
      | some err => .error err
      | none => writeBlockFiles refuses blocks (files.set block.filename block)

/-- The files of the snapshots that are there.
Source: `storage/backup_service.py`, `create_backup`. -/
def snapshotFiles (store : SnapshotStore) (snapshotIds : List String) :
    Dict String SnapshotRecord :=
  snapshotIds.foldl (fun files sid =>
    match store.getSnapshot sid with
    | none => files
    | some snapshot => files.set sid snapshot) Dict.empty

/-- The blocks of an archive by key.
Source: `storage/backup_service.py`, `_load_blocks_from_archive`. -/
def loadBlocksFromArchive (archive : Archive) : Dict String SnapshotBlock :=
  archive.blockList.foldl (fun result block => result.set (blockKey block) block) Dict.empty

namespace Backups

/-- Inserts the row of a backup, or updates some of its columns.
Source: `storage/snapshot_store.py`, `save_backup`. -/
def saveBackup (S : Backups) (backupId : String) (record : BackupRecord) : Backups :=
  { S with
    records := match S.records.get? backupId with
      | none => S.records.set backupId record
      | some old => S.records.set backupId { old with
          status := record.status
          blockCount := record.blockCount
          archivePath := record.archivePath
          error := record.error } }

/-- Source: `storage/snapshot_store.py`, `get_backup`. -/
def getBackup (S : Backups) (backupId : String) : Option BackupRecord := S.records.get? backupId

/-- The archive at a path.
Source: `zipfile.ZipFile`. -/
def openArchive (S : Backups) (path : String) : Except String Archive :=
  match S.archives.get? path with
  | none => .error ("[Errno 2] No such file or directory: '" ++ path ++ "'")
  | some archive => .ok archive

/-- The blocks that an incremental backup leaves out.
Source: `storage/backup_service.py`, `create_backup`. -/
def baseBlocks (S : Backups) (call : BackupCall) : Except String (Dict String SnapshotBlock) :=
  if call.backupType = .incremental then
    match ((call.baseBackupId.filter (· ≠ "")).bind S.getBackup).bind BackupRecord.archivePath with
    | none => .ok Dict.empty
    | some path => (S.openArchive path).map loadBlocksFromArchive
  else .ok Dict.empty

/-- The archive that a call builds.
Source: `storage/backup_service.py`, `create_backup`. -/
def buildArchive (refuses : String → Option String) (store : SnapshotStore) (S : Backups)
    (call : BackupCall) : Except String Archive :=
  match call.snapshotIds with
  | .error err => .error err
  | .ok snapshotIds =>
      match S.baseBlocks call with
      | .error err => .error err
      | .ok base =>
          let allBlocks := (collectBlocks call.backupType base store snapshotIds).values
          match writeBlockFiles refuses allBlocks Dict.empty with
          | .error err => .error err
          | .ok blocks =>
              let metadata : BackupMetadata := ⟨call.backupId, call.backupType, call.now,
                snapshotIds, call.metadataVersion, call.placements, allBlocks.length⟩
              .ok ⟨metadata, snapshotFiles store snapshotIds, blocks⟩

/-- Source: `storage/backup_service.py`, `create_backup`. -/
def createBackup (refuses : String → Option String) (store : SnapshotStore) (S : Backups)
    (call : BackupCall) : Backups × Except String BackupRecord :=
  let record := call.record
  let saved := S.saveBackup call.backupId record
  match saved.buildArchive refuses store call with
  | .error err =>
      (saved.saveBackup call.backupId { record with status := .failed, error := some err },
        .error err)
  | .ok archive =>
      let path := call.backupId ++ ".zip"
      let ready := { record with
        snapshotIds := archive.metadata.snapshotIds
        blockCount := archive.metadata.blockCount
        archivePath := some path
        status := .ready }
      ({ saved.saveBackup call.backupId ready with archives := S.archives.set path archive },
        .ok ready)

/-- The archive of a backup.
Source: `storage/backup_service.py`, `extract_backup_blocks`. -/
def archiveOf (S : Backups) (backupId : String) : Except String Archive :=
  match (S.getBackup backupId).bind BackupRecord.archivePath with
  | none => .error ("Backup '" ++ backupId ++ "' not found")
  | some path => S.openArchive path

/-- The metadata and the blocks of a backup.
Source: `storage/backup_service.py`, `extract_backup_blocks`. -/
def extractBackupBlocks (S : Backups) (backupId : String) :
    Except String (BackupMetadata × List SnapshotBlock) :=
  (S.archiveOf backupId).map fun archive =>
    let snapshotIds := (namelist archive.snapshots).foldl (fun ids file =>
      if file.1 ≠ "" ∧ file.1 ∉ ids then ids ++ [file.1] else ids) archive.metadata.snapshotIds
    ({ archive.metadata with snapshotIds }, archive.blockList)

end Backups

/-! ## What the loops leave -/

variable {refuses : String → Option String} {store : SnapshotStore} {S : Backups}
  {call : BackupCall} {sids : List String}

theorem collectBlocks_eq (backupType : BackupType) (base : Dict String SnapshotBlock)
    (store : SnapshotStore) (sids : List String) : collectBlocks backupType base store sids =
      Dict.collect blockKey ((capturedBlocks store sids).filter fun block =>
        !omits backupType base block) := by
  unfold collectBlocks Dict.collect capturedBlocks
  rw [List.foldl_filter, List.foldl_flatMap]
  congr 1
  funext allBlocks sid
  split
  · rfl
  · congr 1
    funext allBlocks block
    cases omits backupType base block <;> rfl

theorem writeBlockFiles_eq_ok {blocks : List SnapshotBlock} {files files' : Dict String SnapshotBlock} :
    writeBlockFiles refuses blocks files = .ok files' ↔
      (∀ block ∈ blocks, refuses block.filename = none) ∧
        blocks.foldl (fun files block => files.set block.filename block) files = files' := by
  induction blocks generalizing files with
  | nil => simp [writeBlockFiles]
  | cons block blocks ih =>
      unfold writeBlockFiles
      rcases hname : refuses block.filename with _ | err
      · simp [ih, hname]
      · simp [hname]

/-- The blocks of an archive are the files in its directory. -/
theorem perm_blockList (archive : Archive) : archive.blockList.Perm archive.blocks.values :=
  (List.perm_insertionSort _ _).map Prod.snd

namespace Backups

/-- What a call puts into its archive. -/
theorem buildArchive_eq_ok {archive : Archive}
    (h : S.buildArchive refuses store call = .ok archive) :
    ∃ sids base, call.snapshotIds = .ok sids ∧ S.baseBlocks call = .ok base ∧
      (∀ block ∈ (collectBlocks call.backupType base store sids).values,
        refuses block.filename = none) ∧
      archive.blocks = Dict.collect SnapshotBlock.filename
        (collectBlocks call.backupType base store sids).values ∧
      archive.metadata.placements = call.placements := by
  unfold buildArchive at h
  split at h
  · cases h
  · rename_i sids hsids
    split at h
    · cases h
    · rename_i base hbase
      simp only at h
      split at h
      · cases h
      · rename_i blocks hwrite
        obtain rfl := Except.ok.inj h
        obtain ⟨hnames, hblocks⟩ := writeBlockFiles_eq_ok.mp hwrite
        exact ⟨sids, base, hsids, hbase, hnames, hblocks.symm, rfl⟩

theorem saveBackup_archivePath (S : Backups) (backupId : String) (record : BackupRecord) :
    ((S.saveBackup backupId record).getBackup backupId).bind BackupRecord.archivePath =
      record.archivePath := by
  unfold saveBackup getBackup
  split <;> rw [Dict.get?_set_self] <;> rfl

theorem archiveOf_eq_ok {backupId path : String} {archive : Archive}
    (hpath : (S.getBackup backupId).bind BackupRecord.archivePath = some path)
    (harchive : S.archives.get? path = some archive) : S.archiveOf backupId = .ok archive := by
  unfold archiveOf openArchive
  rw [hpath]
  simp only [harchive]

/-- A call that returns a record has written its archive. -/
theorem createBackup_eq_ok {record : BackupRecord}
    (h : (S.createBackup refuses store call).2 = .ok record) :
    ∃ archive, (S.saveBackup call.backupId call.record).buildArchive refuses store call =
        .ok archive ∧
      (S.createBackup refuses store call).1.archiveOf call.backupId = .ok archive := by
  simp only [createBackup] at h ⊢
  split at h
  · cases h
  · rename_i archive harchive
    refine ⟨archive, harchive, ?_⟩
    exact archiveOf_eq_ok (saveBackup_archivePath _ _ _) Dict.get?_set_self

theorem getBackup_saveBackup_of_ne {backupId backupId' : String} (record : BackupRecord)
    (hne : backupId' ≠ backupId) :
    (S.saveBackup backupId record).getBackup backupId' = S.getBackup backupId' := by
  unfold saveBackup getBackup
  split <;> exact Dict.get?_set_of_ne hne

/-- A call leaves the rows of other backups alone. -/
theorem getBackup_createBackup_of_ne {backupId : String} (hne : backupId ≠ call.backupId) :
    (S.createBackup refuses store call).1.getBackup backupId = S.getBackup backupId := by
  have htwice : ∀ record record',
      ((S.saveBackup call.backupId record).saveBackup call.backupId record').getBackup backupId =
        S.getBackup backupId := fun _ _ =>
    (getBackup_saveBackup_of_ne _ hne).trans (getBackup_saveBackup_of_ne _ hne)
  simp only [createBackup]
  split <;> exact htwice _ _

/-- A call leaves the archives of other backups alone. -/
theorem archives_createBackup_of_ne {path : String} (hne : path ≠ call.backupId ++ ".zip") :
    (S.createBackup refuses store call).1.archives.get? path = S.archives.get? path := by
  simp only [createBackup]
  split
  · rfl
  · exact Dict.get?_set_of_ne hne

/-- A call names its archive after its backup. -/
theorem archivePath_createBackup {path : String}
    (h : ((S.createBackup refuses store call).1.getBackup call.backupId).bind
      BackupRecord.archivePath = some path) : path = call.backupId ++ ".zip" := by
  simp only [createBackup] at h
  split at h
  · rw [saveBackup_archivePath] at h
    cases h
  · have hpath := (saveBackup_archivePath _ _ _).symm.trans h
    exact (Option.some.inj hpath).symm

/-- What is extracted of a backup are the blocks of its archive. -/
theorem extractBackupBlocks_eq {backupId : String} {archive : Archive}
    (h : S.archiveOf backupId = .ok archive) : ∃ metadata,
      S.extractBackupBlocks backupId = .ok (metadata, archive.blockList) ∧
      metadata.placements = archive.metadata.placements := by
  unfold extractBackupBlocks
  rw [h]
  exact ⟨_, rfl, rfl⟩

/-- A call returns a record if its archive can be built. -/
theorem createBackup_of_buildArchive {archive : Archive}
    (h : (S.saveBackup call.backupId call.record).buildArchive refuses store call = .ok archive) :
    ∃ record, (S.createBackup refuses store call).2 = .ok record := by
  unfold createBackup
  simp only [h]
  exact ⟨_, rfl⟩

/-- A call builds its archive if the base is there and the file names are accepted. -/
theorem buildArchive_of_names {base : Dict String SnapshotBlock}
    (hsids : call.snapshotIds = .ok sids) (hbase : S.baseBlocks call = .ok base)
    (hnames : ∀ block ∈ (collectBlocks call.backupType base store sids).values,
      refuses block.filename = none) :
    ∃ archive, S.buildArchive refuses store call = .ok archive ∧
      archive.blocks = Dict.collect SnapshotBlock.filename
        (collectBlocks call.backupType base store sids).values := by
  have hwrite : writeBlockFiles refuses (collectBlocks call.backupType base store sids).values
      Dict.empty = .ok (Dict.collect SnapshotBlock.filename
        (collectBlocks call.backupType base store sids).values) :=
    writeBlockFiles_eq_ok.mpr ⟨hnames, rfl⟩
  unfold buildArchive
  simp only [hsids, hbase, hwrite]
  exact ⟨_, rfl, rfl⟩

theorem baseBlocks_full (hfull : call.backupType = .full) : S.baseBlocks call = .ok Dict.empty := by
  unfold baseBlocks
  rw [hfull]
  rfl

/-- A full backup leaves nothing out. -/
theorem collectBlocks_full (base : Dict String SnapshotBlock) (store : SnapshotStore)
    (sids : List String) : collectBlocks .full base store sids =
      Dict.collect blockKey (capturedBlocks store sids) := by
  have hkept : ∀ block ∈ capturedBlocks store sids, (!omits .full base block) = true :=
    fun _ _ => rfl
  rw [collectBlocks_eq, List.filter_eq_self.mpr hkept]

end Backups

/-! ## The round trip of a full backup -/

namespace Backups

/-- A call returns, and what is extracted of its backup is every captured block once. -/
def Returns (refuses : String → Option String) (store : SnapshotStore) (S : Backups)
    (call : BackupCall) (snapshotIds : List String) : Prop :=
  ∃ record metadata blocks, (S.createBackup refuses store call).2 = .ok record ∧
    (S.createBackup refuses store call).1.extractBackupBlocks call.backupId =
      .ok (metadata, blocks) ∧
    ∀ block, blocks.count block = if block ∈ capturedBlocks store snapshotIds then 1 else 0

/-- Two blocks whose file names differ, or that are the same. -/
def Unmixed (blocks : List SnapshotBlock) : Prop :=
  ∀ block ∈ blocks, ∀ block' ∈ blocks, block.version = block'.version →
    safeId block.blockId = safeId block'.blockId → block = block'

/-- All blocks of a full backup are in its archive just when no two of them are mixed up. -/
theorem forall_mem_archived_iff (blocks : List SnapshotBlock) :
    (∀ block ∈ blocks, block ∈ (Dict.collect SnapshotBlock.filename
      (Dict.collect blockKey blocks).values).values) ↔ Unmixed blocks := by
  constructor
  · intro h block hblock block' hblock' hversion hid
    exact Dict.eq_of_mem_values_collect (h block hblock) (h block' hblock')
      (filename_inj.mpr ⟨hid, hversion⟩)
  · intro h block hblock
    have hkeys : ∀ block ∈ blocks, block ∈ (Dict.collect blockKey blocks).values := by
      apply Dict.forall_mem_values_collect.mpr
      intro block hblock block' hblock' hkey
      obtain ⟨hid, hversion⟩ := blockKey_inj.mp hkey
      exact h block hblock block' hblock' hversion (congrArg safeId hid)
    apply Dict.forall_mem_values_collect.mpr _ block (hkeys block hblock)
    intro block hblock block' hblock' hname
    obtain ⟨hid, hversion⟩ := filename_inj.mp hname
    exact h block (Dict.mem_of_mem_values_collect hblock) block'
      (Dict.mem_of_mem_values_collect hblock') hversion hid

/-- **A full backup returns every captured block once, and nothing else, just when no two captured
blocks have one version and one id up to the characters that file names replace.** -/
theorem fullBackup_returns_iff (S : Backups) (hfull : call.backupType = .full)
    (hsids : call.snapshotIds = .ok sids)
    (hnames : ∀ block ∈ capturedBlocks store sids, refuses block.filename = none) :
    Returns refuses store S call sids ↔ Unmixed (capturedBlocks store sids) := by
  have hall : ∀ block ∈ (collectBlocks call.backupType Dict.empty store sids).values,
      refuses block.filename = none := by
    rw [hfull, collectBlocks_full]
    exact fun block hblock => hnames block (Dict.mem_of_mem_values_collect hblock)
  have hbase : (S.saveBackup call.backupId call.record).baseBlocks call = .ok Dict.empty :=
    baseBlocks_full hfull
  obtain ⟨archive, hbuilt, hblocks⟩ := buildArchive_of_names hsids hbase hall
  rw [hfull, collectBlocks_full] at hblocks
  obtain ⟨record, hok⟩ := createBackup_of_buildArchive hbuilt
  obtain ⟨archive', hbuilt', harchive⟩ := createBackup_eq_ok hok
  obtain rfl := Except.ok.inj (hbuilt.symm.trans hbuilt')
  obtain ⟨metadata, hextract, -⟩ := extractBackupBlocks_eq harchive
  rw [← forall_mem_archived_iff, ← hblocks]
  constructor
  · rintro ⟨_, _, blocks, -, hextract', hcount⟩ block hblock
    obtain rfl := (Prod.mk.inj (Except.ok.inj (hextract.symm.trans hextract'))).2
    have hone : archive.blockList.count block = 1 := (hcount block).trans (if_pos hblock)
    exact (perm_blockList archive).mem_iff.mp (List.count_pos_iff.mp (by omega))
  · intro hall
    refine ⟨record, metadata, _, hok, hextract, fun block => ?_⟩
    have hnodup : archive.blocks.values.Nodup := by
      rw [hblocks]
      exact (Dict.nodup_map_values_collect _ _).of_map
    have hmem : block ∈ archive.blocks.values ↔ block ∈ capturedBlocks store sids := by
      refine ⟨fun h => ?_, hall block⟩
      rw [hblocks] at h
      exact Dict.mem_of_mem_values_collect (Dict.mem_of_mem_values_collect h)
    rw [(perm_blockList archive).count_eq, hnodup.count]
    simp only [hmem]

/-- A store with a snapshot of two blocks at version 1. -/
def pairSnapshot (b b' : String) : Option SnapshotStore := do
  let store ← (SnapshotStore.empty.createSnapshotRecord "s1" 1000 1 Dict.empty).toOption
  let (store, w) ← (store.getOrCreateBlockVersion b 1 (some "x") false "v1").toOption
  let store := store.addSnapshotBlock "s1" b w
  let (store, w) ← (store.getOrCreateBlockVersion b' 1 (some "y") false "v2").toOption
  return (store.addSnapshotBlock "s1" b' w).finalizeSnapshot "s1" 2 2 .ready none

/-- A full backup of that snapshot. -/
def pairCall : BackupCall := ⟨"b1", .full, none, .ok ["s1"], 2000, 1, Dict.empty⟩

/-- A file system that takes names of up to 255 bytes. -/
def shortNames (name : String) : Option String :=
  if 255 < name.utf8ByteSize then some "[Errno 36] File name too long" else none

theorem fullBackup_returns_pair : ∃ store, pairSnapshot "a:b" "a.b" = some store ∧
    Returns shortNames store .empty pairCall ["s1"] := by
  have hstore : (pairSnapshot "a:b" "a.b").map (capturedBlocks · ["s1"]) =
      some [⟨"a.b", 1, some "y", false⟩, ⟨"a:b", 1, some "x", false⟩] := by decide +kernel
  obtain ⟨store, hok, hblocks⟩ := Option.map_eq_some_iff.mp hstore
  refine ⟨store, hok, (fullBackup_returns_iff .empty rfl rfl ?_).mpr ?_⟩
  · rw [hblocks]
    decide +kernel
  · rw [hblocks]
    unfold Unmixed
    decide +kernel

/-- Both blocks go to one file. -/
theorem fullBackup_returns_counterexample : ¬ ∀ (store : SnapshotStore) (S : Backups)
    (call : BackupCall) (sids : List String), call.backupType = .full →
    call.snapshotIds = .ok sids →
    (∀ block ∈ capturedBlocks store sids, Node.validateBlockId block.blockId = .ok () ∧
      shortNames block.filename = none) → Returns shortNames store S call sids := by
  intro h
  have hrun : (pairSnapshot "a:b" "a_b").map (fun store => (capturedBlocks store ["s1"],
      ((createBackup shortNames store .empty pairCall).1.extractBackupBlocks "b1").toOption.map
        Prod.snd)) =
      some ([⟨"a:b", 1, some "x", false⟩, ⟨"a_b", 1, some "y", false⟩],
        some [⟨"a_b", 1, some "y", false⟩]) := by decide +kernel
  obtain ⟨store, hok, hpair⟩ := Option.map_eq_some_iff.mp hrun
  obtain ⟨hcaptured, hextracted⟩ := Prod.mk.inj hpair
  have hreturns : Returns shortNames store .empty pairCall ["s1"] := by
    refine h store .empty pairCall ["s1"] rfl rfl ?_
    rw [hcaptured]
    simp only [List.forall_mem_cons]
    refine ⟨⟨rfl, by decide +kernel⟩, ⟨rfl, by decide +kernel⟩, fun _ h => by cases h⟩
  obtain ⟨-, metadata, blocks, -, hextract, hcount⟩ := hreturns
  have hextract' : ((createBackup shortNames store .empty pairCall).1.extractBackupBlocks
      "b1").toOption.map Prod.snd = some blocks := by
    rw [show (createBackup shortNames store .empty pairCall).1.extractBackupBlocks "b1" =
      .ok (metadata, blocks) from hextract]
    rfl
  obtain rfl := Option.some.inj (hextracted.symm.trans hextract')
  have hlost := hcount ⟨"a:b", 1, some "x", false⟩
  rw [hcaptured] at hlost
  revert hlost
  decide

end Backups

end NanoFabric.Storage
