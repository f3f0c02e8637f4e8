import NanoFabric.Storage.BackupRestore

/-!
# The checksum of an archive

The files of an archive as bytes, the checksum that `BackupService` of `storage/backup_service.py`
computes over them twice, from the paths of the working directory and from the names in the zip file,
and what `import_backup` and `restore_backup` make of its verdict, which is nothing.

* `verifyChecksum_createZip` — the two computations agree on every archive that was created.
* `computeArchiveChecksum_collides` — names and contents are not kept apart, so that bytes can move
  from a content to a name.
* `ZipVault.registers_import` — an import registers whatever it is given.
* `tampering_iff` — so only archives that were not tampered with are treated as they should be.

`sha256` is any function, and `ArchiveTexts` any way to write and to read the texts of the files. The
file `metadata.json` is taken as it parses; it has all the keys that `create_backup` writes. The members
of a zip file can all be read: one that cannot, such as one with a bad CRC, has no content, and raises in
`_verify_checksum` before `import_backup` registers anything.
-/

namespace NanoFabric.Storage

open NanoFabric.Found

/-! ## Files -/

/-- The texts of the files of an archive: how they are written, and what reading them gives. A block
that was read may lack a field, which raises when it is restored. -/
structure ArchiveTexts where
  dumpBlock : SnapshotBlock → String
  dumpSnapshot : String → SnapshotRecord → String
  loadBlock : ByteArray → Except String (Except String SnapshotBlock)
  /-- The value of `snapshot_id`. -/
  loadSnapshotId : ByteArray → Except String (Option String)

/-- A file in one of the two directories of an archive. -/
structure ArchiveFile where
  directory : String
  name : String
  content : ByteArray

namespace ArchiveFile

/-- Source: `storage/backup_service.py`, `_create_zip`. -/
def arcname (file : ArchiveFile) : String := file.directory ++ "/" ++ file.name

/-- The order of paths, which compares their parts. -/
def PathLe (file file' : ArchiveFile) : Prop :=
  file.directory < file'.directory ∨
    file.directory = file'.directory ∧ file.name ≤ file'.name

instance : DecidableRel PathLe := fun _ _ => inferInstanceAs (Decidable (_ ∨ _))

end ArchiveFile

/-- The files of the working directory but `metadata.json`.
Source: `storage/backup_service.py`, `create_backup`. -/
def Archive.files (J : ArchiveTexts) (archive : Archive) : List ArchiveFile :=
  (archive.blocks.entries.map fun item =>
      ⟨"blocks", item.1, (J.dumpBlock item.2).toByteArray⟩) ++
    archive.snapshots.entries.map fun item =>
      ⟨"snapshots", item.1 ++ ".json", (J.dumpSnapshot item.1 item.2).toByteArray⟩

/-- A zip file whose members can all be read: what its `metadata.json` says, and its other members. -/
structure ZipFile where
  metadata : BackupMetadata
  checksum : String
  members : List (String × ByteArray)

namespace ZipFile

/-- Source: `zipfile.ZipFile.namelist`. -/
def names (zip : ZipFile) : List String := zip.members.map Prod.fst ++ ["metadata.json"]

/-- The content of the last member of a name.
Source: `zipfile.ZipFile.read`. -/
def read? (zip : ZipFile) (name : String) : Option ByteArray :=
  (zip.members.reverse.find? (·.1 = name)).map Prod.snd

end ZipFile

/-- What the hash is fed: each name, and the content after it.
Source: `storage/backup_service.py`, `_create_zip`, `_compute_archive_checksum`. -/
def digestInput (files : List (String × ByteArray)) : ByteArray :=
  files.foldl (fun h file => h ++ file.1.toByteArray ++ file.2) ByteArray.empty

section Checksum

variable (sha256 : ByteArray → String) (J : ArchiveTexts)

/-- Source: `storage/backup_service.py`, `_create_zip`. -/
def createZip (archive : Archive) : ZipFile :=
  let files := ((archive.files J).insertionSort ArchiveFile.PathLe).filter fun file =>
    file.name ≠ "metadata.json"
  let members := files.map fun file => (file.arcname, file.content)
  ⟨archive.metadata, sha256 (digestInput members), members⟩

/-- `str.replace` of a backslash by a slash. -/
def normalized (name : String) : String := name.map fun c => if c = '\\' then '/' else c

/-- Source: `storage/backup_service.py`, `_compute_archive_checksum`. -/
def computeArchiveChecksum (zip : ZipFile) : String :=
  sha256 (digestInput (((zip.names.insertionSort (· ≤ ·)).filter (· ≠ "metadata.json")).map
    fun name => (normalized name, (zip.read? name).getD ByteArray.empty)))

/-- Source: `storage/backup_service.py`, `_verify_checksum`. -/
def verifyChecksum (zip : ZipFile) : Bool :=
  if zip.checksum = "" then true else computeArchiveChecksum sha256 zip = zip.checksum

end Checksum

/-! ## Import and restore -/

/-- The rows of the backups, and the zip files by their paths. -/
structure ZipVault where
  records : Dict String BackupRecord
  files : Dict String ZipFile

/-- The record of an archive that is imported.
Source: `storage/backup_service.py`, `import_backup`. -/
def ZipFile.record (zip : ZipFile) (path : String) : BackupRecord :=
  ⟨zip.metadata.backupType, zip.metadata.timestamp, zip.metadata.snapshotIds,
    zip.metadata.blockCount, .ready, some path, none, none⟩

namespace ZipVault

/-- Source: `storage/snapshot_store.py`, `save_backup`. -/
def saveBackup (V : ZipVault) (backupId : String) (record : BackupRecord) : ZipVault :=
  { V with records := ((⟨V.records, Dict.empty⟩ : Backups).saveBackup backupId record).records }

/-- The verdict on the checksum is asked for and not used.
Source: `storage/backup_service.py`, `import_backup`. -/
def importBackup (sha256 : ByteArray → String) (V : ZipVault) (path : String) :
    ZipVault × Except String BackupRecord :=
  match V.files.get? path with
  | none => (V, .error ("Backup archive not found: " ++ path))
  | some zip =>
      let registered := (V.saveBackup zip.metadata.backupId (zip.record path),
        .ok (zip.record path))
      match verifyChecksum sha256 zip with
      | true => registered
      | false => registered

/-- The zip file of a backup.
Source: `storage/backup_service.py`, `extract_backup_blocks`. -/
def zipOf (V : ZipVault) (backupId : String) : Except String ZipFile :=
  match (V.records.get? backupId).bind BackupRecord.archivePath with
  | none => .error ("Backup '" ++ backupId ++ "' not found")
  | some path =>
      match V.files.get? path with
      | none => .error ("[Errno 2] No such file or directory: '" ++ path ++ "'")
      | some zip => .ok zip

end ZipVault

/-- The contents of the members of a directory, in the order of the names.
Source: `storage/backup_service.py`, `extract_backup_blocks`. -/
def ZipFile.inDirectory (zip : ZipFile) (directory : String) : List ByteArray :=
  (zip.names.filter fun name => name.startsWith (directory ++ "/") && name.endsWith ".json").map
    fun name => (zip.read? name).getD ByteArray.empty

/-- The placements and the blocks of an archive; the snapshots are read as well.
Source: `storage/backup_service.py`, `extract_backup_blocks`. -/
def ZipFile.extract (J : ArchiveTexts) (zip : ZipFile) :
    Except String (Dict String (List String) × List (Except String SnapshotBlock)) :=
  match (zip.inDirectory "blocks").mapM J.loadBlock with
  | .error e => .error e
  | .ok blocks =>
      match (zip.inDirectory "snapshots").mapM J.loadSnapshotId with
      | .error e => .error e
      | .ok _ => .ok (zip.metadata.placements, blocks)

section Restore

variable {W : Type}

/-- A block as it was read is written or deleted, if it has its fields.
Source: `storage/restore_service.py`, `restore_backup`. -/
def RestoreWiring.restoreLoaded (R : RestoreWiring W) : Except String SnapshotBlock → Call W
  | .error e => fun w => (w, .error e)
  | .ok block => R.restoreBackupBlock block

/-- Source: `storage/restore_service.py`, `restore_backup`. -/
def RestoreWiring.applyLoaded (R : RestoreWiring W) (blocks : List (Except String SnapshotBlock))
    (placements : Dict String (List String)) : Call W :=
  R.clear.andThen ((forEach R.restoreLoaded blocks : Call W).andThen
    (forEach (fun item => R.restorePlacement item.1 1 item.2) placements.entries))

/-- The blocks after a restore, and the job.
Source: `storage/restore_service.py`, `restore_backup`. -/
def RestoreWiring.restoreZip (R : RestoreWiring W) (J : ArchiveTexts) (V : ZipVault) (w : W)
    (backupId : String) : W × RestoreJob :=
  match (V.zipOf backupId).bind (ZipFile.extract J) with
  | .error e => (w, ⟨backupId, .failed, some e⟩)
  | .ok (placements, blocks) =>
      match R.applyLoaded blocks placements w with
      | (w', .ok ()) => (w', ⟨backupId, .completed, none⟩)
      | (w', .error e) => (w', ⟨backupId, .failed, some e⟩)

/-- Blocks that have their fields are restored as they are. -/
theorem RestoreWiring.applyLoaded_ok (R : RestoreWiring W) (blocks : List SnapshotBlock)
    (placements : Dict String (List String)) :
    R.applyLoaded (blocks.map .ok) placements = R.applyBackup blocks placements := by
  have hblocks : (forEach R.restoreLoaded (blocks.map .ok) : Call W) =
      forEach R.restoreBackupBlock blocks := funext fun w => forEach_map _ _ _ _
  unfold RestoreWiring.applyLoaded RestoreWiring.applyBackup
  rw [hblocks]

end Restore

/-! ## The two computations -/

/-- A common start leaves the order of texts. -/
theorem append_le_append_left (s : String) {t t' : String} (h : t ≤ t') : s ++ t ≤ s ++ t' := by
  rw [String.le_iff_toList_le, String.toList_append, String.toList_append]
  rcases h.lt_or_eq with hlt | rfl
  · exact le_of_lt (List.append_left_lt (String.lt_iff_toList_lt.mp hlt))
  · exact le_rfl

namespace ArchiveFile

instance : Std.Total PathLe where
  total file file' := by
    unfold PathLe
    rcases lt_trichotomy file.directory file'.directory with hlt | heq | hlt
    · exact Or.inl (Or.inl hlt)
    · rcases le_total file.name file'.name with hle | hle
      · exact Or.inl (Or.inr ⟨heq, hle⟩)
      · exact Or.inr (Or.inr ⟨heq.symm, hle⟩)
    · exact Or.inr (Or.inl hlt)

instance : IsTrans ArchiveFile PathLe where
  trans file₁ file₂ file₃ h₁₂ h₂₃ := by
    rcases h₁₂ with hlt | ⟨heq, hle⟩
    · rcases h₂₃ with hlt' | ⟨heq', -⟩
      · exact Or.inl (hlt.trans hlt')
      · exact Or.inl (heq' ▸ hlt)
    · rcases h₂₃ with hlt' | ⟨heq', hle'⟩
      · exact Or.inl (heq ▸ hlt')
      · exact Or.inr ⟨heq.trans heq', hle.trans hle'⟩

/-- The directories of an archive. -/
def InArchive (file : ArchiveFile) : Prop :=
  file.directory = "blocks" ∨ file.directory = "snapshots"

variable {file file' : ArchiveFile}

theorem blocks_lt_snapshots (name name' : String) :
    "blocks" ++ "/" ++ name < "snapshots" ++ "/" ++ name' := by
  rw [String.lt_iff_toList_lt]
  simp only [String.toList_append]
  exact List.Lex.rel (by decide)

/-- In an archive the order of the paths is that of the names. -/
theorem arcname_le (hfile : file.InArchive) (hfile' : file'.InArchive) (h : PathLe file file') :
    file.arcname ≤ file'.arcname := by
  obtain ⟨directory, name, content⟩ := file
  obtain ⟨directory', name', content'⟩ := file'
  unfold PathLe at h
  unfold arcname
  rcases h with hlt | ⟨heq, hle⟩
  · rcases hfile with hdir | hdir <;> rcases hfile' with hdir' | hdir' <;>
      simp only at hdir hdir' hlt <;> subst hdir <;> subst hdir'
    · exact absurd hlt (lt_irrefl _)
    · exact (blocks_lt_snapshots name name').le
    · exact absurd hlt (by decide)
    · exact absurd hlt (lt_irrefl _)
  · simp only at heq hle
    subst heq
    exact append_le_append_left _ hle

/-- In an archive a name tells the directory and the file. -/
theorem arcname_inj (hfile : file.InArchive) (hfile' : file'.InArchive)
    (h : file.arcname = file'.arcname) :
    file.directory = file'.directory ∧ file.name = file'.name := by
  obtain ⟨directory, name, content⟩ := file
  obtain ⟨directory', name', content'⟩ := file'
  unfold arcname at h
  rcases hfile with hdir | hdir <;> rcases hfile' with hdir' | hdir' <;>
    simp only at hdir hdir' h <;> subst hdir <;> subst hdir'
  · exact ⟨rfl, (String.append_right_inj _).mp h⟩
  · exact absurd h (blocks_lt_snapshots name name').ne
  · exact absurd h (blocks_lt_snapshots name' name).ne'
  · exact ⟨rfl, (String.append_right_inj _).mp h⟩

/-- No file in a directory has the name of the metadata. -/
theorem arcname_ne_metadata (file : ArchiveFile) : file.arcname ≠ "metadata.json" := by
  intro h
  have hslash : '/' ∈ file.arcname.toList := by
    unfold arcname
    simp only [String.toList_append]
    exact List.mem_append_left _ (List.mem_append_right _ (by decide))
  rw [h] at hslash
  revert hslash
  decide

end ArchiveFile

namespace Archive

variable {J : ArchiveTexts} {archive : Archive}

theorem inArchive_of_mem_files {file : ArchiveFile} (h : file ∈ archive.files J) :
    file.InArchive := by
  unfold files at h
  rcases List.mem_append.mp h with h | h
  · obtain ⟨item, -, rfl⟩ := List.mem_map.mp h
    exact Or.inl rfl
  · obtain ⟨item, -, rfl⟩ := List.mem_map.mp h
    exact Or.inr rfl

/-- No two files of an archive have one name. -/
theorem nodup_arcname (J : ArchiveTexts) (archive : Archive) :
    ((archive.files J).map ArchiveFile.arcname).Nodup := by
  have hne : "blocks" ≠ "snapshots" := by decide
  have hinj : ∀ file ∈ archive.files J, ∀ file' ∈ archive.files J,
      file.arcname = file'.arcname → file = file' := by
    intro file hfile file' hfile' h
    obtain ⟨hdir, hname⟩ := ArchiveFile.arcname_inj (inArchive_of_mem_files hfile)
      (inArchive_of_mem_files hfile') h
    unfold files at hfile hfile'
    rcases List.mem_append.mp hfile with hfile | hfile <;>
      rcases List.mem_append.mp hfile' with hfile' | hfile' <;>
      obtain ⟨item, hitem, rfl⟩ := List.mem_map.mp hfile <;>
      obtain ⟨item', hitem', rfl⟩ := List.mem_map.mp hfile'
    · rw [List.inj_on_of_nodup_map archive.blocks.nodup hitem hitem' hname]
    · exact absurd hdir hne
    · exact absurd hdir hne.symm
    · have hsid : item.1 = item'.1 := (String.append_left_inj _).mp hname
      rw [List.inj_on_of_nodup_map archive.snapshots.nodup hitem hitem' hsid]
  refine List.Nodup.map_on hinj ?_
  unfold files
  rw [List.nodup_append]
  refine ⟨?_, ?_, ?_⟩
  · exact (archive.blocks.nodup.of_map _).map_on fun item hitem item' hitem' h =>
      List.inj_on_of_nodup_map archive.blocks.nodup hitem hitem' (congrArg ArchiveFile.name h)
  · refine (archive.snapshots.nodup.of_map _).map_on fun item hitem item' hitem' h => ?_
    exact List.inj_on_of_nodup_map archive.snapshots.nodup hitem hitem'
      ((String.append_left_inj _).mp (congrArg ArchiveFile.name h))
  · intro file hfile file' hfile'
    obtain ⟨item, -, rfl⟩ := List.mem_map.mp hfile
    obtain ⟨item', -, rfl⟩ := List.mem_map.mp hfile'
    exact fun h => absurd (congrArg ArchiveFile.directory h) hne

end Archive

/-! ## Archives that were created -/

section Created

variable {sha256 : ByteArray → String} {J : ArchiveTexts} {archive : Archive}

/-- The files that go into the zip file, in their order. -/
def Archive.zipped (J : ArchiveTexts) (archive : Archive) : List ArchiveFile :=
  ((archive.files J).insertionSort ArchiveFile.PathLe).filter fun file =>
    file.name ≠ "metadata.json"

theorem Archive.mem_files_of_mem_zipped {file : ArchiveFile} (h : file ∈ archive.zipped J) :
    file ∈ archive.files J :=
  (List.perm_insertionSort _ _).mem_iff.mp (List.mem_filter.mp h).1

theorem Archive.nodup_arcname_zipped (J : ArchiveTexts) (archive : Archive) :
    ((archive.zipped J).map ArchiveFile.arcname).Nodup := by
  refine ((((List.perm_insertionSort ArchiveFile.PathLe _).map _).nodup_iff).mpr
    (archive.nodup_arcname J)).sublist ?_
  exact List.filter_sublist.map _

/-- The files are in the order of their names. -/
theorem Archive.sorted_zipped (J : ArchiveTexts) (archive : Archive) :
    ((archive.zipped J).map ArchiveFile.arcname).Pairwise (· ≤ ·) := by
  rw [List.pairwise_map]
  have hpaths : (archive.zipped J).Pairwise ArchiveFile.PathLe :=
    (List.pairwise_insertionSort ArchiveFile.PathLe _).sublist List.filter_sublist
  refine hpaths.imp_of_mem fun hfile hfile' hle => ?_
  exact ArchiveFile.arcname_le (inArchive_of_mem_files (mem_files_of_mem_zipped hfile))
    (inArchive_of_mem_files (mem_files_of_mem_zipped hfile')) hle

theorem members_createZip (sha256 : ByteArray → String) (J : ArchiveTexts) (archive : Archive) :
    (createZip sha256 J archive).members =
      (archive.zipped J).map fun file => (file.arcname, file.content) := rfl

/-- The names of an archive that was created, sorted and without the metadata, are those of its files
in their order. -/
theorem sorted_names_createZip (sha256 : ByteArray → String) (J : ArchiveTexts)
    (archive : Archive) :
    ((createZip sha256 J archive).names.insertionSort (· ≤ ·)).filter (· ≠ "metadata.json") =
      (archive.zipped J).map ArchiveFile.arcname := by
  have hnames : (createZip sha256 J archive).names =
      (archive.zipped J).map ArchiveFile.arcname ++ ["metadata.json"] := by
    unfold ZipFile.names
    rw [members_createZip, List.map_map]
    rfl
  have hfilter : ((archive.zipped J).map ArchiveFile.arcname ++ ["metadata.json"]).filter
      (· ≠ "metadata.json") = (archive.zipped J).map ArchiveFile.arcname := by
    rw [List.filter_append, List.filter_eq_self.mpr fun name hname => ?_]
    · exact List.append_nil _
    · obtain ⟨file, -, rfl⟩ := List.mem_map.mp hname
      exact decide_eq_true file.arcname_ne_metadata
  have hperm : (((createZip sha256 J archive).names.insertionSort (· ≤ ·)).filter
      (· ≠ "metadata.json")).Perm ((archive.zipped J).map ArchiveFile.arcname) := by
    refine ((List.perm_insertionSort (· ≤ ·) _).filter _).trans ?_
    rw [hnames, hfilter]
  refine List.Perm.eq_of_pairwise (fun _ _ _ _ => le_antisymm) ?_ (archive.sorted_zipped J) hperm
  exact (List.pairwise_insertionSort (· ≤ ·) (createZip sha256 J archive).names).sublist
    List.filter_sublist

/-- The members of an archive that was created are read back. -/
theorem read?_createZip {file : ArchiveFile} (h : file ∈ archive.zipped J) :
    (createZip sha256 J archive).read? file.arcname = some file.content := by
  have hmem : (file.arcname, file.content) ∈ (createZip sha256 J archive).members.reverse := by
    rw [List.mem_reverse, members_createZip]
    exact List.mem_map_of_mem h
  have hnodup : ((createZip sha256 J archive).members.reverse.map Prod.fst).Nodup := by
    rw [List.map_reverse, List.nodup_reverse, members_createZip, List.map_map]
    exact archive.nodup_arcname_zipped J
  unfold ZipFile.read?
  rcases hfind : (createZip sha256 J archive).members.reverse.find? (·.1 = file.arcname) with
    _ | member
  · exact absurd (decide_eq_true rfl) (List.find?_eq_none.mp hfind _ hmem)
  · have hfound := List.find?_some hfind
    have hname : member.1 = file.arcname := of_decide_eq_true hfound
    rw [hfind, Option.map_some,
      List.inj_on_of_nodup_map hnodup (List.mem_of_find?_eq_some hfind) hmem hname]

/-- A name without a backslash. -/
def Plain (name : String) : Prop := '\\' ∉ name.toList

theorem normalized_eq_self {name : String} (h : Plain name) : normalized name = name := by
  unfold normalized
  rw [← String.toList_inj, String.toList_map]
  refine (List.map_congr_left fun c hc => ?_).trans (List.map_id _)
  rw [if_neg]
  · rfl
  · rintro rfl
    exact h hc

/-- The file names of blocks have no backslash. -/
theorem plain_filename (block : SnapshotBlock) : Plain block.filename := by
  have hid : Plain (safeId block.blockId) := by
    unfold Plain safeId underscored
    rw [String.toList_map]
    intro hmem
    obtain ⟨c, -, hc⟩ := List.mem_map.mp hmem
    split at hc
    · exact absurd hc (by decide)
    · rename_i hne
      exact hne hc
  have hnumber : Plain (toString block.version) :=
    notMem_repr (by decide) (by decide) block.version
  unfold Plain SnapshotBlock.filename safeBlockFilename numbered
  rw [String.toList_append, String.toList_append, String.toList_append]
  intro hmem
  rcases List.mem_append.mp hmem with hmem | hmem
  · rcases List.mem_append.mp hmem with hmem | hmem
    · rcases List.mem_append.mp hmem with hmem | hmem
      · exact hid hmem
      · revert hmem
        decide
    · exact hnumber hmem
  · revert hmem
    decide

/-- An archive whose file names have no backslash. -/
structure PlainNames (archive : Archive) : Prop where
  blocks : ∀ name ∈ archive.blocks.keys, Plain name
  snapshots : ∀ sid ∈ archive.snapshots.keys, Plain sid

theorem PlainNames.arcname (h : PlainNames archive) {file : ArchiveFile}
    (hfile : file ∈ archive.files J) : Plain file.arcname := by
  have happend : ∀ {s t : String}, Plain s → Plain t → Plain (s ++ t) := by
    intro s t hs ht hmem
    rw [String.toList_append] at hmem
    exact (List.mem_append.mp hmem).elim hs ht
  unfold Archive.files at hfile
  rcases List.mem_append.mp hfile with hfile | hfile
  · obtain ⟨item, hitem, rfl⟩ := List.mem_map.mp hfile
    have hdir : Plain ("blocks" ++ "/") := by
      unfold Plain
      decide
    exact happend hdir (h.blocks item.1 (List.mem_map_of_mem hitem))
  · obtain ⟨item, hitem, rfl⟩ := List.mem_map.mp hfile
    have hdir : Plain ("snapshots" ++ "/") := by
      unfold Plain
      decide
    have hjson : Plain ".json" := by
      unfold Plain
      decide
    exact happend hdir (happend (h.snapshots item.1 (List.mem_map_of_mem hitem)) hjson)

/-- What a call of `create_backup` archives has such names, if the ids of the snapshots have. -/
theorem plainNames_of_buildArchive {refuses : String → Option String} {store : SnapshotStore}
    {S : Backups} {call : BackupCall} (h : S.buildArchive refuses store call = .ok archive)
    (hsnapshots : ∀ sid ∈ archive.snapshots.keys, Plain sid) : PlainNames archive where
  blocks name hname := by
    obtain ⟨sids, base, -, -, -, hblocks, -⟩ := Backups.buildArchive_eq_ok h
    obtain ⟨block, hblock⟩ := Dict.mem_keys.mp hname
    rw [hblocks] at hblock
    rw [← Dict.key_of_get?_collect hblock]
    exact plain_filename block
  snapshots := hsnapshots

/-- The checksum of an archive that was created is the one that it carries. -/
theorem verifyChecksum_createZip (h : PlainNames archive) :
    verifyChecksum sha256 (createZip sha256 J archive) = true := by
  have hcomputed : computeArchiveChecksum sha256 (createZip sha256 J archive) =
      (createZip sha256 J archive).checksum := by
    unfold computeArchiveChecksum
    rw [sorted_names_createZip, List.map_map]
    refine congrArg (fun members => sha256 (digestInput members))
      (List.map_congr_left fun file hfile => ?_)
    rw [Function.comp_apply, read?_createZip hfile, Option.getD_some,
      normalized_eq_self (h.arcname (Archive.mem_files_of_mem_zipped hfile))]
  unfold verifyChecksum
  split
  · rfl
  · exact decide_eq_true hcomputed

end Created

/-! ## Checksums that do not tell archives apart -/

/-- The checksum of an archive with one member. -/
theorem computeArchiveChecksum_singleton (sha256 : ByteArray → String) (metadata : BackupMetadata)
    (checksum : String) {name : String} (content : ByteArray) (hname : name ≠ "metadata.json") :
    computeArchiveChecksum sha256 ⟨metadata, checksum, [(name, content)]⟩ =
      sha256 (digestInput [(normalized name, content)]) := by
  have hnames : (([name] ++ ["metadata.json"]).insertionSort (· ≤ ·)).filter
      (· ≠ "metadata.json") = [name] := by
    rw [List.singleton_append, List.insertionSort_cons, List.insertionSort_cons,
      List.insertionSort_nil, List.orderedInsert_nil, List.orderedInsert_cons]
    split <;> simp [hname]
  unfold computeArchiveChecksum ZipFile.names
  simp only [List.map_cons, List.map_nil, hnames]
  congr 2
  unfold ZipFile.read?
  simp

/-- Bytes can move from the start of a content to the end of the name before it. -/
theorem computeArchiveChecksum_collides (sha256 : ByteArray → String) (metadata : BackupMetadata)
    (checksum : String) {name moved : String} (content : ByteArray) (hname : Plain name)
    (hmoved : Plain moved) (hne : name ≠ "metadata.json") (hne' : name ++ moved ≠ "metadata.json") :
    computeArchiveChecksum sha256 ⟨metadata, checksum, [(name, moved.toByteArray ++ content)]⟩ =
      computeArchiveChecksum sha256 ⟨metadata, checksum, [(name ++ moved, content)]⟩ := by
  have hplain : Plain (name ++ moved) := by
    unfold Plain
    rw [String.toList_append]
    exact fun hmem => (List.mem_append.mp hmem).elim hname hmoved
  rw [computeArchiveChecksum_singleton _ _ _ _ hne, computeArchiveChecksum_singleton _ _ _ _ hne',
    normalized_eq_self hname, normalized_eq_self hplain]
  refine congrArg sha256 ?_
  unfold digestInput
  simp only [List.foldl_cons, List.foldl_nil, String.toByteArray_append, ByteArray.append_assoc]

/-! ## The statement -/

/-- The second archive has the `metadata.json` of the first, with its checksum, and other members
under `blocks` or `snapshots`: a name or a content differs. -/
structure Tampered (zip zip' : ZipFile) : Prop where
  metadata : zip'.metadata = zip.metadata
  checksum : zip'.checksum = zip.checksum
  members : ∃ directory ∈ ["blocks", "snapshots"], ∃ name : String,
    zip.read? (directory ++ "/" ++ name) ≠ zip'.read? (directory ++ "/" ++ name)

/-- The archive at a path is registered as a `READY` backup. -/
def ZipVault.Registers (V : ZipVault) (path backupId : String) : Prop :=
  ∃ record, V.records.get? backupId = some record ∧ record.status = .ready ∧
    record.archivePath = some path

section Statement

variable {W : Type} {sha256 : ByteArray → String} {J : ArchiveTexts} {V : ZipVault}
  {path : String} {zip zip' : ZipFile}

/-- How an archive that was created, and another one at a path, should be met: the first is accepted,
and if the second is the first tampered with, it is neither registered by an import nor applied by a
restore. -/
def TamperProof (sha256 : ByteArray → String) (J : ArchiveTexts) (R : RestoreWiring W) (V : ZipVault)
    (w : W) (path : String) (zip zip' : ZipFile) : Prop :=
  verifyChecksum sha256 zip = true ∧
    (Tampered zip zip' →
      ¬ (V.importBackup sha256 path).1.Registers path zip'.metadata.backupId ∧
      (R.restoreZip J (V.importBackup sha256 path).1 w zip'.metadata.backupId).1 = w)

/-- An import registers whatever archive it is given. -/
theorem ZipVault.registers_import (hpath : V.files.get? path = some zip) :
    (V.importBackup sha256 path).1.Registers path zip.metadata.backupId := by
  have himport : (V.importBackup sha256 path).1 =
      V.saveBackup zip.metadata.backupId (zip.record path) := by
    unfold ZipVault.importBackup
    simp only [hpath]
    split <;> rfl
  rw [himport]
  unfold ZipVault.Registers ZipVault.saveBackup Backups.saveBackup
  rcases V.records.get? zip.metadata.backupId with _ | old
  · exact ⟨zip.record path, Dict.get?_set_self, rfl, rfl⟩
  · exact ⟨_, Dict.get?_set_self, rfl, rfl⟩

/-- A restore of an archive that was imported applies what is in it, whatever its checksum. -/
theorem RestoreWiring.restoreZip_import (R : RestoreWiring W) (w : W)
    (hpath : V.files.get? path = some zip) {placements : Dict String (List String)}
    {blocks : List (Except String SnapshotBlock)}
    (hextract : zip.extract J = .ok (placements, blocks)) :
    (R.restoreZip J (V.importBackup sha256 path).1 w zip.metadata.backupId).1 =
      (R.applyLoaded blocks placements w).1 := by
  have hregisters : (V.importBackup sha256 path).1.Registers path zip.metadata.backupId :=
    ZipVault.registers_import hpath
  obtain ⟨record, hrecord, -, harchive⟩ := hregisters
  have hfiles : (V.importBackup sha256 path).1.files = V.files := by
    unfold ZipVault.importBackup
    simp only [hpath]
    split <;> rfl
  have hzip : (V.importBackup sha256 path).1.zipOf zip.metadata.backupId = .ok zip := by
    unfold ZipVault.zipOf
    rw [hrecord, Option.bind_some, harchive, hfiles]
    simp only [hpath]
  unfold RestoreWiring.restoreZip
  rw [hzip]
  simp only [Except.bind, hextract]
  rcases R.applyLoaded blocks placements w with ⟨w', err | ⟨⟩⟩ <;> rfl

/-- An archive that was created is accepted, and another one is met as it should be just when it is
not the first tampered with. -/
theorem tampering_iff (sha256 : ByteArray → String) (J : ArchiveTexts) (R : RestoreWiring W) (w : W)
    {refuses : String → Option String} {store : SnapshotStore} {S : Backups} {call : BackupCall}
    {archive : Archive} (hbuilt : S.buildArchive refuses store call = .ok archive)
    (hsnapshots : ∀ sid ∈ archive.snapshots.keys, Plain sid)
    (hpath : V.files.get? path = some zip') :
    TamperProof sha256 J R V w path (createZip sha256 J archive) zip' ↔
      ¬ Tampered (createZip sha256 J archive) zip' := by
  constructor
  · rintro ⟨-, hrefused⟩ htampered
    exact (hrefused htampered).1 (ZipVault.registers_import hpath)
  · intro hsame
    refine ⟨verifyChecksum_createZip (plainNames_of_buildArchive hbuilt hsnapshots), ?_⟩
    exact fun htampered => absurd htampered hsame

end Statement

/-! ## An archive that is tampered with -/

/-- A function on bytes that tells all inputs apart. -/
def spelled (bytes : ByteArray) : String :=
  String.ofList (bytes.data.toList.map fun byte => Char.ofNat byte.toNat)

theorem spelled_injective : Function.Injective spelled := by
  have hchar : Function.Injective fun byte : UInt8 => Char.ofNat byte.toNat := by
    intro byte byte' h
    have hvalid : ∀ byte : UInt8, (Char.ofNat byte.toNat).toNat = byte.toNat := by
      intro byte
      have hlt : byte.toNat < 256 := byte.toNat_lt
      rw [Char.toNat_ofNat, if_pos (Or.inl (by omega))]
    have hnat := congrArg Char.toNat h
    simp only [hvalid] at hnat
    exact UInt8.toNat_inj.mp hnat
  intro bytes bytes' h
  have hlist := List.map_injective_iff.mpr hchar (String.ofList_injective h)
  exact ByteArray.ext (Array.toList_inj.mp hlist)

/-- The text of a block that was put into an archive. -/
def evilText : String :=
  "\x7b\"block_id\": \"b1\", \"version\": 1, \"data\": \"evil\", \"deleted\": false\x7d"

/-- Texts of records without special characters, and what reading that text gives. -/
def plainTexts : ArchiveTexts where
  dumpBlock block := "\x7b\"block_id\": \"" ++ block.blockId ++ "\", \"version\": " ++
    toString block.version ++ ", \"data\": " ++
    (match block.data with
      | none => "null"
      | some data => "\"" ++ data ++ "\"") ++
    ", \"deleted\": " ++ toString block.deleted ++ "\x7d"
  dumpSnapshot sid row := "\x7b\"snapshot_id\":\"" ++ sid ++ "\",\"timestamp\":" ++
    toString row.timestamp ++ ",\"block_count\":" ++ toString row.blockCount ++
    ",\"metadata_version\":" ++ toString row.metadataVersion ++ ",\"status\":\"" ++
    row.status.value ++ "\",\"size_bytes\":" ++ toString row.sizeBytes ++
    ",\"placements\":\x7b\x7d,\"error\":null\x7d"
  loadBlock content :=
    if content = evilText.toByteArray then .ok (.ok ⟨"b1", 1, some "evil", false⟩)
    else .error "Expecting value: line 1 column 1 (char 0)"
  loadSnapshotId _ := .ok (some "s1")

/-- A store with one snapshot of no blocks. -/
def oneEmptySnapshot : SnapshotStore :=
  { SnapshotStore.empty with
    snapshots := Dict.empty.set "s1" ⟨1000, 0, 1, .ready, 0, Dict.empty, none⟩ }

/-- A call that archives it. -/
def emptyBackup : BackupCall := ⟨"bk1", .full, none, .ok ["s1"], 2000, 1, Dict.empty⟩

/-- What the call archives. -/
def emptyArchive : Archive where
  metadata := ⟨"bk1", .full, 2000, ["s1"], 1, Dict.empty, 0⟩
  snapshots := Dict.empty.set "s1" ⟨1000, 0, 1, .ready, 0, Dict.empty, none⟩
  blocks := Dict.empty

theorem buildArchive_emptyBackup :
    Backups.empty.buildArchive (fun _ => none) oneEmptySnapshot emptyBackup = .ok emptyArchive :=
  rfl

/-- The zip file of the call with a block more. -/
def evilZip : ZipFile :=
  { createZip spelled plainTexts emptyArchive with
    members := (createZip spelled plainTexts emptyArchive).members ++
      [("blocks/b1__v1.json", evilText.toByteArray)] }

/-- It is at a path. -/
def evilVault : ZipVault := ⟨Dict.empty, Dict.empty.set "evil.zip" evilZip⟩

theorem tampered_evilZip : Tampered (createZip spelled plainTexts emptyArchive) evilZip where
  metadata := rfl
  checksum := rfl
  members := by
    refine ⟨"blocks", List.mem_cons_self, "b1__v1.json", ?_⟩
    have hname : "blocks" ++ "/" ++ "b1__v1.json" = "blocks/b1__v1.json" := by decide
    have hadded : evilZip.read? "blocks/b1__v1.json" = some evilText.toByteArray := by
      unfold ZipFile.read? evilZip
      simp only [List.reverse_concat, List.find?_cons_of_pos, decide_true, Option.map_some]
    have habsent : (createZip spelled plainTexts emptyArchive).read? "blocks/b1__v1.json" = none := by
      unfold ZipFile.read?
      rw [Option.map_eq_none_iff, List.find?_eq_none]
      intro member hmember
      rw [List.mem_reverse, members_createZip] at hmember
      obtain ⟨file, hfile, rfl⟩ := List.mem_map.mp hmember
      obtain rfl := List.mem_singleton.mp (Archive.mem_files_of_mem_zipped hfile)
      decide
    rw [hname, hadded, habsent]
    exact fun h => by cases h

/-- A restore into an engine, without placements. -/
def intoEngine : RestoreWiring (LocalEngine × Unit) :=
  LocalEngine.restoring .asListed fun _ _ _ m => (m, .ok ())

/-- An archive that was not tampered with: the one that was created, of two blocks whose files come in
the other order. -/
theorem tampering_iff_created : ∃ store archive, Backups.pairSnapshot "a" "a_" = some store ∧
    Backups.empty.buildArchive (fun _ => none) store emptyBackup = .ok archive ∧
    (archive.zipped plainTexts).map ArchiveFile.arcname =
      ["blocks/a___v1.json", "blocks/a__v1.json", "snapshots/s1.json"] ∧
    TamperProof spelled plainTexts intoEngine
      ⟨Dict.empty, Dict.empty.set "bk1.zip" (createZip spelled plainTexts archive)⟩
      (.empty "node1", ()) "bk1.zip" (createZip spelled plainTexts archive)
      (createZip spelled plainTexts archive) := by
  have hrun : (Backups.pairSnapshot "a" "a_").map (fun store =>
      (Backups.empty.buildArchive (fun _ => none) store emptyBackup).toOption.map fun archive =>
        ((archive.zipped plainTexts).map ArchiveFile.arcname, archive.snapshots.keys)) =
      some (some (["blocks/a___v1.json", "blocks/a__v1.json", "snapshots/s1.json"], ["s1"])) := by
    decide +kernel
  obtain ⟨store, hstore, hbuilt⟩ := Option.map_eq_some_iff.mp hrun
  obtain ⟨archive, harchive, hpair⟩ := Option.map_eq_some_iff.mp hbuilt
  obtain ⟨hnames, hsids⟩ := Prod.mk.inj hpair
  have hok : Backups.empty.buildArchive (fun _ => none) store emptyBackup = .ok archive := by
    rcases hresult : Backups.empty.buildArchive (fun _ => none) store emptyBackup with e | archive'
    · rw [hresult] at harchive
      cases harchive
    · rw [hresult] at harchive
      exact congrArg _ (Option.some.inj harchive)
  have hplain : ∀ sid ∈ archive.snapshots.keys, Plain sid := by
    intro sid hsid
    rw [hsids] at hsid
    obtain rfl := List.mem_singleton.mp hsid
    unfold Plain
    decide
  refine ⟨store, archive, hstore, hok, hnames, ?_⟩
  refine (tampering_iff spelled plainTexts intoEngine _ hok hplain Dict.get?_set_self).mpr fun h => ?_
  obtain ⟨_, _, _, hne⟩ := h.members
  exact hne rfl

/-- The archive with a block more is registered. -/
theorem tampering_counterexample : ¬ ∀ sha256 : ByteArray → String, Function.Injective sha256 →
    ∀ (J : ArchiveTexts) (V : ZipVault) (w : LocalEngine × Unit) (path : String) (zip' : ZipFile)
      (refuses : String → Option String) (store : SnapshotStore) (S : Backups) (call : BackupCall)
      (archive : Archive), S.buildArchive refuses store call = .ok archive →
      V.files.get? path = some zip' →
      TamperProof sha256 J intoEngine V w path (createZip sha256 J archive) zip' := by
  intro h
  have hproof := h spelled spelled_injective plainTexts evilVault (.empty "node1", ()) "evil.zip"
    evilZip (fun _ => none) oneEmptySnapshot Backups.empty emptyBackup emptyArchive
    buildArchive_emptyBackup Dict.get?_set_self
  exact (hproof.2 tampered_evilZip).1 (ZipVault.registers_import Dict.get?_set_self)

end NanoFabric.Storage
