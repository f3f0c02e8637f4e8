import NanoFabric.Found.RefCount
import NanoFabric.Metadata.Stores

/-!
# The snapshot store

`SnapshotStore` of `storage/snapshot_store.py`: the tables `snapshots`, `block_versions` and
`snapshot_blocks` of `snapshots.db`. The contents of a block at a version are shared between the
snapshots that refer to them and counted.

* `mem_getSnapshotBlocks` — the blocks of a snapshot are its references with their contents.
* `getOrCreateBlockVersion_ok` — what sharing a block version does.
* `Counted` — the counts cover the references, which every operation keeps.
* `entry_deleteSnapshot`, `entry_reclaimOrphanBlocks` — what is dropped is in no other snapshot.

The tables of policies, backups and restore jobs are left out, and so is the check of the sizes that
a snapshot records.
-/

namespace NanoFabric.Storage

open NanoFabric.Found
open NanoFabric.Metadata (StoreError)
open NanoFabric.Node (Bindable)

/-! ## The tables -/

/-- Source: `storage/models.py`, `SnapshotStatus`. -/
inductive SnapshotStatus
  | creating
  | ready
  | failed
  | deleting
  | restoring
deriving DecidableEq, Repr

/-- Source: `storage/models.py`, `SnapshotStatus`. -/
def SnapshotStatus.value : SnapshotStatus → String
  | creating => "CREATING"
  | ready => "READY"
  | failed => "FAILED"
  | deleting => "DELETING"
  | restoring => "RESTORING"

/-- A row of `snapshots`, whose key is the id. -/
structure SnapshotRecord where
  timestamp : ℤ
  blockCount : ℕ
  metadataVersion : ℤ
  status : SnapshotStatus
  sizeBytes : ℕ
  placements : Dict String (List String)
  error : Option String

/-- A row of `block_versions`, whose key is the version id. -/
structure BlockVersion where
  blockId : String
  version : ℤ
  data : Option String
  deleted : Bool
  refCount : ℤ
deriving DecidableEq, Repr

/-- What a snapshot records of a block. -/
structure SnapshotBlock where
  blockId : String
  version : ℤ
  data : Option String
  deleted : Bool
deriving DecidableEq, Repr

namespace BlockVersion

/-- `ref_count` as a count. -/
def counter : Counter BlockVersion where
  count := refCount
  bump z row := { row with refCount := row.refCount + z }
  count_bump _ _ := rfl

/-- The contents of a row, under the id of a block. -/
def content (blockId : String) (row : BlockVersion) : SnapshotBlock :=
  ⟨blockId, row.version, row.data, row.deleted⟩

/-- The key of `UNIQUE(block_id, version)`. -/
def sharedKey (row : BlockVersion) : String × ℤ := (row.blockId, row.version)

end BlockVersion

/-- No two rows share a block and a version. -/
def Distinct (rows : Dict String BlockVersion) : Prop :=
  ∀ w w' r r', rows.get? w = some r → rows.get? w' = some r' → r.sharedKey = r'.sharedKey → w = w'

/-- Rows with the keys of distinct rows are distinct. -/
theorem Distinct.of_keys {rows rows' : Dict String BlockVersion} (h : Distinct rows)
    (hkeys : ∀ w r', rows'.get? w = some r' → ∃ r, rows.get? w = some r ∧
      r.sharedKey = r'.sharedKey) : Distinct rows' := by
  intro w w' r r' hr hr' hkey
  obtain ⟨u, hu, hukey⟩ := hkeys w r hr
  obtain ⟨u', hu', hukey'⟩ := hkeys w' r' hr'
  exact h w w' u u' hu hu' (hukey.trans (hkey.trans hukey'.symm))

theorem Distinct.modify {rows : Dict String BlockVersion} (h : Distinct rows) (w : String) (z : ℤ) :
    Distinct (rows.modify w (BlockVersion.counter.bump z)) := by
  apply h.of_keys
  intro w' r' hr'
  rw [Dict.get?_modify, Option.map_eq_some_iff] at hr'
  obtain ⟨r, hr, rfl⟩ := hr'
  refine ⟨r, hr, ?_⟩
  split <;> rfl

theorem Distinct.lowered {rows : Dict String BlockVersion} (h : Distinct rows)
    (keys : List String) : Distinct (lowered BlockVersion.counter keys rows) := by
  induction keys generalizing rows with
  | nil => exact h
  | cons w keys ih => exact ih (h.modify w (-1))

theorem Distinct.filter {rows : Dict String BlockVersion} (h : Distinct rows)
    (p : String → BlockVersion → Bool) : Distinct (rows.filter p) := by
  apply h.of_keys
  intro w r' hr'
  rw [Dict.get?_filter, Option.filter_eq_some_iff] at hr'
  exact ⟨r', hr'.1, rfl⟩

theorem Distinct.set {rows : Dict String BlockVersion} (h : Distinct rows) {w : String}
    {row : BlockVersion} (hnew : ∀ w r, rows.get? w = some r → r.sharedKey ≠ row.sharedKey) :
    Distinct (rows.set w row) := by
  intro w₁ w₂ r₁ r₂ h₁ h₂ hkey
  rw [Dict.get?_set] at h₁ h₂
  split at h₁ <;> split at h₂
  · rename_i hw₁ hw₂
    exact hw₁.trans hw₂.symm
  · obtain rfl := Option.some.inj h₁
    exact absurd hkey.symm (hnew w₂ r₂ h₂)
  · obtain rfl := Option.some.inj h₂
    exact absurd hkey (hnew w₁ r₁ h₁)
  · exact h w₁ w₂ r₁ r₂ h₁ h₂ hkey

/-- Source: `storage/snapshot_store.py`, `SnapshotStore`. -/
structure SnapshotStore where
  snapshots : Dict String SnapshotRecord
  blockVersions : Dict String BlockVersion
  /-- The version id of a snapshot's block. -/
  snapshotBlocks : Dict (String × String) String
  /-- `UNIQUE(block_id, version)`. -/
  distinct : Distinct blockVersions

namespace SnapshotStore

/-- The store of an empty database. -/
def empty : SnapshotStore := ⟨Dict.empty, Dict.empty, Dict.empty, fun _ _ _ _ h => by cases h⟩

/-! ## Operations -/

/-- Source: `storage/snapshot_store.py`, `create_snapshot_record`. -/
def createSnapshotRecord (s : SnapshotStore) (snapshotId : String) (now metadataVersion : ℤ)
    (placements : Dict String (List String)) : Except StoreError SnapshotStore :=
  if s.snapshots.contains snapshotId then .error .integrity
  else
    let row : SnapshotRecord := ⟨now, 0, metadataVersion, .creating, 0, placements, none⟩
    .ok { s with snapshots := s.snapshots.set snapshotId row }

/-- The version id of the contents of a block at a version. -/
def sharedVersion (s : SnapshotStore) (blockId : String) (version : ℤ) : Option String :=
  (s.blockVersions.entries.find? fun item => item.2.sharedKey = (blockId, version)).map Prod.fst

theorem sharedVersion_eq_some {s : SnapshotStore} {b : String} {v : ℤ} {w : String}
    (h : s.sharedVersion b v = some w) :
    ∃ row, s.blockVersions.get? w = some row ∧ row.sharedKey = (b, v) := by
  obtain ⟨⟨w', row⟩, hfind, rfl⟩ := Option.map_eq_some_iff.mp h
  have hkey := List.find?_some hfind
  exact ⟨row, Dict.mem_entries.mp (List.mem_of_find?_eq_some hfind), of_decide_eq_true hkey⟩

theorem sharedVersion_eq_none {s : SnapshotStore} {b : String} {v : ℤ}
    (h : s.sharedVersion b v = none) {w : String} {row : BlockVersion}
    (hrow : s.blockVersions.get? w = some row) : row.sharedKey ≠ (b, v) := by
  intro hkey
  have hnone := List.find?_eq_none.mp (Option.map_eq_none_iff.mp h) _ (Dict.mem_entries.mpr hrow)
  exact hnone (decide_eq_true hkey)

/-- The contents that are shared as a block at a version. -/
def sharedContent (s : SnapshotStore) (blockId : String) (version : ℤ) : Option SnapshotBlock :=
  (s.sharedVersion blockId version).bind fun versionId =>
    (s.blockVersions.get? versionId).map (BlockVersion.content blockId)

/-- The store with a reference more to the contents of a block at a version, and their id; the
contents that are there already are taken as they are.
Source: `storage/snapshot_store.py`, `get_or_create_block_version`. -/
def getOrCreateBlockVersion (s : SnapshotStore) (blockId : String) (version : ℤ)
    (data : Option String) (deleted : Bool) (newId : String) :
    Except StoreError (SnapshotStore × String) :=
  if ¬ Bindable version then .error .overflow
  else match h : s.sharedVersion blockId version with
    | some versionId =>
        .ok ({ s with
          blockVersions := s.blockVersions.modify versionId (BlockVersion.counter.bump 1)
          distinct := s.distinct.modify versionId 1 }, versionId)
    | none =>
        if s.blockVersions.contains newId then .error .integrity
        else .ok ({ s with
          blockVersions := s.blockVersions.set newId ⟨blockId, version, data, deleted, 1⟩
          distinct := s.distinct.set fun _ _ hrow => sharedVersion_eq_none h hrow }, newId)

/-- Source: `storage/snapshot_store.py`, `add_snapshot_block`. -/
def addSnapshotBlock (s : SnapshotStore) (snapshotId blockId versionId : String) : SnapshotStore :=
  { s with snapshotBlocks := s.snapshotBlocks.set (snapshotId, blockId) versionId }

/-- Source: `storage/snapshot_store.py`, `finalize_snapshot`. -/
def finalizeSnapshot (s : SnapshotStore) (snapshotId : String) (blockCount sizeBytes : ℕ)
    (status : SnapshotStatus) (error : Option String) : SnapshotStore :=
  { s with snapshots := s.snapshots.modify snapshotId fun row =>
    { row with blockCount, sizeBytes, status, error } }

/-- Source: `storage/snapshot_store.py`, `get_snapshot`. -/
def getSnapshot (s : SnapshotStore) (snapshotId : String) : Option SnapshotRecord :=
  s.snapshots.get? snapshotId

/-- The contents that a snapshot records of a block. -/
def entry (s : SnapshotStore) (snapshotId blockId : String) : Option SnapshotBlock :=
  (s.snapshotBlocks.get? (snapshotId, blockId)).bind fun versionId =>
    (s.blockVersions.get? versionId).map (BlockVersion.content blockId)

/-- Source: `storage/snapshot_store.py`, `get_snapshot_blocks`. -/
def getSnapshotBlocks (s : SnapshotStore) (snapshotId : String) : List SnapshotBlock :=
  (s.snapshotBlocks.entries.filterMap fun item =>
    if item.1.1 = snapshotId then
      (s.blockVersions.get? item.2).map (BlockVersion.content item.1.2)
    else none).insertionSort fun block block' => block.blockId ≤ block'.blockId

/-- The store without a snapshot and without the contents that no other one refers to, and the size
of the snapshot; `none` if there is no such snapshot.
Source: `storage/snapshot_store.py`, `delete_snapshot`. -/
def deleteSnapshot (s : SnapshotStore) (snapshotId : String) : Option (SnapshotStore × ℕ) :=
  (s.snapshots.get? snapshotId).map fun row =>
    let mine : String × String → String → Bool := fun item _ => item.1 = snapshotId
    let versionIds := (s.snapshotBlocks.filter mine).values
    ({ snapshots := s.snapshots.erase snapshotId
       blockVersions := collected BlockVersion.counter
         (lowered BlockVersion.counter versionIds s.blockVersions)
       snapshotBlocks := s.snapshotBlocks.filter fun item versionId => !mine item versionId
       distinct := (s.distinct.lowered versionIds).filter _ }, row.sizeBytes)

/-- Source: `storage/snapshot_store.py`, `reclaim_orphan_blocks`. -/
def reclaimOrphanBlocks (s : SnapshotStore) : SnapshotStore :=
  { s with
    blockVersions := collected BlockVersion.counter s.blockVersions
    distinct := s.distinct.filter _ }

/-- Source: `storage/snapshot_store.py`, `recover_interrupted_snapshots`. -/
def recoverInterruptedSnapshots (s : SnapshotStore) : SnapshotStore :=
  { s with snapshots := s.snapshots.mapVals fun _ row =>
    if row.status ∈ [.creating, .restoring, .deleting] then
      { row with status := .failed, error := some "interrupted — recovered on startup" }
    else row }

/-- Source: `storage/snapshot_store.py`, `update_status`. -/
def updateStatus (s : SnapshotStore) (snapshotId : String) (status : SnapshotStatus) :
    SnapshotStore :=
  { s with snapshots := s.snapshots.modify snapshotId fun row => { row with status } }

/-! ## The blocks of a snapshot -/

variable {s s' : SnapshotStore} {sid sid' b b' w : String} {v : ℤ} {data : Option String}
  {deleted : Bool} {held : List String}

theorem blockId_of_entry {block : SnapshotBlock} (h : s.entry sid b = some block) :
    block.blockId = b := by
  obtain ⟨w, -, hrow⟩ := Option.bind_eq_some_iff.mp h
  obtain ⟨row, -, rfl⟩ := Option.map_eq_some_iff.mp hrow
  rfl

/-- The blocks of a snapshot are its references, with the contents that they refer to. -/
theorem mem_getSnapshotBlocks {block : SnapshotBlock} : block ∈ s.getSnapshotBlocks sid ↔
    s.entry sid block.blockId = some block := by
  unfold getSnapshotBlocks
  rw [List.mem_insertionSort, List.mem_filterMap]
  constructor
  · rintro ⟨⟨⟨sid', b⟩, w⟩, hmem, hitem⟩
    simp only [Option.ite_none_right_eq_some] at hitem
    obtain ⟨rfl, hrow⟩ := hitem
    obtain ⟨row, hrow, rfl⟩ := Option.map_eq_some_iff.mp hrow
    have hget : s.snapshotBlocks.get? (sid', (BlockVersion.content b row).blockId) = some w :=
      Dict.mem_entries.mp hmem
    unfold entry
    rw [hget]
    exact hrow
  · intro hentry
    obtain ⟨w, hw, hrow⟩ := Option.bind_eq_some_iff.mp hentry
    exact ⟨((sid, block.blockId), w), Dict.mem_entries.mpr hw, by rw [if_pos rfl]; exact hrow⟩

/-- A block has an entry in a snapshot just when it is one of its blocks. -/
theorem exists_mem_getSnapshotBlocks : (∃ block ∈ s.getSnapshotBlocks sid, block.blockId = b) ↔
    ∃ block, s.entry sid b = some block := by
  constructor
  · rintro ⟨block, hmem, rfl⟩
    exact ⟨block, mem_getSnapshotBlocks.mp hmem⟩
  · rintro ⟨block, hentry⟩
    obtain rfl := blockId_of_entry hentry
    exact ⟨block, mem_getSnapshotBlocks.mpr hentry, rfl⟩

/-- A snapshot has a block once. -/
theorem nodup_getSnapshotBlocks (s : SnapshotStore) (sid : String) :
    ((s.getSnapshotBlocks sid).map SnapshotBlock.blockId).Nodup := by
  have hids : ∀ items : List ((String × String) × String), (items.map Prod.fst).Nodup →
      ((items.filterMap fun item =>
        if item.1.1 = sid then
          (s.blockVersions.get? item.2).map (BlockVersion.content item.1.2)
        else none).map SnapshotBlock.blockId).Nodup := by
    intro items
    induction items with
    | nil => exact fun _ => List.nodup_nil
    | cons item items ih =>
        intro hnodup
        obtain ⟨hnot, hnodup⟩ := List.nodup_cons.mp hnodup
        rw [List.filterMap_cons]
        split
        · exact ih hnodup
        · rename_i block hblock
          rw [List.map_cons, List.nodup_cons]
          refine ⟨fun hmem => hnot ?_, ih hnodup⟩
          obtain ⟨block', hblock', hid⟩ := List.mem_map.mp hmem
          obtain ⟨item', hitem', hcontent⟩ := List.mem_filterMap.mp hblock'
          rw [Option.ite_none_right_eq_some] at hblock hcontent
          obtain ⟨hsid, hrow⟩ := hblock
          obtain ⟨hsid', hrow'⟩ := hcontent
          obtain ⟨row, -, rfl⟩ := Option.map_eq_some_iff.mp hrow
          obtain ⟨row', -, rfl⟩ := Option.map_eq_some_iff.mp hrow'
          have hkey : item'.1 = item.1 := Prod.ext (hsid'.trans hsid.symm) hid
          exact hkey ▸ List.mem_map_of_mem hitem'
  unfold getSnapshotBlocks
  rw [((List.perm_insertionSort _ _).map _).nodup_iff]
  exact hids _ s.snapshotBlocks.nodup

/-! ## Counts -/

/-- The counts cover the references of the snapshots and what a creation holds. -/
def Counted (s : SnapshotStore) (held : List String) : Prop :=
  RefCounted BlockVersion.counter s.snapshotBlocks s.blockVersions held

theorem counted_empty : Counted empty [] where
  referenced i k h := by cases h
  holding k h := by cases h
  le k r h := by cases h

/-- The contents of a row without its count. -/
theorem content_bump (b : String) (z : ℤ) (row : BlockVersion) :
    (BlockVersion.counter.bump z row).content b = row.content b := rfl

/-- Sharing a block version takes hold of its row and changes no snapshot. The row is the one that
was there for the block and the version, or else a new one with the contents given. -/
theorem getOrCreateBlockVersion_ok {newId : String} (h : Counted s held)
    (hok : s.getOrCreateBlockVersion b v data deleted newId = .ok (s', w)) :
    Counted s' (w :: held) ∧ s'.snapshots = s.snapshots ∧ s'.snapshotBlocks = s.snapshotBlocks ∧
      (∀ sid b, s'.entry sid b = s.entry sid b) ∧
      (s'.blockVersions.get? w).map (BlockVersion.content b) =
        some ((s.sharedContent b v).getD ⟨b, v, data, deleted⟩) := by
  unfold getOrCreateBlockVersion at hok
  by_cases hbind : Bindable v
  swap
  · rw [if_pos hbind] at hok
    cases hok
  rw [if_neg (not_not.mpr hbind)] at hok
  split at hok
  · rename_i w₀ hshared
    simp only [Except.ok.injEq, Prod.mk.injEq] at hok
    obtain ⟨rfl, rfl⟩ := hok
    obtain ⟨row, hrow, -⟩ := sharedVersion_eq_some hshared
    have hcontent : ∀ (b w' : String),
        ((s.blockVersions.modify w₀ (BlockVersion.counter.bump 1)).get? w').map
          (BlockVersion.content b) = (s.blockVersions.get? w').map (BlockVersion.content b) := by
      intro b w'
      rw [Dict.get?_modify, Option.map_map]
      congr 1
      funext row
      by_cases hw : w' = w₀
      · rw [Function.comp_apply, if_pos hw, content_bump]
      · rw [Function.comp_apply, if_neg hw]
    refine ⟨RefCounted.grab h hrow, rfl, rfl, fun sid b => ?_, ?_⟩
    · unfold entry
      simp only [hcontent]
    · unfold sharedContent
      rw [hcontent b w₀, hshared, Option.bind_some, hrow]
      rfl
  · rename_i hshared
    split_ifs at hok with hcontains
    simp only [Except.ok.injEq, Prod.mk.injEq] at hok
    obtain ⟨rfl, rfl⟩ := hok
    have hfresh : s.blockVersions.get? newId = none := by
      unfold Dict.contains at hcontains
      simpa using hcontains
    refine ⟨RefCounted.insert h hfresh rfl, rfl, rfl, fun sid b => ?_, ?_⟩
    · unfold entry
      rcases hmem : s.snapshotBlocks.get? (sid, b) with _ | w'
      · rfl
      · obtain ⟨row, hrow⟩ := h.referenced _ _ hmem
        have hne : w' ≠ newId := by
          rintro rfl
          rw [hfresh] at hrow
          cases hrow
        rw [Option.bind_some, Option.bind_some, Dict.get?_set_of_ne hne]
    · have hnone : s.sharedContent b v = none := by
        unfold sharedContent
        rw [hshared, Option.bind_none]
      rw [hnone, Dict.get?_set_self]
      rfl

/-- Adding a block to a snapshot gives that entry the contents of its row. -/
theorem entry_addSnapshotBlock (w : String) : (s.addSnapshotBlock sid b w).entry sid' b' =
    if (sid', b') = (sid, b) then (s.blockVersions.get? w).map (BlockVersion.content b')
    else s.entry sid' b' := by
  unfold addSnapshotBlock entry
  simp only [Dict.get?_set]
  split
  · rw [Option.bind_some]
  · rfl

theorem Counted.addSnapshotBlock (h : Counted s (w :: held)) :
    Counted (s.addSnapshotBlock sid b w) held :=
  RefCounted.point h

/-- What a deletion drops is in no other snapshot. -/
theorem Counted.deleteSnapshot {size : ℕ} (h : Counted s held)
    (hdel : s.deleteSnapshot sid = some (s', size)) :
    Counted s' held ∧ s'.snapshots = s.snapshots.erase sid ∧
      ∀ sid' b, s'.entry sid' b = if sid' = sid then none else s.entry sid' b := by
  obtain ⟨row, -, hdel⟩ := Option.map_eq_some_iff.mp hdel
  simp only [Prod.mk.injEq] at hdel
  obtain ⟨rfl, -⟩ := hdel
  have hdrop := RefCounted.drop h fun item _ => decide (item.1 = sid)
  refine ⟨RefCounted.collect hdrop, rfl, fun sid' b => ?_⟩
  unfold entry
  simp only
  rcases hmem : (s.snapshotBlocks.filter fun item _ => !decide (item.1 = sid)).get? (sid', b)
    with _ | w
  · rw [Option.bind_none]
    rw [Dict.get?_filter] at hmem
    split
    · rfl
    · rename_i hne
      rcases href : s.snapshotBlocks.get? (sid', b) with _ | w
      · rfl
      · rw [href, Option.filter_some, if_pos (by simpa using hne)] at hmem
        cases hmem
  · rw [Option.bind_some, RefCounted.get?_collect_of_referenced hdrop hmem,
      get?_lowered (BlockVersion.content b) (content_bump b)]
    rw [Dict.get?_filter, Option.filter_eq_some_iff] at hmem
    rw [if_neg (by simpa using hmem.2), hmem.1, Option.bind_some]

/-- What is reclaimed is in no snapshot. -/
theorem Counted.reclaimOrphanBlocks (h : Counted s held) : Counted s.reclaimOrphanBlocks held ∧
    ∀ sid b, s.reclaimOrphanBlocks.entry sid b = s.entry sid b := by
  refine ⟨RefCounted.collect h, fun sid b => ?_⟩
  unfold entry
  rcases hmem : s.snapshotBlocks.get? (sid, b) with _ | w
  · simp only [SnapshotStore.reclaimOrphanBlocks, hmem, Option.bind_none]
  · simp only [SnapshotStore.reclaimOrphanBlocks, hmem, Option.bind_some]
    rw [RefCounted.get?_collect_of_referenced h hmem]

end SnapshotStore

end NanoFabric.Storage
