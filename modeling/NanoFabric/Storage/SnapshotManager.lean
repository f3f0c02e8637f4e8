import NanoFabric.Found.Runs
import NanoFabric.Storage.SnapshotStore

/-!
# Snapshots and restores as they interleave

`SnapshotManager` of `storage/snapshot_manager.py` and the transitions of `RestoreService` of
`storage/restore_service.py`, one transaction of the store or one call of the block reader a step, so
that writes, crashes and other calls fall between any two of them. The manager's lock keeps a
creation apart from other creations and from deletions, and nothing else.

What a restore writes is among the changes of the blocks that may happen at any time; the calls
themselves are in `Storage/RestoreService`.

* `Protection.step` — one step of any of the calls under way.
* `Account` — what is observed of a creation, for the statements about snapshots.
-/

namespace NanoFabric.Storage

open NanoFabric.Found

/-! ## The block reader -/

/-- What a read returns. -/
structure BlockView where
  data : String
  version : ℤ
  deleted : Bool
deriving DecidableEq, Repr

/-- A block reader over the blocks `W`, where `ρ` tells what the environment does to one read.
Source: `storage/snapshot_manager.py`, `BlockReader`. -/
structure BlockReader (W ρ : Type) where
  listBlocks : W → List String
  readBlock : W → ρ → String → W × Option BlockView

/-- A reader, the blocks that are live, and the other ways in which the blocks change. -/
structure Wiring (W ρ χ : Type) extends BlockReader W ρ where
  live : W → List String
  change : W → χ → W
  /-- A block is listed once. -/
  nodup_listBlocks : ∀ w, (listBlocks w).Nodup
  /-- No tombstone is returned. -/
  live_of_readBlock : ∀ w r b view, (readBlock w r b).2 = some view → view.deleted = false

/-- What a snapshot records of a block that was read.
Source: `storage/snapshot_manager.py`, `create_snapshot`. -/
def BlockView.captured (blockId : String) (view : BlockView) : SnapshotBlock :=
  ⟨blockId, view.version, if view.deleted then none else some view.data, view.deleted⟩

/-! ## State -/

/-- Where a creation is. -/
inductive CreatePhase
  /-- The record is there. -/
  | started
  | capturing (unread : List String)
  /-- A block was read. -/
  | captured (block : SnapshotBlock) (unread : List String)
  /-- A reference to its contents is counted. -/
  | shared (blockId versionId : String) (unread : List String)
deriving DecidableEq

/-- A `create_snapshot` under way. -/
structure Creation where
  snapshotId : String
  blockCount : ℕ
  sizeBytes : ℕ
  phase : CreatePhase
deriving DecidableEq

/-- Where a restore is. -/
inductive RestorePhase
  /-- The status of the snapshot was checked. -/
  | agreed
  /-- The snapshot is `RESTORING`. -/
  | marked
  /-- The blocks of the snapshot are read. -/
  | loaded (blocks : List SnapshotBlock)
  /-- The blocks to be deleted are chosen. -/
  | swept (stale : List String)
deriving DecidableEq

/-- A `restore_snapshot` under way, with the blocks that were live when its snapshot was created. -/
structure Restore where
  snapshotId : String
  live : List String
  phase : RestorePhase
deriving DecidableEq

/-- The blocks that a restore deletes because the snapshot has no entry for them. -/
def Restore.stale (r : Restore) : List String :=
  match r.phase with
  | .swept stale => stale
  | _ => []

/-- What is observed of a creation: the blocks live when its record was made, what the reads
returned, and whether it returned its snapshot as `READY`. -/
structure Account where
  live : List String
  reads : List SnapshotBlock
  finished : Bool
deriving DecidableEq

/-- The blocks, the snapshot store, the calls under way, and the accounts of all creations. -/
structure Protection (W : Type) where
  world : W
  store : SnapshotStore
  creation : Option Creation
  restores : List Restore
  accounts : Dict String Account

/-- The steps. -/
inductive ProtectionEvent (ρ χ : Type)
  /-- Anything that changes the blocks. -/
  | change (c : χ)
  | create (snapshotId : String) (now metadataVersion : ℤ) (placements : Dict String (List String))
  | list
  | read (r : ρ)
  | share (newId : String)
  | add
  | finish
  /-- An exception, and whether the handler's own write succeeds. -/
  | raise (error : String) (recorded : Bool)
  /-- A deletion by a caller or by the retention manager. -/
  | delete (snapshotId : String)
  | reclaim
  | recover
  | crash
  | restore (snapshotId : String)
  | mark (i : ℕ)
  | load (i : ℕ)
  | sweep (i : ℕ)
  /-- A restore ends, by an exception or not. -/
  | endRestore (i : ℕ)

namespace Protection

variable {W ρ χ : Type}

/-- Nothing has been created yet. -/
def init (w : W) : Protection W := ⟨w, .empty, none, [], Dict.empty⟩

/-! ## Creation -/

/-- The record of a new snapshot, under a new id.
Source: `storage/snapshot_manager.py`, `create_snapshot`. -/
def create (R : Wiring W ρ χ) (s : Protection W) (snapshotId : String) (now metadataVersion : ℤ)
    (placements : Dict String (List String)) : Option (Protection W) :=
  if s.creation = none ∧ s.accounts.get? snapshotId = none then
    match s.store.createSnapshotRecord snapshotId now metadataVersion placements with
    | .error _ => some s
    | .ok store => some { s with
        store
        creation := some ⟨snapshotId, 0, 0, .started⟩
        accounts := s.accounts.set snapshotId ⟨R.live s.world, [], false⟩ }
  else none

/-- Source: `storage/snapshot_manager.py`, `create_snapshot`. -/
def list (R : Wiring W ρ χ) (s : Protection W) : Option (Protection W) :=
  match s.creation with
  | some ⟨sid, _, size, .started⟩ =>
      let blockIds := R.listBlocks s.world
      some { s with creation := some ⟨sid, blockIds.length, size, .capturing blockIds⟩ }
  | _ => none

/-- The next block is read; one that is not returned is skipped.
Source: `storage/snapshot_manager.py`, `create_snapshot`. -/
def read (R : Wiring W ρ χ) (s : Protection W) (r : ρ) : Option (Protection W) :=
  match s.creation with
  | some ⟨sid, count, size, .capturing (blockId :: unread)⟩ =>
      match R.readBlock s.world r blockId with
      | (world, none) =>
          some { s with world, creation := some ⟨sid, count, size, .capturing unread⟩ }
      | (world, some view) =>
          let block := view.captured blockId
          some { s with
            world
            creation := some ⟨sid, count,
              if view.deleted then size else size + view.data.utf8ByteSize, .captured block unread⟩
            accounts := s.accounts.modify sid fun acc => { acc with reads := acc.reads ++ [block] } }
  | _ => none

/-- The exception handler of a creation, and the exception leaves.
Source: `storage/snapshot_manager.py`, `create_snapshot`. -/
def abandon (s : Protection W) (snapshotId error : String) : Protection W :=
  { s with
    store := s.store.finalizeSnapshot snapshotId 0 0 .failed (some error)
    creation := none }

/-- Source: `storage/snapshot_manager.py`, `create_snapshot`. -/
def share (s : Protection W) (newId : String) : Option (Protection W) :=
  match s.creation with
  | some ⟨sid, count, size, .captured block unread⟩ =>
      match s.store.getOrCreateBlockVersion block.blockId block.version block.data block.deleted
        newId with
      | .error _ => some (s.abandon sid "block version not stored")
      | .ok (store, versionId) =>
          some { s with
            store, creation := some ⟨sid, count, size, .shared block.blockId versionId unread⟩ }
  | _ => none

/-- Source: `storage/snapshot_manager.py`, `create_snapshot`. -/
def add (s : Protection W) : Option (Protection W) :=
  match s.creation with
  | some ⟨sid, count, size, .shared blockId versionId unread⟩ =>
      some { s with
        store := s.store.addSnapshotBlock sid blockId versionId
        creation := some ⟨sid, count, size, .capturing unread⟩ }
  | _ => none

/-- Source: `storage/snapshot_manager.py`, `create_snapshot`. -/
def finish (s : Protection W) : Option (Protection W) :=
  match s.creation with
  | some ⟨sid, count, size, .capturing []⟩ =>
      some { s with
        store := s.store.finalizeSnapshot sid count size .ready none
        creation := none
        accounts := s.accounts.modify sid fun acc => { acc with finished := true } }
  | _ => none

/-- Source: `storage/snapshot_manager.py`, `create_snapshot`. -/
def raise (s : Protection W) (error : String) (recorded : Bool) : Option (Protection W) :=
  s.creation.map fun c =>
    if recorded then s.abandon c.snapshotId error else { s with creation := none }

/-! ## Deletion and recovery -/

/-- Source: `storage/snapshot_manager.py`, `delete_snapshot`. -/
def delete (s : Protection W) (snapshotId : String) : Option (Protection W) :=
  if s.creation = none then
    match s.store.deleteSnapshot snapshotId with
    | none => some s
    | some (store, _) => some { s with store }
  else none

/-- Source: `storage/snapshot_manager.py`, `recover`. -/
def recover (s : Protection W) : Protection W :=
  { s with store := s.store.recoverInterruptedSnapshots }

/-- The process dies. -/
def crash (s : Protection W) : Protection W := { s with creation := none, restores := [] }

/-! ## Restores -/

/-- A restore agrees to apply a snapshot, or ends here.
Source: `storage/restore_service.py`, `restore_snapshot`. -/
def restore (s : Protection W) (snapshotId : String) : Protection W :=
  match s.store.getSnapshot snapshotId with
  | none => s
  | some snapshot =>
      if snapshot.status ∈ [.ready, .failed] then
        let live := ((s.accounts.get? snapshotId).map Account.live).getD []
        { s with restores := s.restores ++ [⟨snapshotId, live, .agreed⟩] }
      else s

/-- Source: `storage/restore_service.py`, `restore_snapshot`. -/
def mark (s : Protection W) (i : ℕ) : Option (Protection W) :=
  match s.restores[i]? with
  | some ⟨sid, live, .agreed⟩ =>
      some { s with
        store := s.store.updateStatus sid .restoring
        restores := s.restores.set i ⟨sid, live, .marked⟩ }
  | _ => none

/-- Source: `storage/restore_service.py`, `restore_snapshot`. -/
def load (s : Protection W) (i : ℕ) : Option (Protection W) :=
  match s.restores[i]? with
  | some ⟨sid, live, .marked⟩ =>
      some { s with
        restores := s.restores.set i ⟨sid, live, .loaded (s.store.getSnapshotBlocks sid)⟩ }
  | _ => none

/-- Source: `storage/restore_service.py`, `restore_snapshot`. -/
def sweep (R : Wiring W ρ χ) (s : Protection W) (i : ℕ) : Option (Protection W) :=
  match s.restores[i]? with
  | some ⟨sid, live, .loaded blocks⟩ =>
      let stale := (R.listBlocks s.world).filter (· ∉ blocks.map SnapshotBlock.blockId)
      some { s with restores := s.restores.set i ⟨sid, live, .swept stale⟩ }
  | _ => none

/-- The snapshot is `READY` again, however the restore ended.
Source: `storage/restore_service.py`, `restore_snapshot`. -/
def endRestore (s : Protection W) (i : ℕ) : Option (Protection W) :=
  (s.restores[i]?).map fun r =>
    { s with
      store := s.store.updateStatus r.snapshotId .ready
      restores := s.restores.eraseIdx i }

/-- One step, if it can happen. -/
def step (R : Wiring W ρ χ) (s : Protection W) : ProtectionEvent ρ χ → Option (Protection W)
  | .change c => some { s with world := R.change s.world c }
  | .create sid now version placements => s.create R sid now version placements
  | .list => s.list R
  | .read r => s.read R r
  | .share newId => s.share newId
  | .add => s.add
  | .finish => s.finish
  | .raise error recorded => s.raise error recorded
  | .delete sid => s.delete sid
  | .reclaim => some { s with store := s.store.reclaimOrphanBlocks }
  | .recover => some s.recover
  | .crash => some s.crash
  | .restore sid => some (s.restore sid)
  | .mark i => s.mark i
  | .load i => s.load i
  | .sweep i => s.sweep R i
  | .endRestore i => s.endRestore i

end Protection

end NanoFabric.Storage
