import NanoFabric.Node.ExtentStore
import NanoFabric.Node.Oplog

/-!
# The storage engine

`StorageEngine` of `node/storage_engine.py` over the oplog, the extent store, the manifest
(`node/manifest.py`) and the cache (`node/cache.py`), with the checks of `node/validation.py`.

An operation takes the engine and the disk and returns the engine after it, its durable effects in
the order in which they are done, and its result (`Outcome`). A process that dies leaves the disk
with the effects done so far.

The manifest's `block_count` and `schema_version`, the metrics and the calls on a closed engine are
left out.
-/

namespace NanoFabric.Node

/-! ## Validation -/

/-- Source: `node/validation.py`. -/
def maxBlockIdLen : ℕ := 256

/-- Source: `node/validation.py`. -/
def maxDataBytes : ℕ := 1048576

/-- Source: `node/validation.py`, `validate_block_id`. -/
def validateBlockId (blockId : String) : Except StorageError Unit :=
  if blockId = "" then .error (.validation "block_id must be a non-empty string")
  else if maxBlockIdLen < blockId.length then .error (.validation "block_id too long")
  else .ok ()

/-- Source: `node/validation.py`, `validate_write`. -/
def validateWrite (blockId data : String) (version : Option ℤ) : Except StorageError Unit :=
  match validateBlockId blockId with
  | .error err => .error err
  | .ok () =>
      if maxDataBytes < data.utf8ByteSize then .error (.validation "data exceeds max size")
      else match version with
        | some v => if v < 1 then .error (.validation "version must be >= 1") else .ok ()
        | none => .ok ()

/-- Source: `node/validation.py`, `validate_delete`. -/
def validateDelete (blockId : String) : Except StorageError Unit := validateBlockId blockId

/-! ## The cache -/

/-- The LRU cache: its entries, the least recently used first. -/
structure Cache where
  maxEntries : ℕ
  entries : List (String × Row) := []

namespace Cache

/-- Source: `node/cache.py`, `remove`. -/
def remove (c : Cache) (key : String) : Cache :=
  { c with entries := c.entries.filter fun kr => kr.1 ≠ key }

/-- Source: `node/cache.py`, `put`. -/
def put (c : Cache) (key : String) (record : Row) : Cache :=
  let entries := (c.remove key).entries ++ [(key, record)]
  { c with entries := entries.drop (entries.length - c.maxEntries) }

/-- The record of a key. -/
def lookup (c : Cache) (key : String) : Option Row := c.entries.lookup key

/-- The record, which becomes the most recently used.
Source: `node/cache.py`, `get`. -/
def get (c : Cache) (key : String) : Option Row × Cache :=
  match c.lookup key with
  | none => (none, c)
  | some record => (some record, { c with entries := (c.remove key).entries ++ [(key, record)] })

/-- Source: `node/storage_engine.py`, `purge_all_blocks`. -/
def clear (c : Cache) : Cache := { c with entries := [] }

end Cache

/-! ## The disk -/

/-- The manifest file. -/
structure Manifest where
  nodeId : String
  lastLsn : ℤ
  lastCheckpointLsn : ℤ
deriving DecidableEq, Repr

/-- A data directory: the oplog file, the extent store and the manifest. -/
structure Disk where
  oplog : List OplogEntry
  db : ExtentStore
  manifest : Option Manifest

/-- An empty data directory. -/
def Disk.empty : Disk := ⟨[], .empty, none⟩

/-- `manifest.load().get("last_checkpoint_lsn", 0)`. -/
def Disk.lastCheckpointLsn (d : Disk) : ℤ :=
  match d.manifest with
  | some m => m.lastCheckpointLsn
  | none => 0

/-- What is durable once done: an appended line, a replaced file, a committed transaction. -/
inductive DiskEffect
  | appendLine (entry : OplogEntry)
  | replaceOplog (file : List OplogEntry)
  | commit (db : ExtentStore)
  | saveManifest (manifest : Manifest)

/-- The disk after an effect. -/
def Disk.perform (d : Disk) : DiskEffect → Disk
  | .appendLine entry => { d with oplog := d.oplog ++ [entry] }
  | .replaceOplog file => { d with oplog := file }
  | .commit db => { d with db }
  | .saveManifest m => { d with manifest := some m }

/-- The disk after a sequence of effects. -/
def Disk.performAll (d : Disk) (effects : List DiskEffect) : Disk := effects.foldl Disk.perform d

/-! ## The engine -/

/-- The fields of an open engine. -/
structure StorageEngine where
  nodeId : String
  oplog : Oplog
  cache : Cache
  lastCheckpointLsn : ℤ

/-- What an operation leaves: the engine, its durable effects in order, and its result. -/
structure Outcome (α : Type) where
  engine : StorageEngine
  effects : List DiskEffect
  result : Except StorageError α

/-- What a reader is given. -/
structure BlockRecord where
  blockId : String
  data : String
  version : ℤ
  deleted : Bool
  originNodeId : String
  originLsn : ℤ
deriving DecidableEq, Repr

/-- A write or a delete that passed its checks, with the version it resolved to. A delete has no
data. -/
structure Mutation where
  data : Option String
  blockId : String
  version : ℤ
  originNodeId : Option String
  originLsn : Option ℤ

/-- What the oplog records of it. -/
def Mutation.op (m : Mutation) : LoggedOp :=
  match m.data with
  | some data => .write data
  | none => .delete

/-- What the checks of a write or a delete decide. -/
inductive Verdict
  | refuse (error : StorageError)
  | already (version lsn : ℤ)
  | mutate (m : Mutation)

namespace StorageEngine

/-- Source: `node/storage_engine.py`, `_update_manifest`. -/
def manifest (e : StorageEngine) : Manifest := ⟨e.nodeId, e.oplog.highWaterLsn, e.lastCheckpointLsn⟩

/-! ### Applying records -/

/-- What applying a record changes. -/
structure Applied where
  db : ExtentStore
  cache : Cache
  lastCheckpointLsn : ℤ

/-- Source: `node/storage_engine.py`, `_apply_write_entry`. -/
def applyWriteEntry (a : Applied) (blockId data : String) (version : ℤ) (nodeId : String)
    (lsn : ℤ) : Except StorageError Applied :=
  match a.db.saveIfNewer blockId data version nodeId lsn with
  | .error err => .error err
  | .ok db =>
      match db.blocks blockId with
      | none => .ok { a with db }
      | some row => .ok { a with
          db, cache := if row.deleted then a.cache else a.cache.put blockId row }

/-- Source: `node/storage_engine.py`, `_apply_delete_entry`. -/
def applyDeleteEntry (a : Applied) (blockId : String) (version : ℤ) (nodeId : String) (lsn : ℤ) :
    Except StorageError Applied :=
  match a.db.tombstoneIfNewer blockId version nodeId lsn with
  | .error err => .error err
  | .ok db => .ok { a with db, cache := a.cache.remove blockId }

/-- Source: `node/storage_engine.py`, `_apply_entry`. -/
def applyEntry (a : Applied) (entry : OplogEntry) : Except StorageError Applied :=
  match entry.op with
  | .write data => applyWriteEntry a entry.blockId data entry.version entry.nodeId entry.lsn
  | .delete => applyDeleteEntry a entry.blockId entry.version entry.nodeId entry.lsn
  | .checkpoint throughLsn =>
      .ok { a with lastCheckpointLsn :=
        if a.lastCheckpointLsn < throughLsn then throughLsn else a.lastCheckpointLsn }

/-- One turn of the replay loop, on what was applied and the LSN it was applied up to. -/
def replayEntry : Applied × ℤ → OplogEntry → Except StorageError (Applied × ℤ)
  | (a, appliedLsn), entry =>
      if entry.lsn ≠ 0 ∧ entry.lsn ≤ appliedLsn then .ok (a, appliedLsn)
      else match applyEntry a entry with
        | .error err => .error err
        | .ok a' => .ok (a', if entry.lsn ≠ 0 then entry.lsn else appliedLsn)

/-- The records of the file that the replay cursor does not cover, applied in one transaction.
Source: `node/storage_engine.py`, `_replay_oplog`. -/
def replayOplog (a : Applied) (file : List OplogEntry) : Except StorageError Applied :=
  match file.foldlM replayEntry (a, a.db.replayCursor) with
  | .error err => .error err
  | .ok (a', appliedLsn) => .ok { a' with db := a'.db.setReplayCursor appliedLsn }

/-- Opens an engine on a data directory. On whole records `Oplog.recover` truncates nothing.
Source: `node/storage_engine.py`, `__init__`. -/
def opened (nodeId : String) (cacheMaxEntries : ℕ) (d : Disk) : Outcome Unit :=
  let e : StorageEngine :=
    ⟨nodeId, .ofFile nodeId d.oplog, ⟨cacheMaxEntries, []⟩, d.lastCheckpointLsn⟩
  match replayOplog ⟨d.db, e.cache, e.lastCheckpointLsn⟩ d.oplog with
  | .error err => ⟨e, [], .error err⟩
  | .ok a =>
      let e' : StorageEngine := { e with cache := a.cache, lastCheckpointLsn := a.lastCheckpointLsn }
      ⟨e', [.commit a.db, .saveManifest e'.manifest], .ok ()⟩

/-! ### Writes and deletes -/

/-- The version of a block's row, `0` if there is none. -/
def currentVersion (db : ExtentStore) (blockId : String) : ℤ :=
  match db.blocks blockId with
  | some row => row.version
  | none => 0

/-- Source: `node/storage_engine.py`, `_resolve_write_version`. -/
def resolveWriteVersion (db : ExtentStore) (blockId : String) (version : Option ℤ) :
    Except StorageError ℤ :=
  match version with
  | none => .ok (currentVersion db blockId + 1)
  | some v =>
      if v ≤ currentVersion db blockId then
        .error (.versionConflict blockId v (currentVersion db blockId))
      else .ok v

/-- Source: `node/storage_engine.py`, `_resolve_delete_version`. -/
def resolveDeleteVersion (db : ExtentStore) (blockId : String) : ℤ := currentVersion db blockId + 1

/-- How `write_local` is called: with `allow_idempotent`, as every caller does that names a version
chosen elsewhere, or without. -/
inductive WriteMode
  | resolve (version : Option ℤ)
  | idempotent (version : ℤ)
deriving DecidableEq, Repr

/-- What `write_local` decides before it appends.
Source: `node/storage_engine.py`, `write_local`. -/
def judgeWrite (db : ExtentStore) (blockId data : String) (mode : WriteMode)
    (originNodeId : Option String) (originLsn : Option ℤ) : Verdict :=
  match mode with
  | .resolve version =>
      match validateWrite blockId data version with
      | .error err => .refuse err
      | .ok () =>
          match resolveWriteVersion db blockId version with
          | .error err => .refuse err
          | .ok v => .mutate ⟨some data, blockId, v, originNodeId, originLsn⟩
  | .idempotent version =>
      match db.blocks blockId with
      | some row =>
          if row.deleted then .mutate ⟨some data, blockId, version, originNodeId, originLsn⟩
          else if version < row.version then
            .refuse (.versionConflict blockId version row.version)
          else if row.version = version then .already row.version row.originLsn
          else .mutate ⟨some data, blockId, version, originNodeId, originLsn⟩
      | none => .mutate ⟨some data, blockId, version, originNodeId, originLsn⟩

/-- What `delete_local` decides before it appends.
Source: `node/storage_engine.py`, `delete_local`. -/
def judgeDelete (db : ExtentStore) (blockId : String) (version : Option ℤ)
    (originNodeId : Option String) (originLsn : Option ℤ) (allowIdempotent : Bool) : Verdict :=
  match if allowIdempotent then .ok () else validateDelete blockId with
  | .error err => .refuse err
  | .ok () =>
      match version with
      | none =>
          .mutate ⟨none, blockId, resolveDeleteVersion db blockId, originNodeId, originLsn⟩
      | some v =>
          match if allowIdempotent then db.blocks blockId else none with
          | some row =>
              if v < row.version then .refuse (.versionConflict blockId v row.version)
              else if v ≤ row.version ∧ row.deleted then .already row.version row.originLsn
              else .mutate ⟨none, blockId, v, originNodeId, originLsn⟩
          | none => .mutate ⟨none, blockId, v, originNodeId, originLsn⟩

/-- `origin_node_id or self.node_id`. -/
def effectiveOrigin (e : StorageEngine) : Option String → String
  | some origin => if origin = "" then e.nodeId else origin
  | none => e.nodeId

/-- Appends the record, applies it with its effective origin and updates the manifest: what
`write_local` and `delete_local` have in common. The record is durable before it is applied. -/
def log (e : StorageEngine) (d : Disk) (m : Mutation) : Outcome (ℤ × ℤ) :=
  let (entry, oplog) := e.oplog.append m.op m.blockId m.version
  let applied := applyEntry ⟨d.db, e.cache, e.lastCheckpointLsn⟩
    { entry with
      nodeId := e.effectiveOrigin m.originNodeId
      lsn := m.originLsn.getD entry.lsn }
  match applied with
  | .error err => ⟨{ e with oplog }, [.appendLine entry], .error err⟩
  | .ok a =>
      let e' : StorageEngine := { e with oplog, cache := a.cache }
      ⟨e', [.appendLine entry, .commit a.db, .saveManifest e'.manifest],
        .ok (m.version, entry.lsn)⟩

/-- The outcome of what the checks decided. -/
def settle (e : StorageEngine) (d : Disk) : Verdict → Outcome (ℤ × ℤ)
  | .refuse err => ⟨e, [], .error err⟩
  | .already version lsn => ⟨e, [], .ok (version, lsn)⟩
  | .mutate m => e.log d m

/-- Source: `node/storage_engine.py`, `write_local`. -/
def writeLocal (e : StorageEngine) (d : Disk) (blockId data : String) (mode : WriteMode)
    (originNodeId : Option String) (originLsn : Option ℤ) : Outcome (ℤ × ℤ) :=
  e.settle d (judgeWrite d.db blockId data mode originNodeId originLsn)

/-- Source: `node/storage_engine.py`, `delete_local`. -/
def deleteLocal (e : StorageEngine) (d : Disk) (blockId : String) (version : Option ℤ)
    (originNodeId : Option String) (originLsn : Option ℤ) (allowIdempotent : Bool) :
    Outcome (ℤ × ℤ) :=
  e.settle d (judgeDelete d.db blockId version originNodeId originLsn allowIdempotent)

/-! ### Reads, purges and checkpoints -/

/-- Source: `node/storage_engine.py`, `BlockRecord` as `read_block` builds it. -/
def blockRecord (blockId : String) (row : Row) : BlockRecord :=
  ⟨blockId, row.data.getD "", row.version, row.deleted, row.originNodeId, row.originLsn⟩

/-- Source: `node/storage_engine.py`, `read_block`. -/
def readBlock (e : StorageEngine) (d : Disk) (blockId : String) : Outcome (Option BlockRecord) :=
  match e.cache.get blockId with
  | (some row, cache) => ⟨{ e with cache }, [], .ok (some (blockRecord blockId row))⟩
  | (none, _) =>
      match d.db.blocks blockId with
      | none => ⟨e, [], .ok none⟩
      | some row =>
          if row.deleted then ⟨e, [], .ok none⟩
          else ⟨{ e with cache := e.cache.put blockId row }, [],
            .ok (some (blockRecord blockId row))⟩

/-- The rows go, and nothing is logged.
Source: `node/storage_engine.py`, `purge_all_blocks`. -/
def purgeAllBlocks (e : StorageEngine) (d : Disk) : Outcome Unit :=
  let e' : StorageEngine := { e with cache := e.cache.clear }
  ⟨e', [.commit { d.db with blocks := fun _ => none }, .saveManifest e'.manifest], .ok ()⟩

/-- `through_lsn or self.oplog.high_water_lsn`. -/
def checkpointLsn (e : StorageEngine) : Option ℤ → ℤ
  | some through => if through = 0 then e.oplog.highWaterLsn else through
  | none => e.oplog.highWaterLsn

/-- Source: `node/storage_engine.py`, `checkpoint`. -/
def checkpoint (e : StorageEngine) (d : Disk) (throughLsn : Option ℤ) : Outcome ℤ :=
  let lsn := e.checkpointLsn throughLsn
  let (entry, _) := e.oplog.append (.checkpoint lsn) "" 0
  let file := Oplog.compact lsn (d.oplog ++ [entry])
  let e' : StorageEngine := { e with
    oplog := .ofFile e.oplog.nodeId file
    lastCheckpointLsn := lsn }
  ⟨e', [.appendLine entry, .replaceOplog file, .commit (d.db.setReplayCursor lsn),
    .saveManifest e'.manifest], .ok lsn⟩

end StorageEngine

/-! ## A running engine on its disk -/

/-- The calls on an open engine. -/
inductive EngineOp
  | writeLocal (blockId data : String) (mode : StorageEngine.WriteMode)
      (originNodeId : Option String) (originLsn : Option ℤ)
  | deleteLocal (blockId : String) (version : Option ℤ) (originNodeId : Option String)
      (originLsn : Option ℤ) (allowIdempotent : Bool)
  | purgeAllBlocks
  | checkpoint (throughLsn : Option ℤ)
  | readBlock (blockId : String)

/-- A process with an open engine, and its data directory. -/
structure Running where
  engine : StorageEngine
  disk : Disk

/-- The effects of a call, and the engine after it. -/
def Running.call (s : Running) : EngineOp → StorageEngine × List DiskEffect
  | .writeLocal blockId data mode originNodeId originLsn =>
      let out := s.engine.writeLocal s.disk blockId data mode originNodeId originLsn
      (out.engine, out.effects)
  | .deleteLocal blockId version originNodeId originLsn allowIdempotent =>
      let out := s.engine.deleteLocal s.disk blockId version originNodeId originLsn allowIdempotent
      (out.engine, out.effects)
  | .purgeAllBlocks =>
      let out := s.engine.purgeAllBlocks s.disk
      (out.engine, out.effects)
  | .checkpoint throughLsn =>
      let out := s.engine.checkpoint s.disk throughLsn
      (out.engine, out.effects)
  | .readBlock blockId =>
      let out := s.engine.readBlock s.disk blockId
      (out.engine, out.effects)

/-- The state after a call. -/
def Running.run (s : Running) (op : EngineOp) : Running :=
  ⟨(s.call op).1, s.disk.performAll (s.call op).2⟩

/-- How a node opens its engine. -/
structure EngineConfig where
  nodeId : String
  cacheMaxEntries : ℕ := 10000

/-- The process that opens the data directory, if the engine opens. -/
def EngineConfig.boot (cfg : EngineConfig) (d : Disk) : Option Running :=
  let out := StorageEngine.opened cfg.nodeId cfg.cacheMaxEntries d
  match out.result with
  | .ok () => some ⟨out.engine, d.performAll out.effects⟩
  | .error _ => none

end NanoFabric.Node
