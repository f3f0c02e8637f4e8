import NanoFabric.Node.CacheTransparency
import NanoFabric.Storage.SnapshotManager

/-!
# Reading blocks from an engine

`EngineBlockAdapter` of `storage/cluster_bridge.py` over an engine whose cache agrees with its table.
The ids of the rows are kept beside the table, so that they can be listed.

* `LocalEngine.mem_listBlocks` — the blocks listed are those with a live row.
* `LocalEngine.live_of_readBlock` — no tombstone is read.
-/

namespace NanoFabric.Node

/-- A mutation is of the block that its call names. -/
theorem judgeWrite_eq_mutate {db : ExtentStore} {b data : String} {mode : StorageEngine.WriteMode}
    {o : Option String} {l : Option ℤ} {m : Mutation}
    (h : StorageEngine.judgeWrite db b data mode o l = .mutate m) : m.blockId = b := by
  unfold StorageEngine.judgeWrite at h
  repeat' split at h
  all_goals cases h
  all_goals rfl

/-- A mutation is of the block that its call names. -/
theorem judgeDelete_eq_mutate {db : ExtentStore} {b : String} {v : Option ℤ} {o : Option String}
    {l : Option ℤ} {idempotent : Bool} {m : Mutation}
    (h : StorageEngine.judgeDelete db b v o l idempotent = .mutate m) : m.blockId = b := by
  unfold StorageEngine.judgeDelete at h
  repeat' split at h
  all_goals cases h
  all_goals rfl

theorem EngineOp.target_eq_of_mutation {db : ExtentStore} {op : EngineOp} {m : Mutation}
    (h : op.mutation db = some m) : op.target = some m.blockId := by
  unfold mutation at h
  split at h
  · rename_i m' hv
    obtain rfl := Option.some.inj h
    cases op with
    | writeLocal b data mode o l =>
        exact congrArg some (judgeWrite_eq_mutate (Option.some.inj hv)).symm
    | deleteLocal b v o l idempotent =>
        exact congrArg some (judgeDelete_eq_mutate (Option.some.inj hv)).symm
    | _ => cases hv
  · cases h

/-- A call adds no row but its target's. -/
theorem Running.blocks_run {s : Running} {op : EngineOp} {b : String} {row : Row}
    (hrow : (s.run op).disk.db.blocks b = some row) :
    (∃ row, s.disk.db.blocks b = some row) ∨ op.target = some b := by
  have hcalls := s.call_cases op
  unfold Running.run at hrow
  generalize (s.call op).1 = engine at hcalls
  generalize (s.call op).2 = effects at hcalls hrow
  cases hcalls with
  | quiet hm hcoh => exact Or.inl ⟨row, hrow⟩
  | stored hm hok hcoh =>
      rename_i m cache
      by_cases hb : b = m.blockId
      · exact Or.inr (hb ▸ EngineOp.target_eq_of_mutation hm)
      · exact Or.inl ⟨row, (Found.Registers.put_of_ne hb).symm.trans hrow⟩
  | rejected hm hno => exact Or.inl ⟨row, hrow⟩
  | purged => cases hrow
  | checkpointed t => exact Or.inl ⟨row, hrow⟩

end NanoFabric.Node

namespace NanoFabric.Storage

open NanoFabric.Node

/-- An open engine and its data directory. -/
structure LocalEngine where
  running : Running
  /-- The ids of the rows, and perhaps of rows that are gone. -/
  ids : List String
  covers : ∀ b row, running.disk.db.blocks b = some row → b ∈ ids
  /-- Every cached record is the live row of its block. -/
  coherent : running.engine.cache.Coherent running.disk.db

namespace LocalEngine

/-- A node on an empty data directory. -/
def empty (nodeId : String) : LocalEngine where
  running := ⟨⟨nodeId, .ofFile nodeId [], ⟨10000, []⟩, 0⟩, .empty⟩
  ids := []
  covers _ _ h := by cases h
  coherent _ _ h := absurd h List.not_mem_nil

/-- The engine after a call. -/
def call (e : LocalEngine) (op : EngineOp) : LocalEngine where
  running := e.running.run op
  ids := op.target.toList ++ e.ids
  covers b row hrow := by
    rcases Running.blocks_run hrow with ⟨row', hrow'⟩ | htarget
    · exact List.mem_append_right _ (e.covers b row' hrow')
    · rw [htarget]
      exact List.mem_append_left _ List.mem_cons_self
  coherent := Running.Cached.run e.coherent op

/-- The live row of a block. -/
def liveRow (e : LocalEngine) (blockId : String) : Option Row :=
  (e.running.disk.db.blocks blockId).filter fun row => !row.deleted

/-- Source: `node/storage_engine.py`, `list_blocks`. -/
def listBlocks (e : LocalEngine) : List String :=
  (e.ids.dedup.filter fun blockId => (e.liveRow blockId).isSome).insertionSort (· ≤ ·)

/-- Source: `storage/cluster_bridge.py`, `EngineBlockAdapter.read_block`. -/
def readBlock (e : LocalEngine) (blockId : String) : LocalEngine × Option BlockView :=
  (e.call (.readBlock blockId),
    match (e.running.engine.readBlock e.running.disk blockId).result with
    | .ok (some record) => some ⟨record.data, record.version, record.deleted⟩
    | _ => none)

variable {e : LocalEngine} {b : String}

/-- The blocks listed are those with a live row. -/
theorem mem_listBlocks : b ∈ e.listBlocks ↔ ∃ row, e.liveRow b = some row := by
  unfold listBlocks
  rw [List.mem_insertionSort, List.mem_filter, List.mem_dedup, Option.isSome_iff_exists]
  constructor
  · exact And.right
  · rintro ⟨row, hrow⟩
    exact ⟨e.covers b row (Option.filter_eq_some_iff.mp hrow).1, row, hrow⟩

theorem nodup_listBlocks (e : LocalEngine) : e.listBlocks.Nodup := by
  unfold listBlocks
  rw [(List.perm_insertionSort _ _).nodup_iff]
  exact e.ids.nodup_dedup.filter _

/-- A read returns the live row of the block, if it has one. -/
theorem result_readBlock (e : LocalEngine) (b : String) :
    (e.running.engine.readBlock e.running.disk b).result =
      .ok ((e.liveRow b).map (StorageEngine.blockRecord b)) := by
  rw [Running.Cached.readBlock e.coherent]
  unfold Disk.readRow liveRow
  rcases e.running.disk.db.blocks b with _ | row
  · rfl
  · rcases hdel : row.deleted with _ | _
    · simp [hdel]
    · simp [hdel]

theorem deleted_of_liveRow {row : Row} (h : e.liveRow b = some row) : row.deleted = false := by
  simpa using (Option.filter_eq_some_iff.mp h).2

theorem readBlock_eq (e : LocalEngine) (b : String) : (e.readBlock b).2 =
    (e.liveRow b).map fun row => ⟨row.data.getD "", row.version, false⟩ := by
  unfold readBlock
  rw [result_readBlock]
  rcases hrow : e.liveRow b with _ | row
  · rfl
  · have hlive := deleted_of_liveRow hrow
    simp only [Option.map_some, StorageEngine.blockRecord, hlive]

/-- No tombstone is read. -/
theorem live_of_readBlock {view : BlockView} (h : (e.readBlock b).2 = some view) :
    view.deleted = false := by
  rw [readBlock_eq, Option.map_eq_some_iff] at h
  obtain ⟨row, -, rfl⟩ := h
  rfl

/-- Snapshots of the blocks of an engine, which other calls change.
Source: `storage/cluster_bridge.py`, `EngineBlockAdapter`. -/
def adapter : Wiring LocalEngine Unit EngineOp where
  listBlocks := listBlocks
  readBlock e _ b := e.readBlock b
  live := listBlocks
  change := call
  nodup_listBlocks := nodup_listBlocks
  live_of_readBlock _ _ _ _ h := live_of_readBlock h

end LocalEngine

end NanoFabric.Storage
