import NanoFabric.Storage.BackupRestore

/-!
# Restoring into an engine

`RestoreService` of `storage/restore_service.py` over `EngineBlockAdapter` of
`storage/cluster_bridge.py`, with or without a purge, and with the placements of a metadata store.
A restore is a list of calls, of which those up to the first exception are made.

* `apply_eq_forEach`, `applyBackup_eq_forEach` — the calls of a restore.
* `copies_of_returned`, `unchanged_of_raised` — a call that returns offers its copy to the block's
  register, and one that raises does nothing.
* `liveData_of_completed` — what a restore that ends `COMPLETED` leaves of a block.
* `restoresExactly_iff` — without a purge this is the snapshot just when no row of a live block is in
  the way.
-/

namespace NanoFabric.Node

open NanoFabric.Found

/-- A block as an engine holds it: its version, and its data unless it is deleted. -/
structure BlockCopy where
  data : Option String
  version : ℤ
deriving DecidableEq, Repr

/-- Copies are ordered as the rows are. -/
def BlockCopy.key (c : BlockCopy) : ℤ ×ₗ Bool := toLex (c.version, c.data.isNone)

/-- The copy that a row holds. -/
def Row.copy (r : Row) : BlockCopy := ⟨r.data, r.version⟩

theorem Row.key_copy (r : Row) : r.copy.key = r.key := by
  unfold BlockCopy.key Row.copy Row.key
  rw [r.deleted_eq]

theorem BlockCopy.key_lt_key {c c' : BlockCopy} : c.key < c'.key ↔
    c.version < c'.version ∨ (c.version = c'.version ∧ c.data.isNone < c'.data.isNone) :=
  Prod.Lex.toLex_lt_toLex

/-- What a put leaves of rows it leaves of their copies. -/
theorem Row.copy_put (r : Option Row) (u : Row) :
    (Register.put Row.key r u).map Row.copy =
      Register.put BlockCopy.key (r.map Row.copy) u.copy := by
  rw [show Row.key = fun r => r.copy.key from funext fun r => r.key_copy.symm]
  exact (Register.foldl_put_map Row.copy [u] r).symm

/-- A tombstone that is put on nothing newer leaves no data. -/
theorem BlockCopy.data_put_tombstone {s : Option BlockCopy} {v : ℤ}
    (hs : ∀ c, s = some c → c.version ≤ v) :
    (Register.put BlockCopy.key s ⟨none, v⟩).bind BlockCopy.data = none := by
  rcases s with _ | c
  · rfl
  · unfold Register.put
    simp only
    split_ifs with hlt
    · rfl
    · rw [key_lt_key, not_or] at hlt
      have hv : c.version = v := le_antisymm (hs c rfl) (not_lt.mp hlt.1)
      rcases hc : c.data with _ | data
      · simp [hc]
      · simp [hc, hv, Bool.lt_iff] at hlt

/-- A live copy that is put leaves its data just when the copy that was there is older or has it. -/
theorem BlockCopy.data_put_live {s : Option BlockCopy} {data : String} {v : ℤ} :
    (Register.put BlockCopy.key s ⟨some data, v⟩).bind BlockCopy.data = some data ↔
      ∀ c, s = some c → c.version < v ∨ c.data = some data := by
  rcases s with _ | c
  · simp
  · have hkey : c.key < (⟨some data, v⟩ : BlockCopy).key ↔ c.version < v := by
      rw [key_lt_key]
      simp [Bool.lt_iff]
    unfold Register.put
    simp only [hkey, Option.some.injEq, forall_eq']
    split_ifs with hlt
    · simp [hlt]
    · simp [hlt]

/-! ## What a call leaves of the rows -/

namespace StorageEngine

variable {e : StorageEngine} {d : Disk} {b data : String} {v : ℤ} {m : Mutation}

/-- A call that returns has stored its mutation, or found it there. -/
theorem settle_eq_ok {verdict : Verdict} {x : ℤ × ℤ}
    (h : (e.settle d verdict).result = .ok x) :
    (∃ m, verdict = .mutate m ∧
        (d.performAll (e.settle d verdict).effects).db = e.stored d.db m) ∨
      (∃ version lsn, verdict = .already version lsn ∧
        (d.performAll (e.settle d verdict).effects).db = d.db) := by
  cases verdict with
  | refuse err => cases h
  | already version lsn => exact .inr ⟨version, lsn, rfl, rfl⟩
  | mutate m =>
      by_cases hok : e.Storable m
      · obtain ⟨cache, hlog, -⟩ := log_of_storable (d := d) hok
        refine .inl ⟨m, rfl, ?_⟩
        simp only [settle, hlog]
        rfl
      · simp only [settle, log_of_not_storable hok] at h
        cases h

/-- A call that raises stores nothing. -/
theorem settle_eq_error {verdict : Verdict} {err : StorageError}
    (h : (e.settle d verdict).result = .error err) :
    (d.performAll (e.settle d verdict).effects).db = d.db := by
  cases verdict with
  | refuse err => rfl
  | already version lsn => cases h
  | mutate m =>
      by_cases hok : e.Storable m
      · obtain ⟨cache, hlog, -⟩ := log_of_storable (d := d) hok
        simp only [settle, hlog] at h
        cases h
      · simp only [settle, log_of_not_storable hok]
        rfl

/-- What an idempotent write decides. -/
theorem judgeWrite_idempotent (db : ExtentStore) (b data : String) (v : ℤ) :
    (judgeWrite db b data (.idempotent v) none none = .mutate ⟨some data, b, v, none, none⟩) ∨
      (∃ row, db.blocks b = some row ∧ row.deleted = false ∧ v ≤ row.version ∧
        ∀ m, judgeWrite db b data (.idempotent v) none none ≠ .mutate m) := by
  by_cases hopen : db.Open b v
  · exact .inl (judgeWrite_of_open hopen)
  · obtain ⟨row, hrow, hlive, hle⟩ := ExtentStore.not_open.mp hopen
    refine .inr ⟨row, hrow, hlive, hle, fun m hm => ?_⟩
    rcases hle.lt_or_eq with hlt | heq
    · rw [judgeWrite_of_newer hrow hlive hlt] at hm
      cases hm
    · rw [judgeWrite_of_same hrow hlive heq.symm] at hm
      cases hm

/-- What an idempotent delete decides: it refuses what has a newer row. -/
theorem judgeDelete_idempotent (db : ExtentStore) (b : String) (v : ℤ) :
    (∃ err, judgeDelete db b (some v) none none true = .refuse err) ∨
      ((∀ row, db.blocks b = some row → row.version ≤ v) ∧
        (judgeDelete db b (some v) none none true = .mutate ⟨none, b, v, none, none⟩ ∨
          ((∃ row, db.blocks b = some row ∧ row.deleted = true ∧ v ≤ row.version) ∧
            ∀ m, judgeDelete db b (some v) none none true ≠ .mutate m))) := by
  unfold judgeDelete
  simp only [if_true]
  rcases hrow : db.blocks b with _ | row
  · exact .inr ⟨nofun, .inl rfl⟩
  · simp only [Option.some.injEq, forall_eq', exists_eq_left']
    split_ifs with hlt hdel
    · exact .inl ⟨_, rfl⟩
    · exact .inr ⟨not_lt.mp hlt, .inr ⟨⟨hdel.2, hdel.1⟩, nofun⟩⟩
    · exact .inr ⟨not_lt.mp hlt, .inl rfl⟩

end StorageEngine

end NanoFabric.Node

namespace NanoFabric.Storage

open NanoFabric.Found
open NanoFabric.Metadata (Placement)
open NanoFabric.Node (BlockCopy Disk EngineOp Row StorageEngine)

/-! ## The calls of a restore -/

/-- A call of a restore. -/
inductive RestoreCall
  | write (blockId data : String) (version : ℤ)
  | delete (blockId : String) (version : ℤ)
  /-- A block of an archive that has neither data nor a deletion. -/
  | unreadable
  | place (blockId : String) (nodes : List String)
deriving DecidableEq, Repr

/-- The block that a call writes or deletes. -/
def RestoreCall.target : RestoreCall → Option String
  | .write blockId _ _ => some blockId
  | .delete blockId _ => some blockId
  | _ => none

/-- The copies after a call that returns. -/
def RestoreCall.offer (copies : String → Option BlockCopy) :
    RestoreCall → String → Option BlockCopy
  | .write blockId data version => Registers.put BlockCopy.key copies blockId ⟨some data, version⟩
  | .delete blockId version => Registers.put BlockCopy.key copies blockId ⟨none, version⟩
  | _ => copies

/-- A call leaves the copies of other blocks alone. -/
theorem RestoreCall.offer_of_ne {copies : String → Option BlockCopy} {call : RestoreCall}
    {b : String} (h : call.target ≠ some b) : call.offer copies b = copies b := by
  cases call with
  | write b' data v => exact Registers.put_of_ne fun heq => h (congrArg some heq.symm)
  | delete b' v => exact Registers.put_of_ne fun heq => h (congrArg some heq.symm)
  | unreadable => rfl
  | place b' nodes => rfl

@[simp] theorem RestoreCall.offer_write (copies : String → Option BlockCopy) (b data : String)
    (v : ℤ) : (RestoreCall.write b data v).offer copies b =
      Register.put BlockCopy.key (copies b) ⟨some data, v⟩ :=
  Registers.put_same

@[simp] theorem RestoreCall.offer_delete (copies : String → Option BlockCopy) (b : String) (v : ℤ) :
    (RestoreCall.delete b v).offer copies b = Register.put BlockCopy.key (copies b) ⟨none, v⟩ :=
  Registers.put_same

/-- The call for a block of a snapshot.
Source: `storage/restore_service.py`, `restore_snapshot`. -/
def SnapshotBlock.restoreCall (block : SnapshotBlock) : RestoreCall :=
  if block.deleted then .delete block.blockId block.version
  else .write block.blockId (block.data.getD "") block.version

/-- The call for a block of an archive.
Source: `storage/restore_service.py`, `restore_backup`. -/
def SnapshotBlock.archiveCall (block : SnapshotBlock) : RestoreCall :=
  if block.deleted then .delete block.blockId block.version
  else match block.data with
    | some data => .write block.blockId data block.version
    | none => .unreadable

/-- The calls for the placements.
Source: `storage/restore_service.py`, `restore_snapshot`. -/
def placementCalls (placements : Dict String (List String)) : List RestoreCall :=
  placements.entries.map fun item => .place item.1 item.2

theorem SnapshotBlock.target_restoreCall (block : SnapshotBlock) :
    block.restoreCall.target = some block.blockId := by
  unfold restoreCall
  split <;> rfl

theorem target_ne_of_mem_placementCalls {placements : Dict String (List String)}
    {call : RestoreCall} (h : call ∈ placementCalls placements) (b : String) :
    call.target ≠ some b := by
  obtain ⟨item, -, rfl⟩ := List.mem_map.mp h
  exact nofun

namespace RestoreWiring

variable {W : Type} (R : RestoreWiring W)

/-- Makes a call. -/
def perform : RestoreCall → Call W
  | .write blockId data version => R.writeLocal blockId data version
  | .delete blockId version => R.deleteLocal blockId version
  | .unreadable => fun w => (w, .error "data must be str")
  | .place blockId nodes => R.restorePlacement blockId 1 nodes

/-- The calls of `restore_snapshot` once the blocks are purged, up to the first that raises. -/
def snapshotCalls (blocks : List SnapshotBlock) (placements : Dict String (List String)) (w : W) :
    List RestoreCall :=
  let calls := blocks.map SnapshotBlock.restoreCall
  calls ++ ((R.stale blocks (forEach R.perform calls w).1).map (.delete · 9999) ++
    placementCalls placements)

/-- The calls of `restore_backup` once the blocks are purged, up to the first that raises. -/
def backupCalls (blocks : List SnapshotBlock) (placements : Dict String (List String)) :
    List RestoreCall :=
  blocks.map SnapshotBlock.archiveCall ++ placementCalls placements

theorem restoreBlock_eq (block : SnapshotBlock) :
    R.restoreBlock block = R.perform block.restoreCall := by
  unfold restoreBlock SnapshotBlock.restoreCall
  split <;> rfl

theorem restoreBackupBlock_eq (block : SnapshotBlock) :
    R.restoreBackupBlock block = R.perform block.archiveCall := by
  unfold restoreBackupBlock SnapshotBlock.archiveCall
  split
  · rfl
  · rcases block.data with _ | data <;> rfl

theorem forEach_placementCalls (placements : Dict String (List String)) (w : W) :
    forEach R.perform (placementCalls placements) w =
      forEach (fun item => R.restorePlacement item.1 1 item.2) placements.entries w :=
  forEach_map _ _ _ _

/-- A loop of calls, and then the next one. -/
theorem andThen_forEach (l l' : List RestoreCall) :
    (forEach R.perform l : Call W).andThen (forEach R.perform l') = forEach R.perform (l ++ l') := by
  funext w
  rcases hl : forEach R.perform l w with ⟨w₁, err | ⟨⟩⟩
  · rw [Call.andThen_of_error hl, forEach_append_of_error hl]
  · rw [Call.andThen_of_ok hl, forEach_append_of_ok hl]

/-- What a restore of a snapshot does is to purge the blocks and to make its calls. -/
theorem apply_eq_forEach (blocks : List SnapshotBlock) (placements : Dict String (List String)) :
    R.apply blocks placements =
      R.clear.andThen fun w => forEach R.perform (R.snapshotCalls blocks placements w) w := by
  have hblocks : (forEach R.restoreBlock blocks : Call W) =
      forEach R.perform (blocks.map SnapshotBlock.restoreCall) :=
    funext fun w => by rw [forEach_map, funext R.restoreBlock_eq]
  have hstale : ∀ w, (forEach (fun blockId => R.deleteLocal blockId 9999) (R.stale blocks w) : Call W) =
      forEach R.perform ((R.stale blocks w).map (.delete · 9999)) :=
    fun w => funext fun w' => (forEach_map R.perform (.delete · 9999) _ _).symm
  have hplaces : (forEach (fun item => R.restorePlacement item.1 1 item.2) placements.entries :
      Call W) = forEach R.perform (placementCalls placements) :=
    funext fun w => (R.forEach_placementCalls placements w).symm
  unfold apply snapshotCalls
  rw [hblocks, hplaces]
  refine congrArg _ (funext fun w => ?_)
  rcases hfirst : forEach R.perform (blocks.map SnapshotBlock.restoreCall) w with ⟨w₁, err | ⟨⟩⟩
  · rw [Call.andThen_of_error hfirst, forEach_append_of_error hfirst]
  · rw [Call.andThen_of_ok hfirst, forEach_append_of_ok hfirst, hstale, andThen_forEach, hfirst]

/-- What a restore of a backup does is to purge the blocks and to make its calls. -/
theorem applyBackup_eq_forEach (blocks : List SnapshotBlock)
    (placements : Dict String (List String)) : R.applyBackup blocks placements =
      R.clear.andThen (forEach R.perform (backupCalls blocks placements)) := by
  have hblocks : (forEach R.restoreBackupBlock blocks : Call W) =
      forEach R.perform (blocks.map SnapshotBlock.archiveCall) :=
    funext fun w => by rw [forEach_map, funext R.restoreBackupBlock_eq]
  have hplaces : (forEach (fun item => R.restorePlacement item.1 1 item.2) placements.entries :
      Call W) = forEach R.perform (placementCalls placements) :=
    funext fun w => (R.forEach_placementCalls placements w).symm
  unfold applyBackup backupCalls
  rw [hblocks, hplaces, andThen_forEach]

end RestoreWiring

/-! ## An engine as the target -/

/-- The data of a block that is live in a snapshot. -/
def SnapshotStore.liveData (store : SnapshotStore) (snapshotId blockId : String) : Option String :=
  ((store.entry snapshotId blockId).filter fun block => !block.deleted).map fun block =>
    block.data.getD ""

/-- The placement callback of a restore.
Source: `storage/cluster_bridge.py`, `make_placement_restore`. -/
def restorePlacement (blockId : String) (version : ℤ) (nodes : List String) : Call Placement :=
  fun p =>
    match p.restorePlacement blockId version nodes with
    | .ok p' => (p', .ok ())
    | .error _ => (p, .error "placement not stored")

namespace LocalEngine

/-- The copies of an engine, tombstones included. -/
def copies (e : LocalEngine) (blockId : String) : Option BlockCopy := (e.rows blockId).map Row.copy

theorem liveData_eq (e : LocalEngine) (b : String) :
    e.liveData b = (e.copies b).bind BlockCopy.data := by
  unfold liveData liveRow copies rows
  rcases e.running.disk.db.blocks b with _ | row
  · rfl
  · rcases hdata : row.data with _ | data
    · simp [Option.filter_some, row.deleted_eq, hdata, Row.copy]
    · simp [Option.filter_some, row.deleted_eq, hdata, Row.copy]

/-- What an offered row leaves of the copies. -/
theorem copies_offer {e e' : LocalEngine} {b : String} {row : Row}
    (h : e'.running.disk.db = e.running.disk.db.offer b row) :
    e'.copies = Registers.put BlockCopy.key e.copies b row.copy := by
  funext b'
  unfold copies rows
  rw [h]
  by_cases hb : b' = b
  · subst hb
    unfold Node.ExtentStore.offer
    simp only [Registers.put_same]
    exact Row.copy_put _ _
  · rw [Registers.put_of_ne hb]
    unfold Node.ExtentStore.offer
    simp only [Registers.put_of_ne hb]

/-- The table after a write is what its checks decide. -/
theorem db_writeLocal (e : LocalEngine) (b data : String) (v : ℤ) :
    (writeLocal b data v e).1.running.disk.db =
      (e.running.disk.performAll (e.running.engine.writeLocal e.running.disk b data (.idempotent v)
        none none).effects).db := rfl

/-- The table after a delete is what its checks decide. -/
theorem db_deleteLocal (e : LocalEngine) (b : String) (v : ℤ) :
    (deleteLocal b v e).1.running.disk.db =
      (e.running.disk.performAll (e.running.engine.deleteLocal e.running.disk b (some v) none none
        true).effects).db := rfl

theorem copies_congr {e e' : LocalEngine} (h : e'.running.disk.db = e.running.disk.db) :
    e'.copies = e.copies := by
  unfold copies rows
  rw [h]

/-- A row that is as new as a copy absorbs it. -/
theorem absorbs_copies {e : LocalEngine} {b : String} {row : Row} {c : BlockCopy}
    (hrow : e.rows b = some row) (hversion : c.version ≤ row.version)
    (hdeleted : c.data.isNone ≤ row.deleted) : Register.Absorbs BlockCopy.key (e.copies b) c := by
  refine ⟨row.copy, by rw [copies, hrow, Option.map_some], ?_⟩
  rw [Row.key_copy]
  apply Prod.Lex.toLex_le_toLex.mpr
  rcases hversion.lt_or_eq with hlt | heq
  · exact .inl hlt
  · exact .inr ⟨heq, hdeleted⟩

/-- A write that returns is offered to the block. -/
theorem copies_writeLocal {e : LocalEngine} {b data : String} {v : ℤ}
    (h : (writeLocal b data v e).2 = .ok ()) : (writeLocal b data v e).1.copies =
      Registers.put BlockCopy.key e.copies b ⟨some data, v⟩ := by
  have hjudge := StorageEngine.judgeWrite_idempotent e.running.disk.db b data v
  rcases hres : (e.running.engine.writeLocal e.running.disk b data (.idempotent v) none
      none).result with err | x
  · simp only [writeLocal, hres] at h
    cases h
  · rcases StorageEngine.settle_eq_ok hres with ⟨m, hm, hdb⟩ | ⟨version, lsn, hm, hdb⟩
    · rcases hjudge with hj | ⟨row, -, -, -, hj⟩
      · obtain rfl := Node.Verdict.mutate.inj (hj.symm.trans hm)
        exact copies_offer ((db_writeLocal e b data v).trans hdb)
      · exact absurd hm (hj m)
    · rcases hjudge with hj | ⟨row, hrow, hlive, hle, -⟩
      · cases hj.symm.trans hm
      · rw [copies_congr ((db_writeLocal e b data v).trans hdb), Registers.put_eq_of_absorbs]
        exact absorbs_copies hrow hle (Bool.false_le _)

/-- A delete that returns is offered to a block that has nothing newer. -/
theorem copies_deleteLocal {e : LocalEngine} {b : String} {v : ℤ}
    (h : (deleteLocal b v e).2 = .ok ()) : (deleteLocal b v e).1.copies =
        Registers.put BlockCopy.key e.copies b ⟨none, v⟩ ∧
      ∀ c, e.copies b = some c → c.version ≤ v := by
  have hjudge := StorageEngine.judgeDelete_idempotent e.running.disk.db b v
  rcases hres : (e.running.engine.deleteLocal e.running.disk b (some v) none none true).result
    with err | x
  · simp only [deleteLocal, hres] at h
    cases h
  · rcases hjudge with ⟨err, hj⟩ | ⟨hle, hjudge⟩
    · rcases StorageEngine.settle_eq_ok hres with ⟨m, hm, -⟩ | ⟨version, lsn, hm, -⟩
      · cases hj.symm.trans hm
      · cases hj.symm.trans hm
    · refine ⟨?_, ?_⟩
      · rcases StorageEngine.settle_eq_ok hres with ⟨m, hm, hdb⟩ | ⟨version, lsn, hm, hdb⟩
        · rcases hjudge with hj | ⟨-, hj⟩
          · obtain rfl := Node.Verdict.mutate.inj (hj.symm.trans hm)
            exact copies_offer ((db_deleteLocal e b v).trans hdb)
          · exact absurd hm (hj m)
        · rcases hjudge with hj | ⟨⟨row, hrow, hdel, hge⟩, -⟩
          · cases hj.symm.trans hm
          · rw [copies_congr ((db_deleteLocal e b v).trans hdb), Registers.put_eq_of_absorbs]
            exact absorbs_copies hrow hge (by rw [hdel]; exact Bool.le_true _)
      · intro c hc
        obtain ⟨row, hrow, rfl⟩ := Option.map_eq_some_iff.mp hc
        exact hle row hrow

/-- A write that raises changes no copy. -/
theorem copies_writeLocal_error {e : LocalEngine} {b data : String} {v : ℤ} {err : String}
    (h : (writeLocal b data v e).2 = .error err) :
    (writeLocal b data v e).1.copies = e.copies := by
  rcases hres : (e.running.engine.writeLocal e.running.disk b data (.idempotent v) none
      none).result with err' | x
  · exact copies_congr ((db_writeLocal e b data v).trans (StorageEngine.settle_eq_error hres))
  · simp only [writeLocal, hres] at h
    cases h

/-- A delete that raises changes no copy. -/
theorem copies_deleteLocal_error {e : LocalEngine} {b : String} {v : ℤ} {err : String}
    (h : (deleteLocal b v e).2 = .error err) : (deleteLocal b v e).1.copies = e.copies := by
  rcases hres : (e.running.engine.deleteLocal e.running.disk b (some v) none none true).result
    with err' | x
  · exact copies_congr ((db_deleteLocal e b v).trans (StorageEngine.settle_eq_error hres))
  · simp only [deleteLocal, hres] at h
    cases h

/-! ### Calls -/

/-- A restore into an engine, which is purged first or not, with the placements `M`.
Source: `storage/restore_service.py`, `RestoreService`. -/
def restoringInto {M : Type} (order : SetOrder) (purges : Bool)
    (place : String → ℤ → List String → Call M) : RestoreWiring (LocalEngine × M) :=
  { restoring order place with
    clearBlocks := if purges then (restoring order place).clearBlocks else none }

variable {M : Type} {order : SetOrder} {purges : Bool} {place : String → ℤ → List String → Call M}
  {w w' : LocalEngine × M} {b : String} {v : ℤ} {call : RestoreCall} {calls l r : List RestoreCall}

/-- The blocks and the placements once the purge is over, if there is one. -/
def cleared (purges : Bool) (w : LocalEngine × M) : LocalEngine × M :=
  (if purges then w.1.call .purgeAllBlocks else w.1, w.2)

theorem clear_restoringInto (w : LocalEngine × M) :
    (restoringInto order purges place).clear w = (cleared purges w, .ok ()) := by
  cases purges <;> rfl

theorem copies_cleared (purges : Bool) (w : LocalEngine × M) (b : String) :
    (cleared purges w).1.copies b = if purges then none else w.1.copies b := by
  cases purges <;> rfl

/-- A restore into an engine purges it and makes its calls. -/
theorem apply_restoringInto (blocks : List SnapshotBlock) (placements : Dict String (List String))
    (w : LocalEngine × M) : (restoringInto order purges place).apply blocks placements w =
      forEach (restoringInto order purges place).perform
        ((restoringInto order purges place).snapshotCalls blocks placements (cleared purges w))
        (cleared purges w) := by
  rw [RestoreWiring.apply_eq_forEach, Call.andThen_of_ok (clear_restoringInto w)]

/-- A call that returns offers its copy. -/
theorem copies_perform (h : (restoringInto order purges place).perform call w = (w', .ok ())) :
    w'.1.copies = call.offer w.1.copies := by
  cases call with
  | write b data v =>
      obtain ⟨rfl, hok⟩ := Prod.mk.inj h
      exact copies_writeLocal hok
  | delete b v =>
      obtain ⟨rfl, hok⟩ := Prod.mk.inj h
      exact (copies_deleteLocal hok).1
  | unreadable => cases (Prod.mk.inj h).2
  | place b nodes =>
      obtain ⟨rfl, -⟩ := Prod.mk.inj h
      rfl

/-- A call that raises changes no copy. -/
theorem copies_perform_error {e : String}
    (h : (restoringInto order purges place).perform call w = (w', .error e)) :
    w'.1.copies = w.1.copies := by
  cases call with
  | write b data v =>
      obtain ⟨rfl, hraise⟩ := Prod.mk.inj h
      exact copies_writeLocal_error hraise
  | delete b v =>
      obtain ⟨rfl, hraise⟩ := Prod.mk.inj h
      exact copies_deleteLocal_error hraise
  | unreadable =>
      obtain ⟨rfl, -⟩ := Prod.mk.inj h
      rfl
  | place b nodes =>
      obtain ⟨rfl, -⟩ := Prod.mk.inj h
      rfl

/-- A delete that returns leaves the block deleted. -/
theorem liveData_perform_delete
    (h : (restoringInto order purges place).perform (.delete b v) w = (w', .ok ())) :
    w'.1.liveData b = none := by
  rw [liveData_eq, copies_perform h, RestoreCall.offer_delete]
  obtain ⟨rfl, hok⟩ := Prod.mk.inj h
  exact BlockCopy.data_put_tombstone (copies_deleteLocal hok).2

/-- What calls that return leave of the copies. -/
theorem copies_forEach (h : forEach (restoringInto order purges place).perform calls w = (w', .ok ())) :
    w'.1.copies = calls.foldl RestoreCall.offer w.1.copies := by
  induction calls generalizing w with
  | nil => rw [← (Prod.mk.inj h).1, List.foldl_nil]
  | cons call calls ih =>
      obtain ⟨w₁, hcall, hcalls⟩ := forEach_cons_eq_ok h
      rw [List.foldl_cons, ih hcalls, copies_perform hcall]

/-- Calls leave the copies of other blocks alone. -/
theorem foldl_offer_of_ne {copies : String → Option BlockCopy}
    (h : ∀ call ∈ calls, call.target ≠ some b) :
    calls.foldl RestoreCall.offer copies b = copies b := by
  induction calls generalizing copies with
  | nil => rfl
  | cons call calls ih =>
      obtain ⟨hcall, hcalls⟩ := List.forall_mem_cons.mp h
      rw [List.foldl_cons, ih hcalls, RestoreCall.offer_of_ne hcall]

/-- The only call for a block finds it as it was, and leaves it as it is. -/
theorem copies_of_only_call
    (h : forEach (restoringInto order purges place).perform (l ++ call :: r) w = (w', .ok ()))
    (hl : ∀ call ∈ l, call.target ≠ some b) (hr : ∀ call ∈ r, call.target ≠ some b) :
    ∃ w₁ w₂, (restoringInto order purges place).perform call w₁ = (w₂, .ok ()) ∧
      w₁.1.copies b = w.1.copies b ∧ w'.1.copies b = w₂.1.copies b := by
  obtain ⟨w₁, hbefore, hrest⟩ := forEach_append_eq_ok h
  obtain ⟨w₂, hcall, hafter⟩ := forEach_cons_eq_ok hrest
  refine ⟨w₁, w₂, hcall, ?_, ?_⟩
  · rw [copies_forEach hbefore, foldl_offer_of_ne hl]
  · rw [copies_forEach hafter, foldl_offer_of_ne hr]

/-! ### A restore that completes -/

section completed

variable {blocks : List SnapshotBlock} {placements : Dict String (List String)}

/-- The calls for the surplus blocks are for other blocks than those of the snapshot. -/
theorem target_ne_of_stale {w₁ : LocalEngine × M} {block : SnapshotBlock} (hblock : block ∈ blocks)
    {call : RestoreCall}
    (hcall : call ∈ ((restoringInto order purges place).stale blocks w₁).map (.delete · 9999)) :
    call.target ≠ some block.blockId := by
  obtain ⟨b, hb, rfl⟩ := List.mem_map.mp hcall
  intro htarget
  have hnot := (RestoreWiring.mem_stale.mp hb).2
  rw [Option.some.inj htarget] at hnot
  exact hnot (List.mem_map_of_mem hblock)

/-- A block of the snapshot is restored by one call. -/
theorem copies_of_block (hids : (blocks.map SnapshotBlock.blockId).Nodup)
    (h : (restoringInto order purges place).apply blocks placements w = (w', .ok ()))
    {block : SnapshotBlock} (hblock : block ∈ blocks) :
    ∃ w₁ w₂, (restoringInto order purges place).perform block.restoreCall w₁ = (w₂, .ok ()) ∧
      w₁.1.copies block.blockId = (if purges then none else w.1.copies block.blockId) ∧
      w'.1.copies block.blockId = w₂.1.copies block.blockId := by
  rw [apply_restoringInto] at h
  obtain ⟨blocks₁, blocks₂, rfl⟩ := List.append_of_mem hblock
  rw [List.map_append, List.map_cons, List.nodup_append, List.nodup_cons] at hids
  obtain ⟨-, ⟨hafter, -⟩, hbefore⟩ := hids
  unfold RestoreWiring.snapshotCalls at h
  simp only [List.map_append, List.map_cons, List.append_assoc, List.cons_append] at h
  rw [← copies_cleared purges]
  refine copies_of_only_call h ?_ ?_
  · intro call hcall htarget
    obtain ⟨block', hblock', rfl⟩ := List.mem_map.mp hcall
    rw [SnapshotBlock.target_restoreCall] at htarget
    exact hbefore _ (List.mem_map_of_mem hblock') _ List.mem_cons_self (Option.some.inj htarget)
  · intro call hcall
    rcases List.mem_append.mp hcall with hcall | hcall
    · obtain ⟨block', hblock', rfl⟩ := List.mem_map.mp hcall
      rw [SnapshotBlock.target_restoreCall]
      intro htarget
      exact hafter (Option.some.inj htarget ▸ List.mem_map_of_mem hblock')
    · rcases List.mem_append.mp hcall with hcall | hcall
      · exact target_ne_of_stale hblock hcall
      · exact target_ne_of_mem_placementCalls hcall _

/-- A block that the snapshot has no entry for is deleted, if it is there. -/
theorem liveData_of_notMem
    (h : (restoringInto order purges place).apply blocks placements w = (w', .ok ()))
    (hb : b ∉ blocks.map SnapshotBlock.blockId) : w'.1.liveData b = none := by
  rw [apply_restoringInto] at h
  obtain ⟨w₁, hfirst, hrest⟩ := forEach_append_eq_ok h
  rw [hfirst] at hrest
  simp only at hrest
  by_cases hstale : b ∈ (restoringInto order purges place).stale blocks w₁
  · obtain ⟨stale₁, stale₂, heq⟩ := List.append_of_mem hstale
    have hnodup : ((restoringInto order purges place).stale blocks w₁).Nodup :=
      RestoreWiring.nodup_stale (nodup_listBlocks w₁.1) blocks
    rw [heq, List.nodup_append, List.nodup_cons] at hnodup
    obtain ⟨-, ⟨hafter, -⟩, hbefore⟩ := hnodup
    rw [heq] at hrest
    simp only [List.map_append, List.map_cons, List.append_assoc, List.cons_append] at hrest
    obtain ⟨w₂, w₃, hcall, -, hcopies⟩ := copies_of_only_call (b := b) hrest
      (fun call hcall htarget => by
        obtain ⟨b', hb', rfl⟩ := List.mem_map.mp hcall
        exact hbefore b' hb' _ List.mem_cons_self (Option.some.inj htarget))
      (fun call hcall => by
        rcases List.mem_append.mp hcall with hcall | hcall
        · obtain ⟨b', hb', rfl⟩ := List.mem_map.mp hcall
          exact fun htarget => hafter (Option.some.inj htarget ▸ hb')
        · exact target_ne_of_mem_placementCalls hcall b)
    rw [liveData_eq, hcopies, ← liveData_eq]
    exact liveData_perform_delete hcall
  · -- the block is not listed, and no later call is for it
    have hlive : w₁.1.liveRow b = none := by
      by_contra hrow
      obtain ⟨row, hrow⟩ := Option.ne_none_iff_exists'.mp hrow
      exact hstale (RestoreWiring.mem_stale.mpr ⟨mem_listBlocks.mpr ⟨row, hrow⟩, hb⟩)
    rw [liveData_eq, copies_forEach hrest, foldl_offer_of_ne, ← liveData_eq]
    · unfold liveData
      rw [hlive]
      rfl
    · intro call hcall
      rcases List.mem_append.mp hcall with hcall | hcall
      · obtain ⟨b', hb', rfl⟩ := List.mem_map.mp hcall
        exact fun htarget => hstale (Option.some.inj htarget ▸ hb')
      · exact target_ne_of_mem_placementCalls hcall b

/-- A deleted block of the snapshot is deleted. -/
theorem liveData_of_deleted (hids : (blocks.map SnapshotBlock.blockId).Nodup)
    (h : (restoringInto order purges place).apply blocks placements w = (w', .ok ()))
    {block : SnapshotBlock} (hblock : block ∈ blocks) (hdeleted : block.deleted = true) :
    w'.1.liveData block.blockId = none := by
  obtain ⟨w₁, w₂, hcall, -, hafter⟩ := copies_of_block hids h hblock
  unfold SnapshotBlock.restoreCall at hcall
  rw [if_pos hdeleted] at hcall
  rw [liveData_eq, hafter, ← liveData_eq]
  exact liveData_perform_delete hcall

/-- A live block of the snapshot gets its data unless it has, without a purge, a row that is as new
and has no or other data. -/
theorem liveData_of_live (hids : (blocks.map SnapshotBlock.blockId).Nodup)
    (h : (restoringInto order purges place).apply blocks placements w = (w', .ok ()))
    {block : SnapshotBlock} (hblock : block ∈ blocks) (hlive : block.deleted = false) :
    w'.1.liveData block.blockId = some (block.data.getD "") ↔
      purges = true ∨ ∀ row, w.1.rows block.blockId = some row →
        row.version < block.version ∨ row.data = some (block.data.getD "") := by
  obtain ⟨w₁, w₂, hcall, hbefore, hafter⟩ := copies_of_block hids h hblock
  unfold SnapshotBlock.restoreCall at hcall
  rw [if_neg (by rw [hlive]; exact Bool.false_ne_true)] at hcall
  rw [liveData_eq, hafter, copies_perform hcall, RestoreCall.offer_write, hbefore,
    BlockCopy.data_put_live]
  rcases purges with _ | _
  · simp [copies, Row.copy]
  · simp

end completed

/-! ### What a restore is to leave -/

/-- The live blocks and their data are those of a snapshot. -/
def Restores (e : LocalEngine) (store : SnapshotStore) (sid : String) : Prop :=
  ∀ b, e.liveData b = store.liveData sid b

/-- The rows let a snapshot be restored without a purge: the row of each of its live blocks is older,
or has the data. -/
def Yields (e : LocalEngine) (store : SnapshotStore) (sid : String) : Prop :=
  ∀ block ∈ store.getSnapshotBlocks sid, block.deleted = false →
    ∀ row, e.rows block.blockId = some row →
      row.version < block.version ∨ row.data = some (block.data.getD "")

/-- **A restore that ends `COMPLETED` leaves the snapshot just when it purges or the rows yield.** -/
theorem restoresExactly_iff {M : Type} {order : SetOrder} {purges : Bool} {place : String → ℤ → List String → Call M}
    {w : LocalEngine × M} {store : SnapshotStore} {sid : String}
    (hcompleted :
      ((restoringInto order purges place).restoreSnapshot store w sid).2.2.status = .completed) :
    ((restoringInto order purges place).restoreSnapshot store w sid).2.1.1.Restores store sid ↔
      purges = true ∨ w.1.Yields store sid := by
  obtain ⟨snapshot, -, happly⟩ := RestoreWiring.restoreSnapshot_completed hcompleted
  have hids := store.nodup_getSnapshotBlocks sid
  have hlive : ∀ block ∈ store.getSnapshotBlocks sid, block.deleted = false →
      store.liveData sid block.blockId = some (block.data.getD "") := by
    intro block hblock hlive
    simp [SnapshotStore.liveData, SnapshotStore.mem_getSnapshotBlocks.mp hblock, hlive]
  constructor
  · intro h
    refine or_iff_not_imp_left.mpr fun hpurges block hblock hdeleted => ?_
    have hblockId := (h block.blockId).trans (hlive block hblock hdeleted)
    exact ((liveData_of_live hids happly hblock hdeleted).mp hblockId).resolve_left hpurges
  · intro h b
    rcases hentry : store.entry sid b with _ | block
    · rw [SnapshotStore.liveData, hentry]
      refine liveData_of_notMem happly fun hb => ?_
      obtain ⟨block, hblock, rfl⟩ := List.mem_map.mp hb
      rw [SnapshotStore.mem_getSnapshotBlocks.mp hblock] at hentry
      cases hentry
    · obtain rfl := SnapshotStore.blockId_of_entry hentry
      have hblock := SnapshotStore.mem_getSnapshotBlocks.mpr hentry
      rcases hdeleted : block.deleted with _ | _
      · rw [hlive block hblock hdeleted]
        exact (liveData_of_live hids happly hblock hdeleted).mpr
          (h.imp_right fun h => h block hblock hdeleted)
      · rw [liveData_of_deleted hids happly hblock hdeleted]
        simp [SnapshotStore.liveData, hentry, hdeleted]

/-! ### Runs -/

/-- A snapshot of an engine with one block. -/
def snapshotOfEngine : List (ProtectionEvent Unit EngineOp) :=
  [.change (.writeLocal "b1" "data" (.resolve (some 1)) none none), .create "s1" 1000 1 Dict.empty,
    .list, .read (), .share "v1", .add, .finish]

/-- How a restore of the snapshot without a purge ends, and the data of the block after it. -/
def restoredEngine (s : Protection LocalEngine) : RestoreJobStatus × Option String :=
  let out := (restoringInto .asListed false restorePlacement).restoreSnapshot s.store
    (s.world, .empty) "s1"
  (out.2.2.status, out.2.1.1.liveData "b1")

/-- A restore into an engine that was purged after the snapshot. -/
theorem restoresExactly_iff_purged : ∃ s, run (Protection.step adapter)
    (Protection.init (LocalEngine.empty "node1"))
      (snapshotOfEngine ++ [.change .purgeAllBlocks]) = some s ∧
    (((restoringInto .asListed false restorePlacement).restoreSnapshot s.store (s.world, .empty)
      "s1").2.1.1.Restores s.store "s1" ↔ false = true ∨ s.world.Yields s.store "s1") := by
  have hrun : (run (Protection.step adapter) (Protection.init (LocalEngine.empty "node1"))
      (snapshotOfEngine ++ [.change .purgeAllBlocks])).map restoredEngine =
      some (.completed, some "data") := by decide +kernel
  obtain ⟨s, hs, hrestored⟩ := Option.map_eq_some_iff.mp hrun
  exact ⟨s, hs, restoresExactly_iff (w := (s.world, Placement.empty)) (Prod.mk.inj hrestored).1⟩

/-- A block that was deleted after the snapshot is written at its old version, and stays deleted. -/
theorem restoresExactly_counterexample : ¬ ∀ (purges : Bool) (e : LocalEngine) (p : Placement)
    (evs : List (ProtectionEvent Unit EngineOp)) (s : Protection LocalEngine) (sid : String),
    run (Protection.step adapter) (Protection.init e) evs = some s →
    Protection.HasEntries s.store sid (s.liveAt sid) →
    ((restoringInto .asListed purges restorePlacement).restoreSnapshot s.store (s.world, p)
      sid).2.2.status = .completed →
    ((restoringInto .asListed purges restorePlacement).restoreSnapshot s.store (s.world, p)
      sid).2.1.1.Restores s.store sid := by
  intro h
  have hrun : (run (Protection.step adapter) (Protection.init (LocalEngine.empty "node1"))
      (snapshotOfEngine ++ [.change (.deleteLocal "b1" (some 2) none none true)])).map
      (fun s => (restoredEngine s, s.store.getSnapshotBlocks "s1", s.liveAt "s1",
        s.store.liveData "s1" "b1")) =
      some ((.completed, none), [⟨"b1", 1, some "data", false⟩], ["b1"], some "data") := by
    decide +kernel
  obtain ⟨s, hs, hrestored⟩ := Option.map_eq_some_iff.mp hrun
  obtain ⟨hend, hrest⟩ := Prod.mk.inj hrestored
  obtain ⟨hblocks, hrest⟩ := Prod.mk.inj hrest
  obtain ⟨hlive, hdata⟩ := Prod.mk.inj hrest
  have hcomplete : Protection.HasEntries s.store "s1" (s.liveAt "s1") := by
    intro b hb
    rw [hlive] at hb
    exact ⟨_, hblocks ▸ List.mem_cons_self, (List.mem_singleton.mp hb).symm⟩
  have hsame := h false (.empty "node1") .empty _ s "s1" hs hcomplete (Prod.mk.inj hend).1 "b1"
  rw [hdata] at hsame
  exact Option.some_ne_none _ (hsame.symm.trans (Prod.mk.inj hend).2)

end LocalEngine

end NanoFabric.Storage
