import NanoFabric.Storage.ReplicaEndpoint

/-!
# Messages to replicas

What a primary sends to a replica, from its calls, its jobs or its hints: a write to `/replicate` or a
delete to `/replicate-delete`.

* `ReplicaMessage.build_eq_some` — a message is built again from its fields.
* `ReplicaMessage.deliver_spec` — a replica that accepts a message offers its row to the register of the
  block, and one that refuses it changes no row.
-/

namespace NanoFabric.Replication

open NanoFabric.Found
open NanoFabric.Node
open NanoFabric.Storage

/-! ## Messages -/

/-- What a primary sends to a replica. -/
inductive ReplicaMessage
  | write (req : ReplicateRequest)
  | delete (req : ReplicateDeleteRequest)

namespace ReplicaMessage

/-- What both kinds carry. -/
def base : ReplicaMessage → ReplicateDeleteRequest
  | write req => req.toReplicateDeleteRequest
  | delete req => req

/-- The data of a write. -/
def data : ReplicaMessage → Option String
  | write req => some req.data
  | delete _ => none

def isDelete : ReplicaMessage → Bool
  | write _ => false
  | delete _ => true

/-- The request that is built from the fields of a job or a hint, where `none` is the
`ValidationError` of one that cannot be built.
Source: `node/replication_models.py`, `ReplicateRequest`, `ReplicateDeleteRequest`. -/
def build (isDelete : Bool) (body : RequestBody) : Option ReplicaMessage :=
  if isDelete then (ReplicateDeleteRequest.validate body).map .delete
  else (ReplicateRequest.validate body).map .write

/-- Source: `node/replica_client.py`, `replicate_write`, `replicate_delete`. -/
def body (m : ReplicaMessage) : RequestBody :=
  ⟨m.base.blockId, m.data, m.base.version, some m.base.lsn, some m.base.originNodeId⟩

/-- A replica handles a message.
Source: `node/replica_client.py`, `replicate_write`, `replicate_delete`. -/
def deliver (e : LocalEngine) : ReplicaMessage → LocalEngine × ℕ
  | write req => e.replicate (write req).body
  | delete req => e.replicateDelete (delete req).body

/-- The row that a message asks for. -/
def row : ReplicaMessage → Row
  | write req => .live req.data req.version req.originNodeId req.lsn
  | delete req => .tombstone req.version req.originNodeId req.lsn

/-- A replica that has the row `held` accepts the message: it has what the message asks for already,
or it has nothing newer, where a write also passes under a newer tombstone, and the numbers fit into
their columns. -/
def Accepted (held : Option Row) (m : ReplicaMessage) : Prop :=
  (∃ r, held = some r ∧ r.key = m.row.key) ∨
    ((∀ r, held = some r → m.base.version < r.version → m.isDelete = false ∧ r.deleted = true) ∧
      Bindable m.base.version ∧ Bindable m.base.lsn)

/-! ## What a message is built from -/

variable {m : ReplicaMessage} {e : LocalEngine}

/-- The fields of a request pass its validation. -/
theorem validate_request (req : ReplicateDeleteRequest) (data : Option String) :
    ReplicateDeleteRequest.validate
      ⟨req.blockId, data, req.version, some req.lsn, some req.originNodeId⟩ = some req :=
  dif_pos ⟨req.blockId_ne, req.version_pos, req.lsn_pos, req.originNodeId_ne⟩

/-- A message is built again from its fields. -/
theorem build_eq_some (m : ReplicaMessage) : build m.isDelete ⟨m.base.blockId,
    some (m.data.getD ""), m.base.version, some m.base.lsn, some m.base.originNodeId⟩ = some m := by
  unfold build
  rcases m with req | req
  · have hbase := validate_request req.toReplicateDeleteRequest (some req.data)
    simp only [base, isDelete, data, Option.getD_some, ReplicateRequest.validate, hbase,
      Bool.false_eq_true, if_false, Option.map_some]
  · exact congrArg (Option.map delete) (validate_request req (some ""))

/-- A message is about the block and the version of its fields. -/
theorem base_of_build {isDelete : Bool} {body : RequestBody} (h : build isDelete body = some m) :
    m.base.blockId = body.blockId ∧ m.base.version = body.version := by
  unfold build at h
  split at h
  · obtain ⟨req, hreq, rfl⟩ := Option.map_eq_some_iff.mp h
    unfold ReplicateDeleteRequest.validate at hreq
    split at hreq
    · split_ifs at hreq
      obtain rfl := Option.some.inj hreq
      exact ⟨rfl, rfl⟩
    · cases hreq
  · obtain ⟨req, hreq, rfl⟩ := Option.map_eq_some_iff.mp h
    obtain ⟨hb, -, hversion⟩ := LocalEngine.validate_fields hreq
    exact ⟨hb, hversion⟩

theorem version_row : m.row.version = m.base.version := by
  cases m <;> rfl

theorem deleted_row : m.row.deleted = m.isDelete := by
  cases m <;> rfl

theorem key_row_eq_iff {r : Row} : r.key = m.row.key ↔
    r.version = m.base.version ∧ r.deleted = m.isDelete := by
  unfold Row.key
  rw [toLex_inj, Prod.mk.injEq, version_row, deleted_row]

/-! ## What a message leaves -/

/-- What a message leaves of the rows, and whether the replica answers that it has taken it. -/
structure Delivers (rows rows' : String → Option Row) (m : ReplicaMessage) (code : ℕ) : Prop where
  taken : Accepted (rows m.base.blockId) m → code = 200 ∧
    rows' = Registers.put Row.key rows m.base.blockId m.row
  refused : ¬ Accepted (rows m.base.blockId) m → code ≠ 200 ∧ rows' = rows

/-- A replica that has what the message asks for. -/
theorem Delivers.already {rows : String → Option Row} {r : Row}
    (hrow : rows m.base.blockId = some r) (hkey : r.key = m.row.key) : Delivers rows rows m 200 := by
  refine ⟨fun _ => ⟨rfl, ?_⟩, fun hno => absurd (Or.inl ⟨r, hrow, hkey⟩) hno⟩
  funext b
  by_cases hb : b = m.base.blockId
  · obtain rfl := hb
    rw [Registers.put_same, Register.Absorbs.put_eq ⟨r, hrow, hkey.ge⟩]
  · rw [Registers.put_of_ne hb]

/-- A replica that has something newer. -/
theorem Delivers.conflict {rows : String → Option Row} {r : Row} {code : ℕ}
    (hrow : rows m.base.blockId = some r) (hnewer : m.base.version < r.version)
    (hkept : m.isDelete = true ∨ r.deleted = false) (hcode : code ≠ 200) :
    Delivers rows rows m code := by
  have hno : ¬ Accepted (rows m.base.blockId) m := by
    rintro (⟨r', hrow', hkey⟩ | ⟨hold, -⟩)
    · obtain rfl := Option.some.inj (hrow.symm.trans hrow')
      exact hnewer.ne (key_row_eq_iff.mp hkey).1.symm
    · obtain ⟨hwrite, hdel⟩ := hold r hrow hnewer
      rcases hkept with hkept | hkept
      · exact absurd (hwrite.symm.trans hkept) (by decide)
      · exact absurd (hkept.symm.trans hdel) (by decide)
  exact ⟨fun h => absurd h hno, fun _ => ⟨hcode, rfl⟩⟩

/-- A replica that has nothing newer offers the row to the register. -/
theorem Delivers.offered {rows : String → Option Row}
    (hold : ∀ r, rows m.base.blockId = some r → m.base.version < r.version →
      m.isDelete = false ∧ r.deleted = true)
    (hfits : Bindable m.base.version ∧ Bindable m.base.lsn) :
    Delivers rows (Registers.put Row.key rows m.base.blockId m.row) m 200 :=
  ⟨fun _ => ⟨rfl, rfl⟩, fun hno => absurd (Or.inr ⟨hold, hfits⟩) hno⟩

/-- A replica into whose columns the numbers do not fit. -/
theorem Delivers.overflow {rows : String → Option Row} {code : ℕ}
    (hkey : ∀ r, rows m.base.blockId = some r → r.key ≠ m.row.key)
    (hno : ¬ (Bindable m.base.version ∧ Bindable m.base.lsn)) (hcode : code ≠ 200) :
    Delivers rows rows m code := by
  refine ⟨?_, fun _ => ⟨hcode, rfl⟩⟩
  rintro (⟨r, hrow, hsame⟩ | ⟨-, hfits⟩)
  · exact absurd hsame (hkey r hrow)
  · exact absurd hfits hno

theorem delivers_write (e : LocalEngine) (req : ReplicateRequest) :
    Delivers e.rows ((write req).deliver e).1.rows (write req) ((write req).deliver e).2 := by
  have hreq : ReplicateRequest.validate (write req).body = some req := by
    have hbase := validate_request req.toReplicateDeleteRequest (some req.data)
    simp only [body, base, data, ReplicateRequest.validate, hbase, Option.map_some]
  have hspec := LocalEngine.replicates_replicate (e := e) hreq
  unfold deliver
  generalize (e.replicate (write req).body).1.rows = rows' at hspec ⊢
  generalize (e.replicate (write req).body).2 = code at hspec ⊢
  cases hspec with
  | conflict hrow hlive hnewer => exact .conflict hrow hnewer (Or.inr hlive) (by decide)
  | already hrow hlive hsame => exact .already hrow (key_row_eq_iff.mpr ⟨hsame, hlive⟩)
  | offered hold hfits =>
      refine .offered (m := write req) (fun r hr hnewer => ⟨rfl, ?_⟩) hfits
      rcases hold r hr with hdel | hlt
      · exact hdel
      · exact absurd hnewer hlt.le.not_gt
  | overflow hold hno =>
      refine .overflow (fun r hr hkey => ?_) hno (by decide)
      obtain ⟨hsame, hlive⟩ := key_row_eq_iff.mp hkey
      rcases hold r hr with hdel | hlt
      · exact Bool.false_ne_true (hlive.symm.trans hdel)
      · exact hlt.ne hsame

theorem delivers_delete (e : LocalEngine) (req : ReplicateDeleteRequest) :
    Delivers e.rows ((delete req).deliver e).1.rows (delete req) ((delete req).deliver e).2 := by
  have hreq : ReplicateDeleteRequest.validate (delete req).body = some req := validate_request req none
  -- a delete that is neither refused nor acknowledged as done is logged
  have hlog : (∀ r, e.rows req.blockId = some r → r.version ≤ req.version ∧
        ¬ (req.version ≤ r.version ∧ r.deleted = true)) →
      Delivers e.rows
        ((e.running.disk.performAll (e.running.engine.log e.running.disk ⟨none, req.blockId,
          req.version, some req.originNodeId, some req.lsn⟩).effects).db.blocks) (delete req)
        (statusCode (e.running.engine.log e.running.disk ⟨none, req.blockId, req.version,
          some req.originNodeId, some req.lsn⟩).result) := by
    intro hold
    by_cases hfits : Bindable req.version ∧ Bindable req.lsn
    · obtain ⟨cache, hlog, -⟩ := StorageEngine.log_of_storable (e := e.running.engine)
        (d := e.running.disk) (m := ⟨none, req.blockId, req.version, some req.originNodeId,
          some req.lsn⟩) hfits
      have horigin : e.running.engine.effectiveOrigin (some req.originNodeId) = req.originNodeId :=
        if_neg req.originNodeId_ne
      have hoffered : Delivers e.rows
          (Registers.put Row.key e.running.disk.db.blocks req.blockId (delete req).row) (delete req)
          200 :=
        .offered (m := delete req) (fun r hr hnewer => absurd hnewer (hold r hr).1.not_gt) hfits
      rw [hlog]
      simpa [Disk.performAll, Disk.perform, StorageEngine.stored, ExtentStore.offer, horigin,
        Mutation.row, statusCode, row] using hoffered
    · rw [StorageEngine.log_of_not_storable (e := e.running.engine) (m := ⟨none, req.blockId,
        req.version, some req.originNodeId, some req.lsn⟩) hfits]
      refine .overflow (fun r hr hkey => ?_) hfits (by decide : (500 : ℕ) ≠ 200)
      obtain ⟨hsame, hdel⟩ := key_row_eq_iff.mp hkey
      exact (hold r hr).2 ⟨hsame.ge, hdel⟩
  simp only [deliver, LocalEngine.replicateDelete, hreq, LocalEngine.rows, LocalEngine.call,
    Running.run, Running.call, StorageEngine.deleteLocal, StorageEngine.judgeDelete, if_true]
  rcases hrow : e.running.disk.db.blocks req.blockId with _ | r
  · exact hlog fun r hr => absurd (hr.symm.trans hrow) (by simp)
  · simp only
    split_ifs with hnewer hdone
    · exact .conflict hrow hnewer (Or.inl rfl) (by decide : (409 : ℕ) ≠ 200)
    · exact .already hrow (key_row_eq_iff.mpr ⟨le_antisymm (not_lt.mp hnewer) hdone.1, hdone.2⟩)
    · refine hlog fun r' hr' => ?_
      obtain rfl := Option.some.inj (hrow.symm.trans hr')
      exact ⟨not_lt.mp hnewer, hdone⟩

/-- A replica that accepts a message offers its row to the register of the block, and one that refuses
it changes no row. -/
theorem deliver_spec (e : LocalEngine) (m : ReplicaMessage) :
    Delivers e.rows (m.deliver e).1.rows m (m.deliver e).2 := by
  cases m with
  | write req => exact delivers_write e req
  | delete req => exact delivers_delete e req

end ReplicaMessage

end NanoFabric.Replication
