import NanoFabric.Node.Acknowledgement
import NanoFabric.Storage.EngineAdapter

/-!
# The replication endpoints of a node

The endpoints of `node/api_server.py` that other processes post writes and deletes to, with the
models of `node/replication_models.py` that validate the requests.

* `LocalEngine.replicates_replicate` — what a valid write leaves of the table.
* `LocalEngine.isSome_liveRow_replicate` — a write takes no live row away.
* `LocalEngine.replicate_accepts` — a valid write of a block without a live row that is newer than
  the tombstone, if there is one, becomes the live row.
-/

namespace NanoFabric.Storage

open NanoFabric.Found
open NanoFabric.Node

/-! ## Writes and deletes -/

/-- The JSON body of a request; a field may be missing. -/
structure RequestBody where
  blockId : String
  data : Option String
  version : ℤ
  lsn : Option ℤ
  originNodeId : Option String
deriving DecidableEq, Repr

/-- Source: `node/replication_models.py`, `ReplicateDeleteRequest`. -/
structure ReplicateDeleteRequest where
  blockId : String
  version : ℤ
  lsn : ℤ
  originNodeId : String
  blockId_ne : blockId ≠ ""
  version_pos : 1 ≤ version
  lsn_pos : 1 ≤ lsn
  originNodeId_ne : originNodeId ≠ ""

/-- Source: `node/replication_models.py`, `ReplicateRequest`. -/
structure ReplicateRequest extends ReplicateDeleteRequest where
  data : String

/-- The request of a body that passes validation. -/
def ReplicateDeleteRequest.validate (body : RequestBody) : Option ReplicateDeleteRequest :=
  match body.lsn, body.originNodeId with
  | some lsn, some origin =>
      if h : body.blockId ≠ "" ∧ 1 ≤ body.version ∧ 1 ≤ lsn ∧ origin ≠ "" then
        some ⟨body.blockId, body.version, lsn, origin, h.1, h.2.1, h.2.2.1, h.2.2.2⟩
      else none
  | _, _ => none

/-- The request of a body that passes validation. -/
def ReplicateRequest.validate (body : RequestBody) : Option ReplicateRequest :=
  match body.data with
  | some data => (ReplicateDeleteRequest.validate body).map fun req => { req with data }
  | none => none

/-- The status code of what the engine returned or raised. -/
def statusCode {α : Type} : Except StorageError α → ℕ
  | .ok _ => 200
  | .error (.validation _) => 400
  | .error (.versionConflict ..) => 409
  | .error .overflow => 500

namespace LocalEngine

/-- Source: `node/api_server.py`, `replicate_write`. -/
def replicate (e : LocalEngine) (body : RequestBody) : LocalEngine × ℕ :=
  match ReplicateRequest.validate body with
  | none => (e, 422)
  | some req =>
      (e.call (.writeLocal req.blockId req.data (.idempotent req.version) (some req.originNodeId)
          (some req.lsn)),
        statusCode (e.running.engine.writeLocal e.running.disk req.blockId req.data
          (.idempotent req.version) (some req.originNodeId) (some req.lsn)).result)

/-- Source: `node/api_server.py`, `replicate_delete`. -/
def replicateDelete (e : LocalEngine) (body : RequestBody) : LocalEngine × ℕ :=
  match ReplicateDeleteRequest.validate body with
  | none => (e, 422)
  | some req =>
      (e.call (.deleteLocal req.blockId (some req.version) (some req.originNodeId) (some req.lsn)
          true),
        statusCode (e.running.engine.deleteLocal e.running.disk req.blockId (some req.version)
          (some req.originNodeId) (some req.lsn) true).result)

/-! ## What a write leaves -/

/-- The rows of the node's table. -/
def rows (e : LocalEngine) : String → Option Row := e.running.disk.db.blocks

/-- What a valid write leaves of the rows, and its status code. -/
inductive Replicates (rows : String → Option Row) (req : ReplicateRequest) :
    (String → Option Row) → ℕ → Prop
  | conflict {row : Row} (hrow : rows req.blockId = some row) (hlive : row.deleted = false)
      (hnewer : req.version < row.version) : Replicates rows req rows 409
  | already {row : Row} (hrow : rows req.blockId = some row) (hlive : row.deleted = false)
      (hsame : row.version = req.version) : Replicates rows req rows 200
  | offered (hold : ∀ row, rows req.blockId = some row → row.deleted = true ∨
      row.version < req.version) (hfits : Bindable req.version ∧ Bindable req.lsn) :
      Replicates rows req (Registers.put Row.key rows req.blockId
        (.live req.data req.version req.originNodeId req.lsn)) 200
  | overflow (hold : ∀ row, rows req.blockId = some row → row.deleted = true ∨
      row.version < req.version) (hno : ¬ (Bindable req.version ∧ Bindable req.lsn)) :
      Replicates rows req rows 500

variable {e : LocalEngine} {body : RequestBody} {req : ReplicateRequest}

theorem replicates_replicate (h : ReplicateRequest.validate body = some req) :
    Replicates e.rows req (e.replicate body).1.rows (e.replicate body).2 := by
  unfold replicate
  rw [h]
  simp only [rows, call, Running.run, Running.call, StorageEngine.writeLocal]
  by_cases hold : e.running.disk.db.Open req.blockId req.version
  · rw [judgeWrite_of_open hold]
    simp only [StorageEngine.settle]
    by_cases hfits : Bindable req.version ∧ Bindable req.lsn
    · obtain ⟨cache, hlog, -⟩ := StorageEngine.log_of_storable (e := e.running.engine)
        (d := e.running.disk) (m := ⟨some req.data, req.blockId, req.version,
          some req.originNodeId, some req.lsn⟩) hfits
      rw [hlog]
      have horigin : e.running.engine.effectiveOrigin (some req.originNodeId) = req.originNodeId :=
        if_neg req.originNodeId_ne
      simpa [Disk.performAll, Disk.perform, StorageEngine.stored, ExtentStore.offer, horigin,
        Mutation.row, statusCode] using Replicates.offered hold hfits
    · rw [StorageEngine.log_of_not_storable (e := e.running.engine) (m := ⟨some req.data,
        req.blockId, req.version, some req.originNodeId, some req.lsn⟩) hfits]
      exact .overflow hold hfits
  · obtain ⟨row, hrow, hlive, hle⟩ := ExtentStore.not_open.mp hold
    rcases hle.lt_or_eq with hlt | heq
    · rw [judgeWrite_of_newer hrow hlive hlt]
      exact .conflict hrow hlive hlt
    · rw [judgeWrite_of_same hrow hlive heq.symm]
      exact .already hrow hlive heq.symm

theorem liveRow_eq_some {b : String} {row : Row} :
    e.liveRow b = some row ↔ e.rows b = some row ∧ row.deleted = false := by
  unfold liveRow
  rw [Option.filter_eq_some_iff]
  simp [rows]

/-- A request that fails validation changes nothing. -/
theorem replicate_of_invalid (h : ReplicateRequest.validate body = none) :
    (e.replicate body).1 = e := by
  unfold replicate
  rw [h]

/-- A body with all its fields that are in range is valid. -/
theorem validate_eq_some {b data origin : String} {version lsn : ℤ}
    (h : b ≠ "" ∧ 1 ≤ version ∧ 1 ≤ lsn ∧ origin ≠ "") :
    ReplicateRequest.validate ⟨b, some data, version, some lsn, some origin⟩ =
      some ⟨⟨b, version, lsn, origin, h.1, h.2.1, h.2.2.1, h.2.2.2⟩, data⟩ := by
  unfold ReplicateRequest.validate ReplicateDeleteRequest.validate
  simp only [dif_pos h]
  rfl

/-- A valid write has the fields of its body. -/
theorem validate_fields (h : ReplicateRequest.validate body = some req) :
    req.blockId = body.blockId ∧ some req.data = body.data ∧ req.version = body.version := by
  unfold ReplicateRequest.validate ReplicateDeleteRequest.validate at h
  split at h
  · rename_i data hdata
    obtain ⟨req', hreq, rfl⟩ := Option.map_eq_some_iff.mp h
    split at hreq
    · split_ifs at hreq
      obtain rfl := Option.some.inj hreq
      exact ⟨rfl, hdata.symm, rfl⟩
    · cases hreq
  · cases h

theorem validate_blockId (h : ReplicateRequest.validate body = some req) :
    req.blockId = body.blockId := (validate_fields h).1

/-- A write changes the row of its own block only. -/
theorem rows_replicate_of_ne {b : String} (hb : b ≠ body.blockId) :
    (e.replicate body).1.rows b = e.rows b := by
  rcases hreq : ReplicateRequest.validate body with _ | req
  · rw [replicate_of_invalid hreq]
  · rw [← validate_blockId hreq] at hb
    have hspec := replicates_replicate (e := e) hreq
    generalize (e.replicate body).1.rows = rows' at hspec ⊢
    generalize (e.replicate body).2 = code at hspec
    induction hspec with
    | offered => exact Registers.put_of_ne hb
    | _ => rfl

/-- A write takes no live row away. -/
theorem isSome_liveRow_replicate {b : String} (h : (e.liveRow b).isSome) :
    ((e.replicate body).1.liveRow b).isSome := by
  obtain ⟨row, hrow⟩ := Option.isSome_iff_exists.mp h
  obtain ⟨hrow, hlive⟩ := liveRow_eq_some.mp hrow
  suffices hsome : ∃ row, (e.replicate body).1.rows b = some row ∧ row.deleted = false by
    obtain ⟨row, hrow⟩ := hsome
    exact Option.isSome_iff_exists.mpr ⟨row, liveRow_eq_some.mpr hrow⟩
  by_cases hb : b = body.blockId
  · rcases hreq : ReplicateRequest.validate body with _ | req
    · rw [replicate_of_invalid hreq]
      exact ⟨row, hrow, hlive⟩
    · obtain rfl : b = req.blockId := hb.trans (validate_blockId hreq).symm
      have hspec := replicates_replicate (e := e) hreq
      generalize (e.replicate body).1.rows = rows' at hspec ⊢
      generalize (e.replicate body).2 = code at hspec
      induction hspec with
      | offered hold hfits =>
          rw [Registers.put_same, hrow]
          rcases Register.put_eq_or Row.key (some row)
            (Row.live req.data req.version req.originNodeId req.lsn) with hput | ⟨hput, -⟩
          · exact ⟨_, hput, rfl⟩
          · exact ⟨_, hput, hlive⟩
      | _ => exact ⟨row, hrow, hlive⟩
  · rw [rows_replicate_of_ne hb]
    exact ⟨row, hrow, hlive⟩

/-- A valid write of a block without a live row, newer than its tombstone if there is one, becomes the
live row. -/
theorem replicate_accepts (hreq : ReplicateRequest.validate body = some req)
    (hfits : Bindable req.version ∧ Bindable req.lsn)
    (hold : ∀ row, e.rows req.blockId = some row → row.deleted = true ∧ row.version < req.version) :
    (e.replicate body).2 = 200 ∧ (e.replicate body).1.rows req.blockId =
      some (.live req.data req.version req.originNodeId req.lsn) := by
  have hspec := replicates_replicate (e := e) hreq
  generalize (e.replicate body).1.rows = rows' at hspec ⊢
  generalize (e.replicate body).2 = code at hspec ⊢
  induction hspec with
  | conflict hrow hlive => exact absurd (hold _ hrow).1 (by simp [hlive])
  | already hrow hlive => exact absurd (hold _ hrow).1 (by simp [hlive])
  | offered =>
      refine ⟨rfl, ?_⟩
      rw [Registers.put_same]
      rcases hrow : e.rows req.blockId with _ | row
      · rfl
      · have hlt : row.key < (Row.live req.data req.version req.originNodeId req.lsn).key :=
          Row.key_lt_key.mpr (Or.inl (hold row hrow).2)
        simp only [Register.put, hlt, if_true]
  | overflow hold' hno => exact absurd hfits hno

/-- A valid write of a block with a tombstone that is no older changes nothing. -/
theorem replicate_buried {row : Row} (hreq : ReplicateRequest.validate body = some req)
    (hrow : e.rows req.blockId = some row) (hdel : row.deleted = true)
    (hle : req.version ≤ row.version) : (e.replicate body).1.rows req.blockId = some row := by
  have hspec := replicates_replicate (e := e) hreq
  generalize (e.replicate body).1.rows = rows' at hspec ⊢
  generalize (e.replicate body).2 = code at hspec
  induction hspec with
  | conflict => exact hrow
  | already => exact hrow
  | offered =>
      rw [Registers.put_same, hrow]
      have hnot : ¬ row.key < (Row.live req.data req.version req.originNodeId req.lsn).key := by
        rw [Row.key_lt_key]
        simp [Row.live, hdel, not_lt.mpr hle]
      simp only [Register.put, hnot, if_false]
  | overflow => exact hrow

/-- What a valid write does to a live row: an older one is replaced if the new one can be stored. -/
theorem replicate_of_live {row : Row} (hreq : ReplicateRequest.validate body = some req)
    (hrow : e.rows req.blockId = some row) (hlive : row.deleted = false) :
    (row.version < req.version ∧ (Bindable req.version ∧ Bindable req.lsn) ∧
        (e.replicate body).2 = 200 ∧ (e.replicate body).1.rows req.blockId =
          some (.live req.data req.version req.originNodeId req.lsn)) ∨
      ((e.replicate body).1.rows req.blockId = some row ∧
        ((row.version = req.version ∧ (e.replicate body).2 = 200) ∨
          (req.version < row.version ∧ (e.replicate body).2 = 409) ∨
          (row.version < req.version ∧ ¬ (Bindable req.version ∧ Bindable req.lsn) ∧
            (e.replicate body).2 = 500))) := by
  have hspec := replicates_replicate (e := e) hreq
  have hopen : (∀ row, e.rows req.blockId = some row → row.deleted = true ∨
      row.version < req.version) → row.version < req.version := by
    intro hold
    rcases hold row hrow with hdel | hlt
    · exact absurd hdel (by simp [hlive])
    · exact hlt
  generalize (e.replicate body).1.rows = rows' at hspec ⊢
  generalize (e.replicate body).2 = code at hspec ⊢
  induction hspec with
  | conflict hrow' hlive' hnewer =>
      obtain rfl := Option.some.inj (hrow.symm.trans hrow')
      exact Or.inr ⟨hrow, Or.inr (Or.inl ⟨hnewer, rfl⟩)⟩
  | already hrow' hlive' hsame =>
      obtain rfl := Option.some.inj (hrow.symm.trans hrow')
      exact Or.inr ⟨hrow, Or.inl ⟨hsame, rfl⟩⟩
  | offered hold hfits =>
      refine Or.inl ⟨hopen hold, hfits, rfl, ?_⟩
      rw [Registers.put_same, hrow]
      exact if_pos (Row.key_lt_key.mpr (Or.inl (hopen hold)))
  | overflow hold hno => exact Or.inr ⟨hrow, Or.inr (Or.inr ⟨hopen hold, hno, rfl⟩)⟩

/-- A valid write of the version that the live row has is acknowledged. -/
theorem replicate_already {row : Row} (hreq : ReplicateRequest.validate body = some req)
    (hrow : e.rows req.blockId = some row) (hlive : row.deleted = false)
    (hsame : row.version = req.version) :
    (e.replicate body).2 = 200 ∧ (e.replicate body).1.rows req.blockId = some row := by
  rcases replicate_of_live hreq hrow hlive with
    ⟨hlt, -⟩ | ⟨hkept, ⟨-, hcode⟩ | ⟨hlt, -⟩ | ⟨hlt, -⟩⟩
  · exact absurd hsame hlt.ne
  · exact ⟨hcode, hkept⟩
  · exact absurd hsame hlt.ne'
  · exact absurd hsame hlt.ne

/-! ## Reads -/

/-- The block of an answer that is no 404; what the read changes in the cache is left out.
Source: `node/api_server.py`, `read_block`. -/
def answer (e : LocalEngine) (blockId : String) : Option BlockRecord :=
  match (e.running.engine.readBlock e.running.disk blockId).result with
  | .ok (some record) => if record.deleted then none else some record
  | _ => none

/-- A node answers with the live row of the block, if it has one. -/
theorem answer_eq (e : LocalEngine) (b : String) :
    e.answer b = (e.liveRow b).map (StorageEngine.blockRecord b) := by
  unfold answer
  rw [result_readBlock]
  rcases hrow : e.liveRow b with _ | row
  · rfl
  · exact if_neg (by simp [StorageEngine.blockRecord, deleted_of_liveRow hrow])

end LocalEngine

end NanoFabric.Storage
