import NanoFabric.Found.Runs
import NanoFabric.Node.RowOrder
import NanoFabric.Replication.Quorum

/-!
# Writes, deletes and reads of a cluster

The nodes of a cluster with the calls that are under way: the writes and deletes that a primary
replicates (`node/replication_service.py`) and the reads that a coordinator collects
(`node/read_coordinator.py`), both at the consistency `QUORUM`. The placement of a block is fixed and
looked up by the id, as a copy of another node is read, so that the URLs with an id are a parameter. A
node that does not answer is one whose answer is never heard.

An event is one request that one node handles, so that calls of any nodes interleave in any order. A
request may be handled again at any later time: by the retries of the client, the jobs and the hints.

* `LocalEngine.writeLocal_resolve` — what a write of a client leaves of the rows.
* `PrimaryCall.rows_deliver`, `PrimaryCall.reached_deliver` — what a request leaves of the rows, and
  what an acknowledgement says of them.
-/

namespace NanoFabric.Node

theorem judgeDelete_data {db : ExtentStore} {b : String} {v : Option ℤ} {o : Option String}
    {l : Option ℤ} {idempotent : Bool} {m : Mutation}
    (h : StorageEngine.judgeDelete db b v o l idempotent = .mutate m) : m.data = none := by
  unfold StorageEngine.judgeDelete at h
  repeat' split at h
  all_goals cases h
  all_goals rfl

theorem EngineOp.data_of_delete {db : ExtentStore} {b : String} {v : Option ℤ} {o : Option String}
    {l : Option ℤ} {idempotent : Bool} {m : Mutation}
    (h : (EngineOp.deleteLocal b v o l idempotent).mutation db = some m) : m.data = none := by
  unfold mutation at h
  split at h
  · rename_i m' hv
    obtain rfl := Option.some.inj h
    exact judgeDelete_data (Option.some.inj hv)
  · cases h

/-- What the checks of a client's write decide. -/
theorem judgeWrite_resolve (db : ExtentStore) (b data : String) (version : Option ℤ) :
    (∃ err, StorageEngine.judgeWrite db b data (.resolve version) none none = .refuse err) ∨
      ∃ v, StorageEngine.judgeWrite db b data (.resolve version) none none =
        .mutate ⟨some data, b, v, none, none⟩ := by
  unfold StorageEngine.judgeWrite
  simp only
  split
  · exact Or.inl ⟨_, rfl⟩
  · split
    · exact Or.inl ⟨_, rfl⟩
    · exact Or.inr ⟨_, rfl⟩

end NanoFabric.Node

namespace NanoFabric.Storage.LocalEngine

open NanoFabric.Found
open NanoFabric.Node

/-! ## What a call leaves of the rows -/

variable {e : LocalEngine} {op : EngineOp} {body : RequestBody} {b data : String} {row : Row}

theorem rows_call (e : LocalEngine) (op : EngineOp) :
    (e.call op).rows = (e.running.disk.performAll (e.running.call op).2).db.blocks := rfl

/-- Every call but a purge lets all rows grow. -/
theorem grows_call (e : LocalEngine) (hop : op ≠ .purgeAllBlocks) :
    Registers.Grows Row.key e.rows (e.call op).rows := by
  have hall := Node.grows_call e.running hop (e.running.call op).2.length
  rwa [List.take_length] at hall

/-- A row is an old one, or the row of the mutation that the call logs. -/
theorem rows_call_eq_some (h : (e.call op).rows b = some row) (hop : op ≠ .purgeAllBlocks) :
    e.rows b = some row ∨ ∃ m, op.mutation e.running.disk.db = some m ∧ m.blockId = b ∧
      row.data = m.data ∧ row.version = m.version := by
  rw [rows_call] at h
  have hcalls := e.running.call_cases op
  generalize (e.running.call op).1 = engine at hcalls
  generalize (e.running.call op).2 = effects at hcalls h
  cases hcalls with
  | quiet hm hcoh => exact Or.inl h
  | stored hm hok hcoh =>
      rename_i m cache
      rcases Registers.put_eq_some h with hold | ⟨rfl, rfl⟩
      · exact Or.inl hold
      · exact Or.inr ⟨m, hm, rfl, Mutation.row_data, Mutation.row_version⟩
  | rejected hm hno => exact Or.inl h
  | purged => exact absurd rfl hop
  | checkpointed t => exact Or.inl h

theorem grows_replicate (e : LocalEngine) (body : RequestBody) :
    Registers.Grows Row.key e.rows (e.replicate body).1.rows := by
  unfold replicate
  split
  · exact .refl _ _
  · exact e.grows_call nofun

theorem grows_replicateDelete (e : LocalEngine) (body : RequestBody) :
    Registers.Grows Row.key e.rows (e.replicateDelete body).1.rows := by
  unfold replicateDelete
  split
  · exact .refl _ _
  · exact e.grows_call nofun

/-- A row after a write is an old one or the one that was sent. -/
theorem rows_replicate_eq_some (h : (e.replicate body).1.rows b = some row) :
    e.rows b = some row ∨
      (b = body.blockId ∧ row.data = body.data ∧ row.version = body.version) := by
  rcases hreq : ReplicateRequest.validate body with _ | req
  · rw [replicate_of_invalid hreq] at h
    exact Or.inl h
  · obtain ⟨hb, hdata, hversion⟩ := validate_fields hreq
    have hspec := replicates_replicate (e := e) hreq
    generalize (e.replicate body).1.rows = rows' at hspec h
    generalize (e.replicate body).2 = code at hspec
    cases hspec with
    | offered hold hfits =>
        rcases Registers.put_eq_some h with hrow | ⟨rfl, rfl⟩
        · exact Or.inl hrow
        · exact Or.inr ⟨hb, hdata, hversion⟩
    | _ => exact Or.inl h

/-- A row after a delete is an old one or a tombstone. -/
theorem rows_replicateDelete_eq_some (h : (e.replicateDelete body).1.rows b = some row) :
    e.rows b = some row ∨ row.data = none := by
  unfold replicateDelete at h
  split at h
  · exact Or.inl h
  · rcases rows_call_eq_some h nofun with hrow | ⟨m, hm, -, hdata, -⟩
    · exact Or.inl hrow
    · exact Or.inr (hdata.trans (EngineOp.data_of_delete hm))

/-- A node that acknowledges a write has a row that is no older. -/
theorem reached_replicate (h : (e.replicate body).2 = 200) :
    ∃ row, (e.replicate body).1.rows body.blockId = some row ∧ body.version ≤ row.version := by
  rcases hreq : ReplicateRequest.validate body with _ | req
  · unfold replicate at h
    rw [hreq] at h
    cases h
  · obtain ⟨hb, -, hversion⟩ := validate_fields hreq
    rw [← hb, ← hversion]
    have hspec := replicates_replicate (e := e) hreq
    rw [h] at hspec
    generalize (e.replicate body).1.rows = rows' at hspec
    cases hspec with
    | already hrow hlive hsame => exact ⟨_, hrow, hsame.ge⟩
    | offered hold hfits =>
        obtain ⟨row, hrow, hle⟩ := Register.absorbs_put Row.key (e.rows req.blockId)
          (.live req.data req.version req.originNodeId req.lsn)
        exact ⟨row, Registers.put_same.trans hrow, Row.version_le_of_key_le hle⟩

/-- A write of a client is refused and changes no row, or is stored under the version that its checks
chose. -/
theorem writeLocal_resolve (e : LocalEngine) (b data : String) (version : Option ℤ) :
    (∃ err, (e.running.engine.writeLocal e.running.disk b data (.resolve version) none
          none).result = .error err ∧
        (e.call (.writeLocal b data (.resolve version) none none)).rows = e.rows) ∨
      ∃ v lsn, (e.running.engine.writeLocal e.running.disk b data (.resolve version) none
          none).result = .ok (v, lsn) ∧
        StorageEngine.judgeWrite e.running.disk.db b data (.resolve version) none none =
          .mutate ⟨some data, b, v, none, none⟩ ∧
        (e.call (.writeLocal b data (.resolve version) none none)).rows =
          Registers.put Row.key e.rows b (.live data v e.running.engine.nodeId lsn) := by
  rw [rows_call]
  simp only [Running.call, StorageEngine.writeLocal]
  rcases judgeWrite_resolve e.running.disk.db b data version with ⟨err, hj⟩ | ⟨v, hj⟩
  · rw [hj]
    exact Or.inl ⟨err, rfl, rfl⟩
  · rw [hj]
    simp only [StorageEngine.settle]
    by_cases hok : e.running.engine.Storable ⟨some data, b, v, none, none⟩
    · obtain ⟨cache, hlog, -⟩ := StorageEngine.log_of_storable (d := e.running.disk) hok
      rw [hlog]
      exact Or.inr ⟨v, _, rfl, rfl, rfl⟩
    · rw [StorageEngine.log_of_not_storable hok]
      exact Or.inl ⟨_, rfl, rfl⟩

end NanoFabric.Storage.LocalEngine

namespace NanoFabric.Replication

open NanoFabric.Found
open NanoFabric.Node
open NanoFabric.Repair
open NanoFabric.Storage

/-! ## A call of a primary -/

/-- A write or a delete, which has no data, as its primary replicates it: the targets of its jobs and
those that are still to answer. -/
structure PrimaryCall where
  primaryNode : String
  blockId : String
  data : Option String
  version : ℤ
  lsn : ℤ
  replicas : List String
  waiting : List String
  quorum : QuorumManager

namespace PrimaryCall

/-- A primary without a placement, or outside it, acknowledges alone.
Source: `node/replication_service.py`, `replicate_write`, `replicate_delete`, `_local_only_result`. -/
def start (locations : List String) (primaryNode blockId : String) (data : Option String)
    (version lsn : ℤ) : PrimaryCall :=
  if primaryNode ∈ locations then
    let replicas := locations.filter (· ≠ primaryNode)
    ⟨primaryNode, blockId, data, version, lsn, replicas, replicas,
      (QuorumManager.init locations.length .quorum).recordAck primaryNode⟩
  else
    ⟨primaryNode, blockId, data, version, lsn, [], [],
      (QuorumManager.init (max locations.length 1) .one).recordAck primaryNode⟩

/-- The request of a job.
Source: `node/replication_service.py`, `_execute_write_job`, `_execute_delete_job`. -/
def request (c : PrimaryCall) : RequestBody :=
  ⟨c.blockId, some (c.data.getD ""), c.version, some c.lsn, some c.primaryNode⟩

/-- A target handles the request of a job. -/
def deliver (c : PrimaryCall) (e : LocalEngine) : LocalEngine × ℕ :=
  match c.data with
  | some _ => e.replicate c.request
  | none => e.replicateDelete c.request

/-- The call after the result of a job.
Source: `node/replication_service.py`, `replicate_write`, `replicate_delete`. -/
def record (c : PrimaryCall) (target : String) (ok : Bool) : PrimaryCall :=
  { c with
    waiting := c.waiting.erase target
    quorum := if ok then c.quorum.recordAck target else c.quorum.recordFailure target }

/-- The call has returned `True`; the clock does not matter.
Source: `node/storage_engine.py`, `write`, `delete`. -/
def Returned (c : PrimaryCall) : Prop := c.waiting = [] ∧ c.quorum.evaluate false = .success

instance (c : PrimaryCall) : Decidable c.Returned := inferInstanceAs (Decidable (_ ∧ _))

end PrimaryCall

namespace PrimaryCall

variable {c : PrimaryCall} {e : LocalEngine} {b : String} {row : Row}

theorem grows_deliver (c : PrimaryCall) (e : LocalEngine) :
    Registers.Grows Row.key e.rows (c.deliver e).1.rows := by
  unfold deliver
  split
  · exact e.grows_replicate c.request
  · exact e.grows_replicateDelete c.request

/-- A row with data is an old one, or what the call writes. -/
theorem rows_deliver (h : (c.deliver e).1.rows b = some row) :
    e.rows b = some row ∨ row.data = none ∨
      (b = c.blockId ∧ row.data = c.data ∧ row.version = c.version) := by
  unfold deliver at h
  split at h
  · rename_i d hd
    rcases LocalEngine.rows_replicate_eq_some h with hrow | ⟨hb, hdata, hversion⟩
    · exact Or.inl hrow
    · refine Or.inr (Or.inr ⟨hb, hdata.trans ?_, hversion⟩)
      unfold request
      rw [hd]
      rfl
  · rcases LocalEngine.rows_replicateDelete_eq_some h with hrow | hdata
    · exact Or.inl hrow
    · exact Or.inr (Or.inl hdata)

/-- A target that acknowledges a write has a row that is no older. -/
theorem reached_deliver {d : String} (hd : c.data = some d) (h : (c.deliver e).2 = 200) :
    ∃ row, (c.deliver e).1.rows c.blockId = some row ∧ c.version ≤ row.version := by
  unfold deliver at h ⊢
  rw [hd] at h ⊢
  exact LocalEngine.reached_replicate h

end PrimaryCall

/-! ## The nodes of a block -/

/-- What the look-up of the nodes of a block comes to, where `none` is an exception. A block without a
placement has no nodes.
Source: `node/metadata_client.py`, `get_block_locations`. -/
def getBlockLocations (urls : Urls) (placement : String → List String) (blockId : String) :
    Option (List String) :=
  match urls.locations blockId with
  | .block placedId => some (placement placedId)
  | .notFound => some []
  | .elsewhere => none
  | .refused => none
  | .invalid => none

/-- The nodes that the look-up names. -/
def located (urls : Urls) (placement : String → List String) (blockId : String) : List String :=
  (getBlockLocations urls placement blockId).getD []

theorem located_of_getBlockLocations {urls : Urls} {placement : String → List String} {b : String}
    {locations : List String} (h : getBlockLocations urls placement b = some locations) :
    located urls placement b = locations := by
  unfold located
  rw [h]
  rfl

theorem nodup_located {urls : Urls} {placement : String → List String}
    (h : ∀ b, (placement b).Nodup) (b : String) : (located urls placement b).Nodup := by
  unfold located getBlockLocations
  split
  · exact h _
  all_goals exact List.nodup_nil

/-! ## A read -/

/-- A read: the nodes that are still to answer, the copies in the order in which they came, and the
calls that had returned when it began. -/
structure ReadCall where
  coordinator : String
  blockId : String
  waiting : List String
  copies : List ReplicaCopy
  after : List PrimaryCall

/-- A coordinator of a block without a placement reads its own copy.
Source: `node/read_coordinator.py`, `read`, `_read_local_only`, `_read_from_replicas`. -/
def ReadCall.start (locations : List String) (coordinator blockId : String)
    (after : List PrimaryCall) : ReadCall :=
  ⟨coordinator, blockId, if locations = [] then [coordinator] else locations, [], after⟩

/-- What the read returns once all have answered.
Source: `node/read_coordinator.py`, `read`, `_read_local_only`. -/
def ReadCall.result (locations : List String) (r : ReadCall) : Option ReadResult :=
  if r.waiting ≠ [] then none
  else if locations = [] then r.copies.head?.map fun c => .ofCopy c true 1 .success
  else coordinate .quorum locations.length r.copies

/-- The read after an answer, which is no copy if the node has none or is not reached. -/
def ReadCall.record (r : ReadCall) (target : String) (copy : Option ReplicaCopy) : ReadCall :=
  { r with waiting := r.waiting.erase target, copies := r.copies ++ copy.toList }

/-! ## The cluster -/

/-- A write that its engine has stored. -/
structure IssuedWrite where
  node : String
  blockId : String
  data : String
  version : ℤ
deriving DecidableEq, Repr

/-- The nodes, the calls and the reads so far, and the writes that were stored. -/
structure Cluster where
  nodes : String → LocalEngine
  calls : List PrimaryCall
  reads : List ReadCall
  writes : List IssuedWrite

/-- What can happen. -/
inductive Event
  /-- `StorageEngine.write` up to its jobs. -/
  | write (node blockId data : String) (version : Option ℤ)
  /-- `StorageEngine.delete` up to its jobs. -/
  | delete (node blockId : String)
  /-- A target handles the request of a job, and the primary hears the answer. -/
  | answered (call : ℕ) (target : String)
  /-- The primary gives a target up. -/
  | unreachable (call : ℕ) (target : String)
  /-- A target handles the request of a job, a retry or a hint, and nobody hears the answer. -/
  | resent (call : ℕ) (target : String)
  | startRead (coordinator blockId : String)
  /-- A node answers a read; its `updated_at_ms` is given. -/
  | copyRead (read : ℕ) (target : String) (timestampMs : ℤ)
  | readFailed (read : ℕ) (target : String)
  /-- A stale node handles the write of a read repair, by the read or by `POST /repair`. -/
  | repaired (read : ℕ) (target : String)
  /-- A read or a checkpoint of one engine. -/
  | maintained (node : String) (op : EngineOp)

namespace Cluster

/-- The cluster before the first write. -/
def init : Cluster := ⟨LocalEngine.empty, [], [], []⟩

variable (urls : Urls) (placement : String → List String)

/-- The cluster with another engine at a node. -/
def setNode (s : Cluster) (node : String) (e : LocalEngine) : Cluster :=
  { s with nodes := Function.update s.nodes node e }

theorem setNode_nodes (s : Cluster) (node : String) (e : LocalEngine) :
    (s.setNode node e).nodes = Function.update s.nodes node e := rfl

/-- The call that replicates what an engine has stored, if looking the nodes of the block up does not
raise.
Source: `node/replication_service.py`, `replicate_write`, `replicate_delete`. -/
def replicated (node blockId : String) (data : Option String) (version lsn : ℤ) :
    Option PrimaryCall :=
  (getBlockLocations urls placement blockId).map fun locations =>
    .start locations node blockId data version lsn

/-- The cluster after a write that its engine stores, or refuses.
Source: `node/storage_engine.py`, `write`. -/
def write (s : Cluster) (node blockId data : String) (version : Option ℤ) : Cluster :=
  let e := s.nodes node
  let s' := s.setNode node (e.call (.writeLocal blockId data (.resolve version) none none))
  match (e.running.engine.writeLocal e.running.disk blockId data (.resolve version) none
    none).result with
  | .error _ => s'
  | .ok (v, lsn) =>
      { s' with
        calls := s.calls ++ (replicated urls placement node blockId (some data) v lsn).toList
        writes := s.writes ++ [⟨node, blockId, data, v⟩] }

/-- The cluster after a delete that its engine stores, or refuses.
Source: `node/storage_engine.py`, `delete`. -/
def delete (s : Cluster) (node blockId : String) : Cluster :=
  let e := s.nodes node
  let s' := s.setNode node (e.call (.deleteLocal blockId none none none false))
  match (e.running.engine.deleteLocal e.running.disk blockId none none none false).result with
  | .error _ => s'
  | .ok (v, lsn) =>
      { s' with calls := s.calls ++ (replicated urls placement node blockId none v lsn).toList }

/-- The cluster after an event, if it can happen. -/
def step (s : Cluster) : Event → Option Cluster
  | .write node blockId data version => some (s.write urls placement node blockId data version)
  | .delete node blockId => some (s.delete urls placement node blockId)
  | .answered i target =>
      match s.calls[i]? with
      | some c =>
          if target ∈ c.waiting then
            let (e, code) := c.deliver (s.nodes target)
            some { s.setNode target e with calls := s.calls.set i (c.record target (code = 200)) }
          else none
      | none => none
  | .unreachable i target =>
      match s.calls[i]? with
      | some c =>
          if target ∈ c.waiting then
            some { s with calls := s.calls.set i (c.record target false) }
          else none
      | none => none
  | .resent i target =>
      match s.calls[i]? with
      | some c =>
          if target ∈ c.replicas then some (s.setNode target (c.deliver (s.nodes target)).1)
          else none
      | none => none
  | .startRead coordinator blockId =>
      some { s with
        reads := s.reads ++ ((getBlockLocations urls placement blockId).map fun locations =>
          .start locations coordinator blockId (s.calls.filter (·.Returned))).toList }
  | .copyRead i target timestampMs =>
      match s.reads[i]? with
      | some r =>
          if target ∈ r.waiting then
            some { s with
              reads := s.reads.set i
                (r.record target
                  (Repair.readNode urls.read r.coordinator
                    (fun n => ⟨s.nodes n, fun _ => timestampMs⟩) r.blockId target)) }
          else none
      | none => none
  | .readFailed i target =>
      match s.reads[i]? with
      | some r =>
          if target ∈ r.waiting then some { s with reads := s.reads.set i (r.record target none) }
          else none
      | none => none
  | .repaired i target =>
      match s.reads[i]? with
      | some r =>
          match selectLatest (successfulCopies r.copies) with
          | some latest =>
              let stale := (findStaleReplicas (successfulCopies r.copies) latest).filter
                fun c => !c.deleted
              if r.waiting = [] ∧ located urls placement r.blockId ≠ [] ∧
                  target ∈ stale.map ReplicaCopy.nodeId then
                some (s.setNode target
                  ((s.nodes target).replicate (repairRequest r.coordinator latest)).1)
              else none
          | none => none
      | none => none
  | .maintained node op =>
      match op with
      | .readBlock _ | .checkpoint _ => some (s.setNode node ((s.nodes node).call op))
      | _ => none

end Cluster

end NanoFabric.Replication
