import Mathlib.Data.Finset.Sort
import Mathlib.Data.List.Sort
import Mathlib.Data.String.Basic
import NanoFabric.Found.Dict
import NanoFabric.Node.ExtentStore

/-!
# The stores of a metadata node

What a metadata node keeps, one value for each object of the source: the membership registry, the
placement registry, the inverse index of node inventories, the SQLite stores of placements and of
repair jobs, and the alerts. Beside each operation stands what it leaves to be read.

An inventory is the set of the blocks that the source keeps as a sorted list, and so are the
`placements` rows of a block. The column `created_at` of `blocks` is left out, since it only orders
the items of a dictionary that is read by key.
-/

namespace NanoFabric.Metadata

open NanoFabric.Found
open NanoFabric.Node (Bindable)

/-! ## Membership -/

/-- Source: `metadata/models.py`, `NodeStatus`. -/
inductive NodeStatus
  | up
  | down
deriving DecidableEq, Repr

/-- Source: `metadata/models.py`, `NodeRecord`. -/
structure NodeRecord where
  nodeId : String
  status : NodeStatus
  address : String
  lastSeen : ℤ
  registeredAt : ℤ
  failedAt : Option ℤ
  recoveredAt : Option ℤ
deriving DecidableEq, Repr

/-- Source: `metadata/membership.py`, `MembershipRegistry`. -/
@[ext]
structure MembershipRegistry where
  nodes : Dict String NodeRecord
deriving DecidableEq

namespace MembershipRegistry

/-- A registry without nodes. -/
def empty : MembershipRegistry := ⟨Dict.empty⟩

/-- The record that `register` makes at the time `now`. -/
def registered (m : MembershipRegistry) (nodeId address : String) (now : ℤ) : NodeRecord :=
  match m.nodes.get? nodeId with
  | some existing =>
      { existing with
        address := address
        status := .up
        lastSeen := now
        recoveredAt := if existing.status = .down then some now else existing.recoveredAt
        failedAt := none }
  | none => ⟨nodeId, .up, address, now, now, none, none⟩

/-- Source: `metadata/membership.py`, `register`. -/
def register (m : MembershipRegistry) (nodeId address : String) (now : ℤ) : MembershipRegistry :=
  ⟨m.nodes.set nodeId (m.registered nodeId address now)⟩

/-- A record after a heartbeat at the time `now`. -/
def beaten (record : NodeRecord) (now : ℤ) : NodeRecord :=
  { record with
    status := .up
    lastSeen := now
    failedAt := none
    recoveredAt := if record.status = .down then some now else record.recoveredAt }

/-- The registry and the record after a heartbeat, where `none` is the `KeyError`.
Source: `metadata/membership.py`, `heartbeat`. -/
def heartbeat (m : MembershipRegistry) (nodeId : String) (now : ℤ) :
    Option (MembershipRegistry × NodeRecord) :=
  (m.nodes.get? nodeId).map fun record => (⟨m.nodes.set nodeId (beaten record now)⟩, beaten record now)

/-- Source: `metadata/membership.py`, `check_failures`. -/
def checkFailures (m : MembershipRegistry) (failureTimeoutMs now : ℤ) : MembershipRegistry :=
  ⟨m.nodes.mapVals fun _ record =>
    if record.status = .down then record
    else if failureTimeoutMs < now - record.lastSeen then
      { record with status := .down, failedAt := some now }
    else record⟩

/-- The nodes that are up, in order.
Source: `metadata/placement_service.py`, `get_healthy_nodes`. -/
def healthyNodes (m : MembershipRegistry) : List String :=
  ((m.nodes.entries.filter fun item => item.2.status = .up).map Prod.fst).insertionSort (· ≤ ·)

theorem nodup_healthyNodes (m : MembershipRegistry) : m.healthyNodes.Nodup := by
  unfold healthyNodes
  rw [(List.perm_insertionSort _ _).nodup_iff]
  exact m.nodes.nodup.sublist (List.filter_sublist.map _)

theorem mem_healthyNodes {m : MembershipRegistry} {nodeId : String} : nodeId ∈ m.healthyNodes ↔
    ∃ record, m.nodes.get? nodeId = some record ∧ record.status = .up := by
  unfold healthyNodes
  rw [List.mem_insertionSort, List.mem_map]
  constructor
  · rintro ⟨⟨n, record⟩, hmem, rfl⟩
    obtain ⟨hmem, hup⟩ := List.mem_filter.mp hmem
    exact ⟨record, Dict.mem_entries.mp hmem, of_decide_eq_true hup⟩
  · rintro ⟨record, hget, hup⟩
    exact ⟨(nodeId, record),
      List.mem_filter.mpr ⟨Dict.mem_entries.mpr hget, decide_eq_true hup⟩, rfl⟩

end MembershipRegistry

/-! ## Placements -/

/-- Source: `metadata/placement_registry.py`, `PlacementRegistry`. -/
@[ext]
structure PlacementRegistry where
  blocks : Dict String (List String)
  versions : Dict String ℤ
deriving DecidableEq

namespace PlacementRegistry

/-- A registry without blocks. -/
def empty : PlacementRegistry := ⟨Dict.empty, Dict.empty⟩

/-- Source: `metadata/placement_registry.py`, `register_block`. -/
def registerBlock (r : PlacementRegistry) (blockId : String) (version : ℤ) (nodes : List String) :
    PlacementRegistry :=
  ⟨r.blocks.set blockId nodes, r.versions.set blockId version⟩

/-- Source: `metadata/placement_registry.py`, `get_block_locations`. -/
def getBlockLocations (r : PlacementRegistry) (blockId : String) : Option (List String) :=
  r.blocks.get? blockId

/-- Source: `metadata/placement_registry.py`, `get_block_version`. -/
def getBlockVersion (r : PlacementRegistry) (blockId : String) : Option ℤ := r.versions.get? blockId

/-- Source: `metadata/placement_registry.py`, `block_exists`. -/
def blockExists (r : PlacementRegistry) (blockId : String) : Bool := r.blocks.contains blockId

/-- Source: `metadata/placement_registry.py`, `load_from_snapshot`. -/
def loadFromSnapshot (blocks : Dict String (List String)) (versions : Dict String ℤ) :
    PlacementRegistry :=
  ⟨blocks, versions⟩

/-- The registry without a block, and whether it had it.
Source: `metadata/placement_registry.py`, `delete_block`. -/
def deleteBlock (r : PlacementRegistry) (blockId : String) : PlacementRegistry × Bool :=
  if r.blocks.contains blockId then (⟨r.blocks.erase blockId, r.versions.erase blockId⟩, true)
  else (r, false)

@[simp] theorem getBlockLocations_registerBlock (r : PlacementRegistry) (b b' : String) (v : ℤ)
    (nodes : List String) : (r.registerBlock b v nodes).getBlockLocations b' =
      if b' = b then some nodes else r.getBlockLocations b' :=
  Dict.get?_set

@[simp] theorem getBlockVersion_registerBlock (r : PlacementRegistry) (b b' : String) (v : ℤ)
    (nodes : List String) : (r.registerBlock b v nodes).getBlockVersion b' =
      if b' = b then some v else r.getBlockVersion b' :=
  Dict.get?_set

end PlacementRegistry

/-! ## Inventories -/

/-- Source: `metadata/node_inventory.py`, `NodeInventory`. -/
@[ext]
structure NodeInventory where
  inventory : Dict String (Finset String)
deriving DecidableEq

namespace NodeInventory

/-- An index without nodes. -/
def empty : NodeInventory := ⟨Dict.empty⟩

/-- Source: `metadata/node_inventory.py`, `get_inventory`. -/
def getInventory (i : NodeInventory) (nodeId : String) : Finset String :=
  (i.inventory.get? nodeId).getD ∅

/-- Source: `metadata/node_inventory.py`, `register_inventory`. -/
def registerInventory (i : NodeInventory) (nodeId : String) (blockIds : Finset String) :
    NodeInventory :=
  ⟨i.inventory.set nodeId blockIds⟩

/-- Source: `metadata/node_inventory.py`, `add_block`. -/
def addBlock (i : NodeInventory) (nodeId blockId : String) : NodeInventory :=
  ⟨i.inventory.set nodeId (insert blockId (i.getInventory nodeId))⟩

/-- Source: `metadata/node_inventory.py`, `remove_block`. -/
def removeBlock (i : NodeInventory) (nodeId blockId : String) : NodeInventory :=
  match i.inventory.get? nodeId with
  | none => i
  | some blocks =>
      let updated := blocks.erase blockId
      if updated = ∅ then ⟨i.inventory.erase nodeId⟩ else ⟨i.inventory.set nodeId updated⟩

/-- Source: `metadata/node_inventory.py`, `rebuild_from_placements`. -/
def rebuildFromPlacements (placements : Dict String (List String)) : NodeInventory :=
  placements.entries.foldl
    (fun i item => item.2.foldl (fun i nodeId => i.addBlock nodeId item.1) i) empty

@[simp] theorem getInventory_empty (n : String) : empty.getInventory n = ∅ := rfl

theorem getInventory_registerInventory (i : NodeInventory) (n n' : String) (bs : Finset String) :
    (i.registerInventory n bs).getInventory n' = if n' = n then bs else i.getInventory n' := by
  unfold getInventory registerInventory
  rw [Dict.get?_set]
  split <;> rfl

theorem getInventory_addBlock (i : NodeInventory) (n n' b : String) :
    (i.addBlock n b).getInventory n' =
      if n' = n then insert b (i.getInventory n') else i.getInventory n' := by
  unfold addBlock
  by_cases hn : n' = n
  · subst hn
    simp [getInventory]
  · simp [getInventory, Dict.get?_set_of_ne hn, hn]

theorem getInventory_removeBlock (i : NodeInventory) (n n' b : String) :
    (i.removeBlock n b).getInventory n' =
      if n' = n then (i.getInventory n').erase b else i.getInventory n' := by
  unfold removeBlock
  by_cases hn : n' = n
  · subst hn
    rcases h : i.inventory.get? n' with _ | blocks
    · simp [getInventory, h]
    · by_cases hempty : blocks.erase b = ∅
      · simp [getInventory, h, hempty, Dict.get?_erase]
      · simp [getInventory, h, hempty]
  · rcases h : i.inventory.get? n with _ | blocks
    · simp [hn]
    · by_cases hempty : blocks.erase b = ∅
      · simp [getInventory, hempty, Dict.get?_erase, hn]
      · simp [getInventory, hempty, Dict.get?_set_of_ne hn, hn]

theorem mem_foldl_addBlock (nodes : List String) (i : NodeInventory) (b b' n : String) :
    b' ∈ (nodes.foldl (fun i n => i.addBlock n b) i).getInventory n ↔
      b' ∈ i.getInventory n ∨ (b' = b ∧ n ∈ nodes) := by
  induction nodes generalizing i with
  | nil => simp
  | cons m nodes ih =>
      rw [List.foldl_cons, ih, getInventory_addBlock, List.mem_cons]
      by_cases hm : n = m
      · simp only [hm, if_true, Finset.mem_insert, true_or, and_true]
        tauto
      · simp only [hm, if_false, false_or]

theorem mem_foldl_removeBlock (nodes : List String) (i : NodeInventory) (b b' n : String) :
    b' ∈ (nodes.foldl (fun i n => i.removeBlock n b) i).getInventory n ↔
      b' ∈ i.getInventory n ∧ ¬ (b' = b ∧ n ∈ nodes) := by
  induction nodes generalizing i with
  | nil => simp
  | cons m nodes ih =>
      rw [List.foldl_cons, ih, getInventory_removeBlock, List.mem_cons]
      by_cases hm : n = m
      · simp only [hm, if_true, Finset.mem_erase, true_or, and_true]
        tauto
      · simp only [hm, if_false, false_or]

/-- A rebuilt inventory lists the blocks placed on its node. -/
theorem mem_getInventory_rebuildFromPlacements (placements : Dict String (List String))
    (n b : String) : b ∈ (rebuildFromPlacements placements).getInventory n ↔
      ∃ nodes, placements.get? b = some nodes ∧ n ∈ nodes := by
  have hloop : ∀ (l : List (String × List String)) (i : NodeInventory),
      b ∈ (l.foldl (fun i item => item.2.foldl (fun i nodeId => i.addBlock nodeId item.1) i)
          i).getInventory n ↔
        b ∈ i.getInventory n ∨ ∃ nodes, (b, nodes) ∈ l ∧ n ∈ nodes := by
    intro l
    induction l with
    | nil => simp
    | cons item l ih =>
        intro i
        rw [List.foldl_cons, ih, mem_foldl_addBlock, or_assoc]
        apply or_congr_right
        constructor
        · rintro (⟨rfl, hn⟩ | ⟨nodes, hmem, hn⟩)
          · exact ⟨item.2, List.mem_cons_self, hn⟩
          · exact ⟨nodes, List.mem_cons_of_mem _ hmem, hn⟩
        · rintro ⟨nodes, hmem, hn⟩
          rcases List.mem_cons.mp hmem with heq | hmem
          · exact Or.inl ⟨congrArg Prod.fst heq, congrArg Prod.snd heq ▸ hn⟩
          · exact Or.inr ⟨nodes, hmem, hn⟩
  unfold rebuildFromPlacements
  rw [hloop]
  simp only [getInventory_empty, Finset.notMem_empty, false_or, Dict.mem_entries]

end NodeInventory

/-! ## The durable store -/

/-- What a SQLite store raises. -/
inductive StoreError
  /-- An `IntegrityError`: a key twice in one table. -/
  | integrity
  /-- An `OverflowError`: an integer that `sqlite3` cannot bind. -/
  | overflow
deriving DecidableEq, Repr

/-- What a heartbeat reports of a node's disk. -/
structure NodeStats where
  blockCount : ℤ
  usedBytes : ℤ
  lastLsn : ℤ
deriving DecidableEq, Repr

/-- A row of `nodes`. -/
structure NodeRow where
  status : String
  lastSeen : ℤ
  stats : NodeStats
deriving DecidableEq, Repr

/-- A row of `blocks` with the rows of `placements` that refer to it. -/
structure BlockRow where
  version : ℤ
  nodes : Finset String
deriving DecidableEq

/-- Source: `metadata/metadata_store.py`, `MetadataStore`. -/
@[ext]
structure MetadataStore where
  nodes : Dict String NodeRow
  blocks : Dict String BlockRow
deriving DecidableEq

namespace MetadataStore

/-- The store of an empty database. -/
def empty : MetadataStore := ⟨Dict.empty, Dict.empty⟩

/-- `upsert_node` with the status `"UP"`, and `update_node_stats` where there are `stats`.
Source: `metadata/metadata_store.py`, `upsert_node`, `update_node_stats`. -/
def upsertNode (s : MetadataStore) (nodeId : String) (lastSeen : ℤ) (stats : Option NodeStats) :
    Except StoreError MetadataStore :=
  let old := ((s.nodes.get? nodeId).map NodeRow.stats).getD ⟨0, 0, 0⟩
  let new := stats.getD old
  if Bindable lastSeen ∧ Bindable new.blockCount ∧ Bindable new.usedBytes ∧ Bindable new.lastLsn then
    .ok { s with nodes := s.nodes.set nodeId ⟨"UP", lastSeen, new⟩ }
  else .error .overflow

/-- The transaction fails on a node that is listed twice and then changes nothing.
Source: `metadata/metadata_store.py`, `save_placement`. -/
def savePlacement (s : MetadataStore) (blockId : String) (version : ℤ) (nodes : List String) :
    Except StoreError MetadataStore :=
  if ¬ Bindable version then .error .overflow
  else if ¬ nodes.Nodup then .error .integrity
  else .ok { s with blocks := s.blocks.set blockId ⟨version, nodes.toFinset⟩ }

/-- The store without a block, and whether it had it.
Source: `metadata/metadata_store.py`, `delete_block`. -/
def deleteBlock (s : MetadataStore) (blockId : String) : MetadataStore × Bool :=
  ({ s with blocks := s.blocks.erase blockId }, s.blocks.contains blockId)

/-- The placements and versions that the store holds, and the number of its blocks. A block without
nodes has no placement row.
Source: `metadata/metadata_store.py`, `load_recovery_snapshot`. -/
def loadRecoverySnapshot (s : MetadataStore) : Dict String (List String) × Dict String ℤ × ℕ :=
  (((s.blocks.entries.filter fun item => item.2.nodes ≠ ∅).insertionSort
      fun item item' => item.1 ≤ item'.1).foldl
      (fun placements item => placements.set item.1 (item.2.nodes.sort (· ≤ ·))) Dict.empty,
    s.blocks.mapVals fun _ row => row.version,
    s.blocks.entries.length)

theorem savePlacement_of_fits {s : MetadataStore} {b : String} {v : ℤ} {nodes : List String}
    (hv : Bindable v) (hn : nodes.Nodup) : s.savePlacement b v nodes =
      .ok { s with blocks := s.blocks.set b ⟨v, nodes.toFinset⟩ } := by
  unfold savePlacement
  rw [if_neg (not_not.mpr hv), if_neg (not_not.mpr hn)]

theorem savePlacement_of_not_fits {s : MetadataStore} {b : String} {v : ℤ} {nodes : List String}
    (h : ¬ (Bindable v ∧ nodes.Nodup)) : ∃ e, s.savePlacement b v nodes = .error e := by
  unfold savePlacement
  by_cases hv : Bindable v
  · rw [if_neg (not_not.mpr hv), if_pos fun hn => h ⟨hv, hn⟩]
    exact ⟨_, rfl⟩
  · rw [if_pos hv]
    exact ⟨_, rfl⟩

/-- A recovery reads a block's placement from the rows that it has. -/
theorem get?_loadRecoverySnapshot (s : MetadataStore) (b : String) (nodes : List String) :
    s.loadRecoverySnapshot.1.get? b = some nodes ↔
      ∃ row, s.blocks.get? b = some row ∧ row.nodes ≠ ∅ ∧ row.nodes.sort (· ≤ ·) = nodes := by
  have hperm := List.perm_insertionSort (fun item item' : String × BlockRow => item.1 ≤ item'.1)
    (s.blocks.entries.filter fun item => item.2.nodes ≠ ∅)
  have hnodup : ((s.blocks.entries.filter fun item => item.2.nodes ≠ ∅).map Prod.fst).Nodup :=
    s.blocks.nodup.sublist (List.filter_sublist.map _)
  unfold loadRecoverySnapshot
  rw [Dict.foldl_set_get?_eq_some Prod.fst
    (fun item : String × BlockRow => item.2.nodes.sort (· ≤ ·)) _
    ((hperm.map Prod.fst).nodup_iff.mpr hnodup)]
  constructor
  · rintro (⟨⟨b', row⟩, hmem, rfl, rfl⟩ | ⟨-, hnone⟩)
    · obtain ⟨hmem, hne⟩ := List.mem_filter.mp (hperm.mem_iff.mp hmem)
      exact ⟨row, Dict.mem_entries.mp hmem, of_decide_eq_true hne, rfl⟩
    · cases hnone
  · rintro ⟨row, hget, hne, rfl⟩
    refine Or.inl ⟨(b, row), hperm.mem_iff.mpr (List.mem_filter.mpr ⟨?_, ?_⟩), rfl, rfl⟩
    · exact Dict.mem_entries.mpr hget
    · exact decide_eq_true hne

end MetadataStore

/-! ## Alerts -/

/-- Source: `metadata/raft/alert_store.py`, the record of `add_alert`. -/
structure Alert where
  id : String
  severity : String
  node : String
  description : String
  time : ℤ
  status : String
deriving DecidableEq, Repr

/-- The alerts, each under its own id.
Source: `metadata/raft/alert_store.py`, `AlertStore`. -/
abbrev AlertStore := Table fun (id : String) (alert : Alert) => alert.id = id

namespace AlertStore

/-- An alert without an id, or with an empty one, gets a fresh one.
Source: `metadata/raft/alert_store.py`, `add_alert`. -/
def addAlert (s : AlertStore) (severity node description : String) (alertId : Option String)
    (uuid : String) (now : ℤ) : AlertStore :=
  let aid := (alertId.filter (· ≠ "")).getD uuid
  Table.set s aid ⟨aid, severity, node, description, now, "active"⟩ rfl

/-- Source: `metadata/raft/alert_store.py`, `list_alerts`, `to_snapshot`. -/
def toSnapshot (s : AlertStore) : List Alert := s.rows.values

/-- Source: `metadata/raft/alert_store.py`, `load_snapshot`. -/
def loadSnapshot (alerts : List Alert) : AlertStore := Table.ofList Alert.id (fun _ => rfl) alerts

theorem loadSnapshot_toSnapshot (s : AlertStore) : loadSnapshot s.toSnapshot = s :=
  Table.ofList_values Alert.id (fun _ => rfl) (fun _ _ h => h) s

end AlertStore

/-! ## Repair jobs -/

/-- Source: `cluster/repair_models.py`, `RepairType`. -/
inductive RepairType
  | reReplication
  | readRepair
  | antiEntropy
  | nodeRecovery
  | orphanCleanup
deriving DecidableEq, Repr

/-- Source: `cluster/repair_models.py`, `RepairStatus`. -/
inductive RepairStatus
  | pending
  | copying
  | verifying
  | completed
  | failed
  | cancelled
deriving DecidableEq, Repr

/-- Source: `cluster/repair_models.py`, `RepairJob`. -/
structure RepairJob where
  jobId : String
  blockId : String
  sourceNode : String
  targetNode : String
  version : ℤ
  repairType : RepairType
  status : RepairStatus
  attemptCount : ℤ
  lastError : Option String
  createdAt : ℤ
  updatedAt : ℤ
  completedAt : Option ℤ
deriving DecidableEq, Repr

/-- A job that can be a row. -/
def RepairJob.Storable (job : RepairJob) : Prop :=
  Bindable job.version ∧ Bindable job.attemptCount ∧ Bindable job.createdAt ∧
    Bindable job.updatedAt ∧ ∀ t ∈ job.completedAt, Bindable t

instance (job : RepairJob) : Decidable job.Storable :=
  inferInstanceAs (Decidable (_ ∧ _ ∧ _ ∧ _ ∧ _))

/-- The rows of `repair_jobs`.
Source: `cluster/repair_job_store.py`, `RepairJobStore`. -/
abbrev RepairJobStore :=
  Table fun (jobId : String) (job : RepairJob) => job.jobId = jobId ∧ job.Storable

namespace RepairJobStore

/-- Source: `cluster/repair_job_store.py`, `get_job`. -/
def getJob (s : RepairJobStore) (jobId : String) : Option RepairJob := s.rows.get? jobId

/-- Source: `cluster/repair_job_store.py`, `upsert_job`. -/
def upsertJob (s : RepairJobStore) (job : RepairJob) : Except StoreError RepairJobStore :=
  if h : job.Storable then .ok (Table.set s job.jobId job ⟨rfl, h⟩) else .error .overflow

/-- Source: `cluster/repair_job_store.py`, `delete_job`. -/
def deleteJob (s : RepairJobStore) (jobId : String) : RepairJobStore := Table.erase s jobId

/-- Source: `cluster/repair_job_store.py`, `list_all_jobs`. -/
def listAllJobs (s : RepairJobStore) : List RepairJob :=
  s.rows.values.insertionSort fun job job' => job'.createdAt ≤ job.createdAt

theorem mem_listAllJobs {s : RepairJobStore} {job : RepairJob} :
    job ∈ s.listAllJobs ↔ s.getJob job.jobId = some job := by
  unfold listAllJobs getJob
  rw [List.mem_insertionSort, Dict.mem_values]
  constructor
  · rintro ⟨k, hk⟩
    rwa [(s.checked k job hk).1]
  · intro h
    exact ⟨job.jobId, h⟩

theorem nodup_jobIds_listAllJobs (s : RepairJobStore) :
    (s.listAllJobs.map RepairJob.jobId).Nodup := by
  have hkeys : s.rows.values.map RepairJob.jobId = s.rows.keys := by
    unfold Dict.values Dict.keys
    rw [List.map_map]
    apply List.map_congr_left
    rintro ⟨k, job⟩ hmem
    exact (s.checked k job (Dict.mem_entries.mp hmem)).1
  unfold listAllJobs
  rw [((List.perm_insertionSort _ _).map _).nodup_iff, hkeys]
  exact s.rows.nodup_keys

end RepairJobStore

end NanoFabric.Metadata
