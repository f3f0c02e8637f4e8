import NanoFabric.Found.Window
import NanoFabric.Metadata.Stores

/-!
# Placements and the placement service

The placement registry, the inverse index and the durable store are shared by the Raft state machine
and the placement service of a metadata node; `Placement` is the three of them, and each operation
here is one of the sequences of calls that the source makes on them.

* `Placement.allocate`, `Placement.update` — the effects of `ALLOCATE_BLOCK` and `UPDATE_PLACEMENT`.
* `Placement.recover` — what a restart reads back from the store.
* `RoundRobinPlacementPolicy.selectNodes` — the choice of nodes, distinct by `selectNodes_nodup`.
-/

namespace NanoFabric.Metadata

open NanoFabric.Found
open NanoFabric.Node (Bindable)

/-! ## The placement policy -/

/-- Source: `metadata/placement_policy.py`, `RoundRobinPlacementPolicy`. -/
structure RoundRobinPlacementPolicy where
  counter : ℤ
deriving DecidableEq

namespace RoundRobinPlacementPolicy

/-- The nodes chosen and the policy after it, where an error is a `ValueError`.
Source: `metadata/placement_policy.py`, `select_nodes`. -/
def selectNodes (p : RoundRobinPlacementPolicy) (availableNodes : List String)
    (replicationFactor : ℕ) : Except String (List String × RoundRobinPlacementPolicy) :=
  if availableNodes = [] then .error "No available nodes for placement"
  else if replicationFactor < 1 then .error "replication_factor must be at least 1"
  else if availableNodes.length < replicationFactor then
    .error ("replication_factor (" ++ toString replicationFactor ++ ") exceeds available nodes (" ++
      toString availableNodes.length ++ ")")
  else
    let sortedNodes := availableNodes.insertionSort (· ≤ ·)
    let start := (p.counter % sortedNodes.length).toNat
    .ok ((List.range replicationFactor).filterMap fun offset =>
        sortedNodes[(start + offset) % sortedNodes.length]?, ⟨p.counter + 1⟩)

variable {p p' : RoundRobinPlacementPolicy} {available nodes : List String} {rf : ℕ}

/-- What is selected is a window of the sorted nodes. -/
theorem selectNodes_eq_ok (h : p.selectNodes available rf = .ok (nodes, p')) :
    rf ≤ available.length ∧ nodes = window (available.insertionSort (· ≤ ·))
      (p.counter % available.length).toNat rf := by
  unfold selectNodes at h
  split_ifs at h with hempty hrf hlen
  simp only [List.length_insertionSort, Except.ok.injEq, Prod.mk.injEq] at h
  refine ⟨not_lt.mp hlen, h.1.symm.trans ?_⟩
  unfold window
  rw [List.length_insertionSort]

theorem mem_of_mem_selectNodes (h : p.selectNodes available rf = .ok (nodes, p')) {n : String}
    (hn : n ∈ nodes) : n ∈ available := by
  obtain ⟨-, rfl⟩ := selectNodes_eq_ok h
  exact (List.mem_insertionSort _).mp (mem_of_mem_window hn)

/-- Distinct nodes give a selection of distinct nodes. -/
theorem selectNodes_nodup (hav : available.Nodup)
    (h : p.selectNodes available rf = .ok (nodes, p')) : nodes.Nodup := by
  obtain ⟨hlen, rfl⟩ := selectNodes_eq_ok h
  have hsorted : (available.insertionSort (· ≤ ·)).Nodup :=
    (List.perm_insertionSort _ _).nodup_iff.mpr hav
  exact window_nodup hsorted (by rw [List.length_insertionSort]; exact hlen) _

end RoundRobinPlacementPolicy

/-! ## Placements -/

/-- The objects that hold placements. -/
@[ext]
structure Placement where
  registry : PlacementRegistry
  inventory : NodeInventory
  store : MetadataStore
deriving DecidableEq

namespace Placement

/-- The objects of a node with an empty database. -/
def empty : Placement := ⟨.empty, .empty, .empty⟩

/-- Source: `metadata/raft/state_machine.py`, `_apply_allocate`. -/
def allocate (p : Placement) (blockId : String) (version : ℤ) (nodes : List String) :
    Except StoreError Placement :=
  (p.store.savePlacement blockId version nodes).map fun store =>
    ⟨p.registry.registerBlock blockId version nodes,
      nodes.foldl (fun i nodeId => i.addBlock nodeId blockId) p.inventory, store⟩

/-- Source: `metadata/raft/state_machine.py`, `_apply_placement`. -/
def update (p : Placement) (blockId : String) (version : ℤ) (nodes : List String) :
    Except StoreError Placement :=
  let old := (p.registry.getBlockLocations blockId).getD []
  (p.store.savePlacement blockId version nodes).map fun store =>
    ⟨p.registry.registerBlock blockId version nodes,
      (nodes.filter (· ∉ old)).foldl (fun i nodeId => i.addBlock nodeId blockId)
        ((old.filter (· ∉ nodes)).foldl (fun i nodeId => i.removeBlock nodeId blockId) p.inventory),
      store⟩

/-- What a restart finds: the placements of the store, and an index rebuilt from them.
Source: `metadata/placement_service.py`, `recover`. -/
def recover (store : MetadataStore) : Placement :=
  let (placements, versions, _) := store.loadRecoverySnapshot
  ⟨.loadFromSnapshot placements versions, .rebuildFromPlacements placements, store⟩

/-! ### The placement service -/

/-- What the placement service raises. -/
inductive ServiceError
  /-- A `KeyError`. -/
  | key (message : String)
  | store (e : StoreError)
deriving DecidableEq, Repr

/-- The `KeyError` of a block without a placement. -/
def blockNotFound (blockId : String) : ServiceError := .key ("Block '" ++ blockId ++ "' not found")

/-- Source: `metadata/placement_service.py`, `update_block_placement`. -/
def updateBlockPlacement (p : Placement) (blockId : String) (nodes : List String) (version : ℤ) :
    Except ServiceError Placement :=
  if p.registry.blockExists blockId then (p.update blockId version nodes).mapError .store
  else .error (blockNotFound blockId)

/-- The nodes of a block when `newNode` takes the place of `oldNode`. -/
def replaced (locations : List String) (oldNode newNode : String) : List String :=
  if oldNode ∉ locations ∧ newNode ∉ locations then locations ++ [newNode]
  else locations.map fun n => if n = oldNode then newNode else n

/-- Source: `metadata/placement_service.py`, `replace_replica`. -/
def replaceReplica (p : Placement) (blockId oldNode newNode : String) (version : ℤ) :
    Except ServiceError Placement :=
  match p.registry.getBlockLocations blockId with
  | none => .error (blockNotFound blockId)
  | some locations => p.updateBlockPlacement blockId (replaced locations oldNode newNode) version

/-- Source: `metadata/placement_service.py`, `remove_extra_replica`. -/
def removeExtraReplica (p : Placement) (blockId extraNode : String) (version : ℤ) :
    Except ServiceError Placement :=
  match p.registry.getBlockLocations blockId with
  | none => .error (blockNotFound blockId)
  | some locations =>
      let newLocations := locations.filter (· ≠ extraNode)
      if newLocations.length = locations.length then .ok p
      else p.updateBlockPlacement blockId newLocations version

/-- Source: `metadata/placement_service.py`, `rebuild_node_inventory`. -/
def rebuildNodeInventory (p : Placement) (nodeId : String) (blockIds : List String) : Placement :=
  { p with inventory := p.inventory.registerInventory nodeId blockIds.toFinset }

/-- The placement callback of a restore; it leaves the inventories alone.
Source: `storage/cluster_bridge.py`, `make_placement_restore`. -/
def restorePlacement (p : Placement) (blockId : String) (version : ℤ) (nodes : List String) :
    Except ServiceError Placement :=
  (((p.store.savePlacement blockId version nodes).map fun store =>
    { p with store := store, registry := p.registry.registerBlock blockId version nodes }).mapError
      .store)

/-- Whether the store takes a placement. -/
def Fits (version : ℤ) (nodes : List String) : Prop := Bindable version ∧ nodes.Nodup

instance (version : ℤ) (nodes : List String) : Decidable (Fits version nodes) :=
  inferInstanceAs (Decidable (_ ∧ _))

variable {p p' : Placement} {b : String} {v : ℤ} {nodes : List String}

theorem allocate_of_fits (h : Fits v nodes) : p.allocate b v nodes =
    .ok ⟨p.registry.registerBlock b v nodes,
      nodes.foldl (fun i nodeId => i.addBlock nodeId b) p.inventory,
      { p.store with blocks := p.store.blocks.set b ⟨v, nodes.toFinset⟩ }⟩ := by
  unfold allocate
  rw [MetadataStore.savePlacement_of_fits h.1 h.2]
  rfl

theorem allocate_of_not_fits (h : ¬ Fits v nodes) : ∃ e, p.allocate b v nodes = .error e := by
  obtain ⟨e, he⟩ := MetadataStore.savePlacement_of_not_fits (s := p.store) (b := b) h
  exact ⟨e, by unfold allocate; rw [he]; rfl⟩

theorem update_of_fits (h : Fits v nodes) : p.update b v nodes =
    .ok ⟨p.registry.registerBlock b v nodes,
      (nodes.filter (· ∉ (p.registry.getBlockLocations b).getD [])).foldl
        (fun i nodeId => i.addBlock nodeId b)
        ((((p.registry.getBlockLocations b).getD []).filter (· ∉ nodes)).foldl
          (fun i nodeId => i.removeBlock nodeId b) p.inventory),
      { p.store with blocks := p.store.blocks.set b ⟨v, nodes.toFinset⟩ }⟩ := by
  unfold update
  rw [MetadataStore.savePlacement_of_fits h.1 h.2]
  rfl

theorem update_of_not_fits (h : ¬ Fits v nodes) : ∃ e, p.update b v nodes = .error e := by
  obtain ⟨e, he⟩ := MetadataStore.savePlacement_of_not_fits (s := p.store) (b := b) h
  exact ⟨e, by unfold update; rw [he]; rfl⟩

/-- A placement is updated when the block has one and the store takes the new one. -/
theorem updateBlockPlacement_of_fits (hb : p.registry.blockExists b = true) (h : Fits v nodes) :
    ∃ p', p.updateBlockPlacement b nodes v = .ok p' ∧
      p'.registry = p.registry.registerBlock b v nodes := by
  unfold updateBlockPlacement
  rw [if_pos hb, update_of_fits h]
  exact ⟨_, rfl, rfl⟩

theorem updateBlockPlacement_of_not_fits (h : ¬ Fits v nodes) :
    ∃ e, p.updateBlockPlacement b nodes v = .error e := by
  unfold updateBlockPlacement
  split
  · obtain ⟨e, he⟩ := update_of_not_fits (p := p) (b := b) h
    exact ⟨.store e, by rw [he]; rfl⟩
  · exact ⟨_, rfl⟩

theorem blockExists_of_getBlockLocations {locations : List String}
    (h : p.registry.getBlockLocations b = some locations) : p.registry.blockExists b = true := by
  unfold PlacementRegistry.blockExists Dict.contains
  unfold PlacementRegistry.getBlockLocations at h
  rw [h]
  rfl

theorem replaceReplica_of_none {oldNode newNode : String}
    (h : p.registry.getBlockLocations b = none) :
    p.replaceReplica b oldNode newNode v = .error (blockNotFound b) := by
  unfold replaceReplica
  rw [h]

theorem replaceReplica_of_some {oldNode newNode : String} {locations : List String}
    (h : p.registry.getBlockLocations b = some locations) :
    p.replaceReplica b oldNode newNode v =
      p.updateBlockPlacement b (replaced locations oldNode newNode) v := by
  unfold replaceReplica
  rw [h]

theorem removeExtraReplica_of_none {extraNode : String}
    (h : p.registry.getBlockLocations b = none) :
    p.removeExtraReplica b extraNode v = .error (blockNotFound b) := by
  unfold removeExtraReplica
  rw [h]

theorem removeExtraReplica_of_notMem {extraNode : String} {locations : List String}
    (h : p.registry.getBlockLocations b = some locations) (hextra : extraNode ∉ locations) :
    p.removeExtraReplica b extraNode v = .ok p := by
  have hself : locations.filter (· ≠ extraNode) = locations := by
    rw [List.filter_eq_self]
    intro n hn
    have : n ≠ extraNode := fun heq => hextra (heq ▸ hn)
    simpa using this
  unfold removeExtraReplica
  rw [h]
  simp only [hself, if_true]

theorem removeExtraReplica_of_mem {extraNode : String} {locations : List String}
    (h : p.registry.getBlockLocations b = some locations) (hextra : extraNode ∈ locations) :
    p.removeExtraReplica b extraNode v =
      p.updateBlockPlacement b (locations.filter (· ≠ extraNode)) v := by
  have hlt : (locations.filter (· ≠ extraNode)).length < locations.length := by
    rw [List.length_filter_lt_length_iff_exists]
    exact ⟨extraNode, hextra, by simp⟩
  unfold removeExtraReplica
  rw [h]
  simp only [hlt.ne, if_false]

end Placement

end NanoFabric.Metadata
