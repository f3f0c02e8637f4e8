import NanoFabric.Metadata.PlacementService
import NanoFabric.Node.BlockUrls
import NanoFabric.Storage.EngineAdapter

/-!
# Reading blocks from a cluster

The reading side of `ClusterBlockBridge` of `storage/cluster_bridge.py` over the nodes of a cluster,
through `NodeClient` of `cluster/node_client.py`. Each call goes out while some nodes do not answer.

* `Cluster.mem_live` — a block is live when a node of its placement has a live row.
* `Cluster.live_of_readBlock` — no tombstone is read.
-/

namespace NanoFabric.Storage

open NanoFabric.Found
open NanoFabric.Metadata (MembershipRegistry Placement)
open NanoFabric.Node (Urls)

/-- The nodes of a cluster, what the metadata service knows of them, and where the URLs of its
requests lead. -/
structure Cluster where
  membership : MembershipRegistry
  placement : Placement
  nodes : String → LocalEngine
  urls : Urls

namespace Cluster

/-- The address of a node, unless it is unknown or empty.
Source: `cluster/node_client.py`, `resolve_url`. -/
def address (c : Cluster) (nodeId : String) : Option String :=
  ((c.membership.nodes.get? nodeId).map fun record => record.address).filter (· ≠ "")

/-- Whether a request reaches a node. -/
def reaches (c : Cluster) (silent : List String) (nodeId : String) : Bool :=
  (c.address nodeId).any c.urls.takes && nodeId ∉ silent

/-- What the bridge makes of the answer of a node, where `none` is any exception: it catches all.
Source: `storage/cluster_bridge.py`, `read_block`; `cluster/node_client.py`, `read_block`;
`node/api_server.py`, `read_block`. -/
def nodeRead (c : Cluster) (silent : List String) (nodeId blockId : String) :
    Cluster × Option (Option BlockView) :=
  if c.reaches silent nodeId then
    match c.urls.read blockId with
    | .block blockId =>
        let (node, view) := (c.nodes nodeId).readBlock blockId
        ({ c with nodes := Function.update c.nodes nodeId node }, some view)
    | .notFound => (c, some none)
    | .elsewhere => (c, some (some ⟨"", 1, false⟩))
    | .refused => (c, none)
    | .invalid => (c, none)
  else (c, none)

/-- Source: `storage/cluster_bridge.py`, `ClusterBlockBridge.list_blocks`. -/
def listBlocks (c : Cluster) : List String := c.placement.registry.blocks.keys.insertionSort (· ≤ ·)

/-- The nodes are asked one after the other until one has the block. -/
def readFrom (silent : List String) (blockId : String) :
    List String → Cluster → Cluster × Option BlockView
  | [], c => (c, none)
  | nodeId :: nodes, c =>
      match c.nodeRead silent nodeId blockId with
      | (c', some (some view)) => (c', some view)
      | (c', _) => readFrom silent blockId nodes c'

/-- Source: `storage/cluster_bridge.py`, `ClusterBlockBridge.read_block`. -/
def readBlock (c : Cluster) (silent : List String) (blockId : String) : Cluster × Option BlockView :=
  readFrom silent blockId ((c.placement.registry.getBlockLocations blockId).getD []) c

/-- The blocks of which some node of the placement has a live copy. -/
def live (c : Cluster) : List String :=
  (c.placement.registry.blocks.entries.filter fun item =>
    item.2.any fun nodeId => ((c.nodes nodeId).liveRow item.1).isSome).map Prod.fst

/-- A block is live when a node of its placement has a live row. -/
theorem mem_live {c : Cluster} {b : String} : b ∈ c.live ↔
    ∃ nodes, c.placement.registry.getBlockLocations b = some nodes ∧
      ∃ n ∈ nodes, ∃ row, (c.nodes n).liveRow b = some row := by
  unfold live
  rw [List.mem_map]
  constructor
  · rintro ⟨⟨b', nodes⟩, hmem, rfl⟩
    obtain ⟨hmem, hany⟩ := List.mem_filter.mp hmem
    obtain ⟨n, hn, hrow⟩ := List.any_eq_true.mp hany
    exact ⟨nodes, Dict.mem_entries.mp hmem, n, hn, Option.isSome_iff_exists.mp hrow⟩
  · rintro ⟨nodes, hnodes, n, hn, hrow⟩
    refine ⟨(b, nodes), List.mem_filter.mpr ⟨Dict.mem_entries.mpr hnodes, ?_⟩, rfl⟩
    exact List.any_eq_true.mpr ⟨n, hn, Option.isSome_iff_exists.mpr hrow⟩

theorem nodup_listBlocks (c : Cluster) : c.listBlocks.Nodup := by
  unfold listBlocks
  rw [(List.perm_insertionSort _ _).nodup_iff]
  exact c.placement.registry.blocks.nodup_keys

/-- No node answers with a tombstone. -/
theorem live_of_nodeRead {silent : List String} {c c' : Cluster} {n b : String} {view : BlockView}
    (h : c.nodeRead silent n b = (c', some (some view))) : view.deleted = false := by
  unfold nodeRead at h
  split at h
  · split at h
    all_goals simp only [Prod.mk.injEq, Option.some.injEq, reduceCtorEq, and_false] at h
    · exact LocalEngine.live_of_readBlock h.2
    · exact h.2 ▸ rfl
  · cases (Prod.mk.inj h).2

/-- No tombstone is read. -/
theorem live_of_readFrom {silent nodes : List String} {c : Cluster} {b : String} {view : BlockView}
    (h : (readFrom silent b nodes c).2 = some view) : view.deleted = false := by
  induction nodes generalizing c with
  | nil => cases h
  | cons n nodes ih =>
      unfold readFrom at h
      split at h
      · rename_i c' view' hread
        obtain rfl := Option.some.inj h
        exact live_of_nodeRead hread
      · exact ih h

/-- Snapshots of the blocks of a cluster, which may change in any way.
Source: `storage/cluster_bridge.py`, `ClusterBlockBridge`. -/
def bridge : Wiring Cluster (List String) Cluster where
  listBlocks := listBlocks
  readBlock := readBlock
  live := live
  change _ c := c
  nodup_listBlocks := nodup_listBlocks
  live_of_readBlock _ _ _ _ h := live_of_readFrom h

end Cluster

end NanoFabric.Storage
