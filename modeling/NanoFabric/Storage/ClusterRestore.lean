import NanoFabric.Storage.ReplicaEndpoint
import NanoFabric.Storage.RestoreService
import NanoFabric.Storage.SnapshotCompleteness

/-!
# Restoring a cluster

The writing side of `ClusterBlockBridge` of `storage/cluster_bridge.py` over the endpoints that it
posts to. No request of the bridge passes: a write carries the LSN `0`, and a delete neither an LSN
nor an origin.

* `replicate_bridge`, `replicateDelete_bridge` — a node rejects every request of a restore.
* `apply_restoring` — so a restore changes no node.
* `restored_iff` — a restore that ends `COMPLETED` left what it reports just when the nodes held it
  before.
* `restored_counterexample` — a write after the snapshot stays.
-/

namespace NanoFabric.Storage

open NanoFabric.Found
open NanoFabric.Node (EngineOp Row StorageError)

/-- The data of a block that is live. -/
def LocalEngine.liveData (e : LocalEngine) (blockId : String) : Option String :=
  (e.liveRow blockId).bind Row.data

/-! ## The bridge -/

namespace Cluster

/-- The body of a write.
Source: `storage/cluster_bridge.py`, `_replicate_to_nodes`. -/
def writeBody (blockId data : String) (version : ℤ) (nodeId : String) : RequestBody :=
  ⟨blockId, some data, version, some 0, some nodeId⟩

/-- The body of a delete.
Source: `storage/cluster_bridge.py`, `_replicate_to_nodes`. -/
def deleteBody (blockId : String) (version : ℤ) : RequestBody := ⟨blockId, none, version, none, none⟩

/-- A node rejects a write of the bridge. -/
theorem replicate_bridge (e : LocalEngine) (blockId data : String) (version : ℤ) (nodeId : String) :
    e.replicate (writeBody blockId data version nodeId) = (e, 422) := by
  have hnone : ReplicateRequest.validate (writeBody blockId data version nodeId) = none := by
    unfold ReplicateRequest.validate ReplicateDeleteRequest.validate writeBody
    simp
  unfold LocalEngine.replicate
  rw [hnone]

/-- A node rejects a delete of the bridge. -/
theorem replicateDelete_bridge (e : LocalEngine) (blockId : String) (version : ℤ) :
    e.replicateDelete (deleteBody blockId version) = (e, 422) := by
  have hnone : ReplicateDeleteRequest.validate (deleteBody blockId version) = none := rfl
  unfold LocalEngine.replicateDelete
  rw [hnone]

/-- The request goes to a node; what comes back, an error or none, is dropped.
Source: `storage/cluster_bridge.py`, `_replicate_to_nodes`. -/
def post (c : Cluster) (silent : List String) (nodeId blockId : String) (data : Option String)
    (version : ℤ) : Cluster :=
  if nodeId ∈ silent then c
  else
    let node := match data with
      | some data => ((c.nodes nodeId).replicate (writeBody blockId data version nodeId)).1
      | none => ((c.nodes nodeId).replicateDelete (deleteBody blockId version)).1
    { c with nodes := Function.update c.nodes nodeId node }

/-- A write, or a delete if there is no data, at the nodes of the placement. A node raises that has
no address, or one that the HTTP client does not take.
Source: `storage/cluster_bridge.py`, `_replicate_to_nodes`. -/
def replicateToNodes (silent : List String) (blockId : String) (data : Option String)
    (version : ℤ) : Call Cluster := fun c =>
  let placed := (c.placement.registry.blocks.get? blockId).getD []
  let nodes := if placed = [] then (c.placement.registry.getBlockLocations blockId).getD []
    else placed
  forEach (fun nodeId c' =>
    match c.address nodeId with
    | none => (c', .error ("No address for node '" ++ nodeId ++ "'"))
    | some address =>
        if c.urls.takes address then (c'.post silent nodeId blockId data version, .ok ())
        else (c', .error "invalid URL")) nodes c

/-- The callback of a restore.
Source: `storage/cluster_bridge.py`, `make_placement_restore`. -/
def restorePlacement (blockId : String) (version : ℤ) (nodes : List String) : Call Cluster := fun c =>
  match c.placement.restorePlacement blockId version nodes with
  | .ok placement => ({ c with placement }, .ok ())
  | .error _ => (c, .error "placement not stored")

/-- A restore as the metadata service wires it.
Source: `metadata/app.py`, `lifespan`. -/
def restoring (order : SetOrder) (silent : List String) : RestoreWiring Cluster where
  writeLocal blockId data version := replicateToNodes silent blockId (some data) version
  deleteLocal blockId version := replicateToNodes silent blockId none version
  listBlocks := listBlocks
  restorePlacement := restorePlacement
  clearBlocks := none
  order := order

/-! ## What a restore leaves -/

variable {c c' : Cluster} {order : SetOrder} {silent : List String} {blocks : List SnapshotBlock}
  {placements : Dict String (List String)}

theorem post_eq (c : Cluster) (silent : List String) (nodeId blockId : String)
    (data : Option String) (version : ℤ) : c.post silent nodeId blockId data version = c := by
  unfold post
  split
  · rfl
  · cases data with
    | some data => simp only [replicate_bridge, Function.update_eq_self]
    | none => simp only [replicateDelete_bridge, Function.update_eq_self]

/-- No write or delete of the bridge changes the cluster. -/
theorem replicateToNodes_eq (silent : List String) (blockId : String) (data : Option String)
    (version : ℤ) (c : Cluster) : (replicateToNodes silent blockId data version c).1 = c := by
  unfold replicateToNodes
  apply forEach_induction (P := fun c' => c' = c) _ rfl
  rintro nodeId - c' rfl
  split
  · rfl
  · split
    · exact post_eq _ _ _ _ _ _
    · rfl

/-- A placement that is restored is saved and registered, and nothing else changes. -/
theorem restorePlacement_eq_ok {b : String} {v : ℤ} {nodes : List String}
    (h : restorePlacement b v nodes c = (c', .ok ())) : c' = { c with
      placement := { c.placement with
        registry := c.placement.registry.registerBlock b v nodes
        store := { c.placement.store with
          blocks := c.placement.store.blocks.set b ⟨v, nodes.toFinset⟩ } } } := by
  unfold restorePlacement Metadata.Placement.restorePlacement at h
  by_cases hfits : Metadata.Placement.Fits v nodes
  · rw [Metadata.MetadataStore.savePlacement_of_fits hfits.1 hfits.2] at h
    exact (Prod.mk.inj h).1.symm
  · obtain ⟨e, he⟩ :=
      Metadata.MetadataStore.savePlacement_of_not_fits (s := c.placement.store) (b := b) hfits
    rw [he] at h
    cases (Prod.mk.inj h).2

/-- What a loop over the placements leaves of the registry, if it raises nothing. -/
theorem forEach_restorePlacement {items : List (String × List String)}
    (h : forEach (fun item => restorePlacement item.1 1 item.2) items c = (c', .ok ())) :
    c'.nodes = c.nodes ∧ c'.placement.registry.blocks =
      items.foldl (fun d item => d.set item.1 item.2) c.placement.registry.blocks := by
  induction items generalizing c with
  | nil =>
      obtain rfl := (Prod.mk.inj h).1
      exact ⟨rfl, rfl⟩
  | cons item items ih =>
      obtain ⟨c₁, hitem, hitems⟩ := forEach_cons_eq_ok h
      obtain ⟨hnodes, hblocks⟩ := ih hitems
      rw [restorePlacement_eq_ok hitem] at hnodes hblocks
      exact ⟨hnodes, hblocks⟩

/-- What the loop leaves of the store and of the inventories. -/
theorem forEach_restorePlacement_store {items : List (String × List String)}
    (h : forEach (fun item => restorePlacement item.1 1 item.2) items c = (c', .ok ())) :
    c'.placement.inventory = c.placement.inventory ∧ c'.placement.store.blocks =
      items.foldl (fun d item => d.set item.1 ⟨1, item.2.toFinset⟩) c.placement.store.blocks := by
  induction items generalizing c with
  | nil =>
      obtain rfl := (Prod.mk.inj h).1
      exact ⟨rfl, rfl⟩
  | cons item items ih =>
      obtain ⟨c₁, hitem, hitems⟩ := forEach_cons_eq_ok h
      obtain ⟨hinventory, hblocks⟩ := ih hitems
      rw [restorePlacement_eq_ok hitem] at hinventory hblocks
      exact ⟨hinventory, hblocks⟩

/-- A restore that raises nothing does no more than restore the placements. -/
theorem apply_restoring_eq (h : (restoring order silent).apply blocks placements c = (c', .ok ())) :
    forEach (fun item => restorePlacement item.1 1 item.2) placements.entries c = (c', .ok ()) := by
  have hblock : ∀ block c, ((restoring order silent).restoreBlock block c).1 = c := by
    intro block c
    unfold RestoreWiring.restoreBlock
    split
    · exact replicateToNodes_eq _ _ _ _ _
    · exact replicateToNodes_eq _ _ _ _ _
  have hwrites : (forEach (restoring order silent).restoreBlock blocks c).1 = c :=
    forEach_induction (P := fun c' => c' = c) (fun block _ c' hc' => hc' ▸ hblock block c') rfl
  have hdeletes : ∀ stale,
      (forEach (fun b => (restoring order silent).deleteLocal b 9999) stale c).1 = c := fun stale =>
    forEach_induction (P := fun c' => c' = c)
      (fun b _ c' hc' => hc' ▸ replicateToNodes_eq _ _ _ _ c') rfl
  rw [RestoreWiring.apply,
    Call.andThen_of_ok (show (restoring order silent).clear c = (c, .ok ()) from rfl)] at h
  rcases hfirst : forEach (restoring order silent).restoreBlock blocks c with ⟨c₁, err | ⟨⟩⟩
  · rw [Call.andThen_of_error hfirst] at h
    cases (Prod.mk.inj h).2
  · rw [Call.andThen_of_ok hfirst] at h
    rw [hfirst] at hwrites
    obtain rfl : c₁ = c := hwrites
    have hsame := hdeletes ((restoring order silent).stale blocks c₁)
    rcases hsecond : forEach (fun b => (restoring order silent).deleteLocal b 9999)
      ((restoring order silent).stale blocks c₁) c₁ with ⟨c₂, err | ⟨⟩⟩
    · rw [Call.andThen_of_error hsecond] at h
      cases (Prod.mk.inj h).2
    · rw [Call.andThen_of_ok hsecond] at h
      rw [hsecond] at hsame
      obtain rfl : c₂ = c₁ := hsame
      exact h

/-- A restore that raises nothing leaves the nodes as they are and the placements of the snapshot. -/
theorem apply_restoring (h : (restoring order silent).apply blocks placements c = (c', .ok ())) :
    c'.nodes = c.nodes ∧ ∀ b, c'.placement.registry.getBlockLocations b =
      (placements.get? b).or (c.placement.registry.getBlockLocations b) := by
  obtain ⟨hnodes, hblocks⟩ := forEach_restorePlacement (apply_restoring_eq h)
  refine ⟨hnodes, fun b => ?_⟩
  unfold Metadata.PlacementRegistry.getBlockLocations
  rw [hblocks]
  exact Dict.get?_foldl_set_entries _ _ _

/-- The nodes of every block's placement have the data of the snapshot live, and no node has a block
live that the snapshot does not have. -/
structure Holds (c : Cluster) (locations : String → Option (List String))
    (blocks : List SnapshotBlock) : Prop where
  held : ∀ block ∈ blocks, ∀ nodes, locations block.blockId = some nodes →
    ∀ n ∈ nodes, (c.nodes n).liveData block.blockId = block.data
  gone : ∀ b, b ∉ blocks.map SnapshotBlock.blockId → ∀ n, (c.nodes n).liveRow b = none

/-- What a restore is to leave. -/
def Restored (c : Cluster) (blocks : List SnapshotBlock) : Prop :=
  c.Holds c.placement.registry.getBlockLocations blocks

/-- The nodes that a restore leaves as the placement of a block: those that the snapshot records, or
else the ones it has. -/
def locationsAfter (c : Cluster) (placements : Dict String (List String)) (blockId : String) :
    Option (List String) :=
  (placements.get? blockId).or (c.placement.registry.getBlockLocations blockId)

/-- **A restore that ends `COMPLETED` leaves the blocks of the snapshot just when the nodes held them
before.** -/
theorem restored_iff {store : SnapshotStore} {sid : String} {snapshot : SnapshotRecord}
    (hsnapshot : store.getSnapshot sid = some snapshot)
    (hcompleted : ((restoring order silent).restoreSnapshot store c sid).2.2.status = .completed) :
    ((restoring order silent).restoreSnapshot store c sid).2.1.Restored (store.getSnapshotBlocks sid) ↔
      c.Holds (c.locationsAfter snapshot.placements) (store.getSnapshotBlocks sid) := by
  obtain ⟨snapshot', hsnapshot', happly⟩ := RestoreWiring.restoreSnapshot_completed hcompleted
  obtain rfl := Option.some.inj (hsnapshot.symm.trans hsnapshot')
  obtain ⟨hnodes, hlocations⟩ := apply_restoring happly
  unfold Restored
  constructor
  · rintro ⟨hheld, hgone⟩
    refine ⟨fun block hblock nodes hn n hmem => ?_, fun b hb n => ?_⟩
    · exact hnodes ▸ hheld block hblock nodes ((hlocations _).trans hn) n hmem
    · exact hnodes ▸ hgone b hb n
  · rintro ⟨hheld, hgone⟩
    refine ⟨fun block hblock nodes hn n hmem => ?_, fun b hb n => ?_⟩
    · exact hnodes ▸ hheld block hblock nodes ((hlocations _).symm.trans hn) n hmem
    · exact hnodes ▸ hgone b hb n

/-! ## Runs -/

/-- A snapshot of a cluster with one node. -/
def snapshotOfNode : List (ProtectionEvent (List String) Cluster) :=
  [.create "s1" 1000 1 (Protection.oneNode.placement.registry.blocks), .list, .read [], .share "v1",
    .add, .finish]

/-- The same cluster after a write. -/
def newerNode : Cluster where
  membership := Protection.oneNode.membership
  placement := Protection.oneNode.placement
  nodes n := (Protection.oneNode.nodes n).call
    (.writeLocal "b1" "newer" (.resolve (some 2)) none none)
  urls := .plain

/-- Whether the restore of the snapshot completes, and what the node then has. -/
def restoredNode (s : Protection Cluster) : RestoreJobStatus × Option String :=
  (((restoring .asListed []).restoreSnapshot s.store s.world "s1").2.2.status,
    (((restoring .asListed []).restoreSnapshot s.store s.world "s1").2.1.nodes "node1").liveData "b1")

/-- A restore right after the snapshot. -/
theorem restored_iff_unchanged : ∃ s, run (Protection.step bridge) (Protection.init Protection.oneNode)
    snapshotOfNode = some s ∧
    ∃ snapshot, s.store.getSnapshot "s1" = some snapshot ∧
      (((restoring .asListed []).restoreSnapshot s.store s.world "s1").2.1.Restored
        (s.store.getSnapshotBlocks "s1") ↔
        s.world.Holds (s.world.locationsAfter snapshot.placements)
          (s.store.getSnapshotBlocks "s1")) := by
  have hrun : (run (Protection.step bridge) (Protection.init Protection.oneNode)
      snapshotOfNode).map (fun s => (restoredNode s, (s.store.getSnapshot "s1").isSome)) =
      some ((.completed, some "data"), true) := by decide +kernel
  obtain ⟨s, hs, hrestored⟩ := Option.map_eq_some_iff.mp hrun
  obtain ⟨hnode, hpresent⟩ := Prod.mk.inj hrestored
  obtain ⟨snapshot, hsnapshot⟩ := Option.isSome_iff_exists.mp hpresent
  exact ⟨s, hs, snapshot, hsnapshot, restored_iff hsnapshot (Prod.mk.inj hnode).1⟩

/-- A complete snapshot is restored after a write, and the write stays. -/
theorem restored_counterexample : ¬ ∀ (c : Cluster)
    (evs : List (ProtectionEvent (List String) Cluster)) (s : Protection Cluster) (sid : String),
    run (Protection.step bridge) (Protection.init c) evs = some s →
    Protection.HasEntries s.store sid (s.liveAt sid) →
    ((restoring .asListed []).restoreSnapshot s.store s.world sid).2.2.status = .completed →
    ((restoring .asListed []).restoreSnapshot s.store s.world sid).2.1.Restored
      (s.store.getSnapshotBlocks sid) := by
  intro h
  have hrun : (run (Protection.step bridge) (Protection.init Protection.oneNode)
      (snapshotOfNode ++ [.change newerNode])).map (fun s => (restoredNode s,
        s.store.getSnapshotBlocks "s1", s.liveAt "s1",
        ((restoring .asListed []).restoreSnapshot s.store s.world "s1").2.1.placement.registry.getBlockLocations
          "b1")) =
      some ((.completed, some "newer"), [⟨"b1", 1, some "data", false⟩], ["b1"], some ["node1"]) := by
    decide +kernel
  obtain ⟨s, hs, hrestored⟩ := Option.map_eq_some_iff.mp hrun
  obtain ⟨hnode, hrest⟩ := Prod.mk.inj hrestored
  obtain ⟨hblocks, hrest⟩ := Prod.mk.inj hrest
  obtain ⟨hlive, hlocations⟩ := Prod.mk.inj hrest
  obtain ⟨hstatus, hdata⟩ := Prod.mk.inj hnode
  have hcomplete : Protection.HasEntries s.store "s1" (s.liveAt "s1") := by
    intro b hb
    rw [hlive] at hb
    exact ⟨_, hblocks ▸ List.mem_cons_self, (List.mem_singleton.mp hb).symm⟩
  have hheld := (h Protection.oneNode _ s "s1" hs hcomplete hstatus).held _
    (hblocks ▸ List.mem_cons_self) _ hlocations "node1" List.mem_cons_self
  rw [hdata] at hheld
  revert hheld
  decide

end Cluster

end NanoFabric.Storage
