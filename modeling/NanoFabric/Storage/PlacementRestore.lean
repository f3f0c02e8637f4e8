import NanoFabric.Metadata.PlacementCalls
import NanoFabric.Storage.ClusterRestore

/-!
# The placements after a restore

`make_placement_restore` of `storage/cluster_bridge.py`, as `metadata/app.py` wires it: each placement
of the snapshot is saved and registered. Nothing is removed, and no inventory is changed.

* `locations_restored`, `rows_restored` — what a restore leaves of the registry and of the store.
* `restoresPlacements_iff` — this is the snapshot just when no other block is known and the inventories
  are those of the snapshot already.
* `restorable_iff` — of placements that are in step: no block was added, and none has moved.
-/

namespace NanoFabric.Metadata

open NanoFabric.Found

namespace PlacementView

variable {w : PlacementView} {placements : Dict String (List String)}

/-- The registry and the store have just these placements, and each node lists the blocks that are
placed on it. -/
structure Shows (w : PlacementView) (placements : Dict String (List String)) : Prop where
  registry : ∀ b, w.locations b = placements.get? b
  store : ∀ b, (w.rows b).map BlockRow.nodes = (placements.get? b).map List.toFinset
  inverse : ∀ b n, b ∈ w.inventory n ↔ ∃ nodes, w.locations b = some nodes ∧ n ∈ nodes

/-- The registry and the store have no other blocks than these, and each node lists just those of
them that are placed on it. -/
structure Restorable (w : PlacementView) (placements : Dict String (List String)) : Prop where
  registry : ∀ b, (w.locations b).isSome → (placements.get? b).isSome
  store : ∀ b, (w.rows b).isSome → (placements.get? b).isSome
  inventory : ∀ b n, b ∈ w.inventory n ↔ ∃ nodes, placements.get? b = some nodes ∧ n ∈ nodes

/-- Placements that are in step can be restored just when no block was added, and each block is still
on the same nodes. -/
theorem restorable_iff (h : w.InStep) : w.Restorable placements ↔
    (∀ b, (w.locations b).isSome → (placements.get? b).isSome) ∧
      ∀ b, ((w.locations b).getD []).toFinset = ((placements.get? b).getD []).toFinset := by
  have hmem : ∀ (o : Option (List String)) n, (∃ nodes, o = some nodes ∧ n ∈ nodes) ↔
      n ∈ (o.getD []).toFinset := by
    intro o n
    rcases o with _ | nodes
    · simp
    · simp
  constructor
  · rintro ⟨hregistry, -, hinventory⟩
    refine ⟨hregistry, fun b => ?_⟩
    ext n
    rw [← hmem, ← hmem, ← h.inverse, hinventory]
  · rintro ⟨hregistry, hsame⟩
    refine ⟨hregistry, fun b hrow => hregistry b ?_, fun b n => ?_⟩
    · have hnodes := congrArg Option.isSome (h.nodes b)
      rw [Option.isSome_map, Option.isSome_map] at hnodes
      exact hnodes.trans hrow
    · rw [h.inverse, hmem, hmem, hsame]

end PlacementView

end NanoFabric.Metadata

namespace NanoFabric.Storage

open NanoFabric.Found
open NanoFabric.Metadata (BlockRow MembershipRegistry Placement PlacementCall PlacementService)

namespace Cluster

variable {c c' : Cluster} {order : SetOrder} {silent : List String} {blocks : List SnapshotBlock}
  {placements : Dict String (List String)}

/-- The registry has the placements of the snapshot, and those of other blocks as they were. -/
theorem locations_restored (h : (restoring order silent).apply blocks placements c = (c', .ok ()))
    (b : String) : c'.placement.view.locations b =
      (placements.get? b).or (c.placement.view.locations b) :=
  (apply_restoring h).2 b

/-- The store has the placements of the snapshot, and those of other blocks as they were. -/
theorem rows_restored (h : (restoring order silent).apply blocks placements c = (c', .ok ()))
    (b : String) : c'.placement.view.rows b =
      ((placements.get? b).map fun nodes => ⟨1, nodes.toFinset⟩).or (c.placement.view.rows b) := by
  have hblocks := (forEach_restorePlacement_store (apply_restoring_eq h)).2
  let rows := placements.mapVals fun _ nodes => (⟨1, nodes.toFinset⟩ : BlockRow)
  have hmap := Dict.get?_foldl_set_entries rows c.placement.store.blocks b
  rw [Dict.get?_mapVals] at hmap
  refine Eq.trans ?_ hmap
  unfold Placement.view
  rw [hblocks]
  simp only [rows, Dict.mapVals, List.foldl_map]

/-- No inventory is changed. -/
theorem inventory_restored (h : (restoring order silent).apply blocks placements c = (c', .ok ())) :
    c'.placement.view.inventory = c.placement.view.inventory :=
  congrArg Metadata.NodeInventory.getInventory
    (forEach_restorePlacement_store (apply_restoring_eq h)).1

/-- **A restore that ends `COMPLETED` leaves the placements of the snapshot just when no other block
was known and the inventories were those of the snapshot.** -/
theorem restoresPlacements_iff {store : SnapshotStore} {sid : String} {snapshot : SnapshotRecord}
    (hsnapshot : store.getSnapshot sid = some snapshot)
    (hcompleted : ((restoring order silent).restoreSnapshot store c sid).2.2.status = .completed) :
    ((restoring order silent).restoreSnapshot store c sid).2.1.placement.view.Shows
        snapshot.placements ↔
      c.placement.view.Restorable snapshot.placements := by
  obtain ⟨snapshot', hsnapshot', happly⟩ := RestoreWiring.restoreSnapshot_completed hcompleted
  obtain rfl := Option.some.inj (hsnapshot.symm.trans hsnapshot')
  have hlocations := locations_restored happly
  have hrows := rows_restored happly
  have hinventory := inventory_restored happly
  constructor
  · rintro ⟨hregistry, hstore, hinverse⟩
    refine ⟨fun b hb => ?_, fun b hb => ?_, fun b n => ?_⟩
    · rw [← hregistry, hlocations, Option.isSome_or, hb, Bool.or_true]
    · have hsome := congrArg Option.isSome (hstore b)
      rw [Option.isSome_map, Option.isSome_map, hrows, Option.isSome_or, hb, Bool.or_true] at hsome
      exact hsome.symm
    · rw [← hinventory, hinverse]
      simp only [hregistry]
  · rintro ⟨hregistry, hstore, hinverse⟩
    have hregistry' : ∀ b, (snapshot.placements.get? b).or (c.placement.view.locations b) =
        snapshot.placements.get? b := by
      intro b
      rcases hget : snapshot.placements.get? b with _ | nodes
      · have hnone := hregistry b
        rw [hget] at hnone
        rw [Option.none_or, ← Option.not_isSome_iff_eq_none]
        exact fun hb => Bool.false_ne_true (hnone hb)
      · rfl
    refine ⟨fun b => (hlocations b).trans (hregistry' b), fun b => ?_, fun b n => ?_⟩
    · rw [hrows]
      rcases hget : snapshot.placements.get? b with _ | nodes
      · have hnone := hstore b
        rw [hget] at hnone
        rw [Option.map_none, Option.none_or, Option.map_none, Option.map_eq_none_iff,
          ← Option.not_isSome_iff_eq_none]
        exact fun hb => Bool.false_ne_true (hnone hb)
      · rfl
    · rw [hinventory, hinverse, hlocations, hregistry']

/-! ### Runs -/

/-- A cluster after calls of its placement service. -/
def after (c : Cluster) (calls : List (MembershipRegistry × PlacementCall)) : Cluster :=
  { c with
    placement := (calls.foldl (fun s ev => (s.call ev.1 ev.2).1)
      (⟨c.placement, ⟨0⟩⟩ : PlacementService)).placement }

/-- A cluster of one node with one block that was allocated. -/
def allocatedNode : Cluster :=
  { Protection.oneNode with placement := .empty }.after
    [(Protection.oneNode.membership, .allocateBlock "b1" 1 1)]

/-- A snapshot of that cluster. -/
def snapshotOfPlacements : List (ProtectionEvent (List String) Cluster) :=
  [.create "s1" 1000 1 allocatedNode.placement.registry.blocks, .list, .read [], .share "v1", .add,
    .finish]

/-- How a restore of the snapshot ends after calls of the placement service, and where it leaves a
block that the snapshot does not have. -/
def restoredPlacements (s : Protection Cluster)
    (calls : List (MembershipRegistry × PlacementCall)) :
    RestoreJobStatus × Option (List String) × Bool :=
  let out := (restoring .asListed []).restoreSnapshot s.store (s.world.after calls) "s1"
  (out.2.2.status, out.2.1.placement.view.locations "b2",
    (s.store.getSnapshot "s1").any fun snapshot =>
      snapshot.placements = s.world.placement.registry.blocks)

/-- A restore right after the snapshot. -/
theorem restoresPlacements_iff_unchanged : ∃ s, run (Protection.step bridge)
    (Protection.init allocatedNode) snapshotOfPlacements = some s ∧
    ∃ snapshot, s.store.getSnapshot "s1" = some snapshot ∧
      (((restoring .asListed []).restoreSnapshot s.store (s.world.after []) "s1").2.1.placement.view.Shows
          snapshot.placements ↔
        (s.world.after []).placement.view.Restorable snapshot.placements) := by
  have hrun : (run (Protection.step bridge) (Protection.init allocatedNode)
      snapshotOfPlacements).map (restoredPlacements · []) = some (.completed, none, true) := by
    decide +kernel
  obtain ⟨s, hs, hrestored⟩ := Option.map_eq_some_iff.mp hrun
  obtain ⟨hstatus, hrest⟩ := Prod.mk.inj hrestored
  obtain ⟨snapshot, hsnapshot, -⟩ := (Option.any_eq_true _ _).mp (Prod.mk.inj hrest).2
  exact ⟨s, hs, snapshot, hsnapshot, restoresPlacements_iff hsnapshot hstatus⟩

/-- A block that was allocated after the snapshot keeps its placement. -/
theorem restoresPlacements_counterexample : ¬ ∀ (c : Cluster)
    (evs : List (ProtectionEvent (List String) Cluster)) (s : Protection Cluster) (sid : String)
    (snapshot : SnapshotRecord) (calls : List (MembershipRegistry × PlacementCall)),
    c.placement.view.InStep → run (Protection.step bridge) (Protection.init c) evs = some s →
    s.store.getSnapshot sid = some snapshot →
    snapshot.placements = s.world.placement.registry.blocks →
    ((restoring .asListed []).restoreSnapshot s.store (s.world.after calls) sid).2.2.status = .completed →
    ((restoring .asListed []).restoreSnapshot s.store (s.world.after calls) sid).2.1.placement.view.Shows
      snapshot.placements := by
  intro h
  have hinStep : allocatedNode.placement.view.InStep :=
    ((PlacementService.inStep_of_calls [(Protection.oneNode.membership,
      .allocateBlock "b1" 1 1)]).1.2 _ rfl : PlacementService.InStep _)
  have hrun : (run (Protection.step bridge) (Protection.init allocatedNode)
      snapshotOfPlacements).map (fun s => (restoredPlacements s
        [(Protection.oneNode.membership, .allocateBlock "b2" 1 1)],
        (s.store.getSnapshot "s1").map fun snapshot => snapshot.placements.get? "b2")) =
      some ((.completed, some ["node1"], true), some none) := by decide +kernel
  obtain ⟨s, hs, hrestored⟩ := Option.map_eq_some_iff.mp hrun
  obtain ⟨hend, habsent⟩ := Prod.mk.inj hrestored
  obtain ⟨hstatus, hrest⟩ := Prod.mk.inj hend
  obtain ⟨hlocations, hplacements⟩ := Prod.mk.inj hrest
  obtain ⟨snapshot, hsnapshot, habsent⟩ := Option.map_eq_some_iff.mp habsent
  rw [hsnapshot, Option.any_some, decide_eq_true_eq] at hplacements
  have hregistry := (h allocatedNode _ s "s1" snapshot _ hinStep hs hsnapshot hplacements
    hstatus).registry "b2"
  rw [hlocations, habsent] at hregistry
  cases hregistry

end Cluster

end NanoFabric.Storage
