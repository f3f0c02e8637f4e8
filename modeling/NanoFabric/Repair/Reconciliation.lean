import NanoFabric.Metadata.PlacementCalls
import NanoFabric.Repair.Redundancy

/-!
# Placement reconciliation

`PlacementReconciliation` of `cluster/placement_reconciliation.py` as `cluster/repair_factory.py` wires
it: what the placements, the inventories and the nodes disagree on is listed, and each item of the list
is worked on once. The order of a set of listed blocks is that of the list here, and what a node has is
what it answers with at the URL that has the id of the block.

* `Undisturbed.rebuildPlacements` — the work on a placement saves it again as it is, and no inventory
  changes.
* `reconciles_iff` — no block is copied or removed and none is placed, so that nothing is left to
  report just when nothing was there to report.
* `Consistent.held` — nothing to report means that nodes have what is placed on them, if the URLs lead
  there.
-/

namespace NanoFabric.Repair

open NanoFabric.Found
open NanoFabric.Metadata
open NanoFabric.Node (Row)
open NanoFabric.Storage

/-! ## Mismatches -/

/-- The types of orphans that a reconciliation tells apart. -/
inductive OrphanType
  | metadataOnly
  | blockOnly
deriving DecidableEq, Repr

/-- Source: `cluster/repair_models.py`, `OrphanBlock`. -/
structure OrphanBlock where
  blockId : String
  orphanType : OrphanType
  nodeId : String
deriving DecidableEq, Repr

/-- Source: `cluster/placement_reconciliation.py`, `detect_mismatches`. -/
structure Mismatches where
  metadataOnly : List OrphanBlock
  blockOnly : List OrphanBlock
deriving DecidableEq, Repr

/-- What a reconciliation returns. -/
structure ReconcileReport where
  rebuiltMetadata : ℕ
  cleanedOrphans : ℕ
  metadataOnly : ℕ
  blockOnly : ℕ
deriving DecidableEq, Repr

/-- What a reconciliation raises. -/
inductive ReconcileError
  | service (e : Placement.ServiceError)
  | nodeClient
  /-- The `httpx.InvalidURL` of an address or an id. -/
  | invalidUrl
deriving DecidableEq

namespace RepairState

/-- The orphans after a look at one node of a placement. -/
def checkReplica (s : RepairState) (blockId : String) (orphans : List OrphanBlock) (nodeId : String) :
    List OrphanBlock :=
  let orphan : OrphanBlock := ⟨blockId, .metadataOnly, nodeId⟩
  let listed := if blockId ∈ s.cluster.placement.inventory.getInventory nodeId then orphans
    else orphans ++ [orphan]
  if s.hasBlock nodeId blockId = some false then
    if listed.any fun o => o.blockId = blockId ∧ o.nodeId = nodeId then listed
    else listed ++ [orphan]
  else listed

/-- What a look at the placements and the nodes finds. -/
def mismatches (s : RepairState) : Mismatches where
  metadataOnly := s.cluster.placement.registry.blocks.entries.foldl
    (fun orphans (blockId, nodes) => nodes.foldl (s.checkReplica blockId) orphans) []
  blockOnly := s.cluster.membership.nodes.keys.flatMap fun nodeId =>
    (((s.listNodeBlocks nodeId).getD []).filter fun blockId =>
      blockId ∉ s.cluster.placement.registry.blocks.keys).map fun blockId =>
        ⟨blockId, .blockOnly, nodeId⟩

/-- Every node of every placement is asked, and then every registered node.
Source: `cluster/placement_reconciliation.py`, `detect_mismatches`. -/
def detectMismatches (s : RepairState) : Except ReconcileError Mismatches :=
  if s.cluster.placement.registry.blocks.entries.any fun (blockId, nodes) =>
      nodes.any fun nodeId => s.invalidUrl nodeId blockId
  then .error .invalidUrl
  else if s.cluster.membership.nodes.keys.any fun nodeId =>
      (s.cluster.address nodeId).any fun address => !s.cluster.urls.takes address
  then .error .invalidUrl
  else .ok s.mismatches

/-! ## The reconciliation -/

/-- The version that a placement is saved with; a version that is `0` counts as none. -/
def savedVersion (s : RepairState) (blockId : String) : ℤ :=
  ((s.cluster.placement.registry.getBlockVersion blockId).filter (· ≠ 0)).getD 1

/-- The loop over the orphans of placements, and how many were worked on.
Source: `cluster/placement_reconciliation.py`, `reconcile`. -/
def rebuildPlacements (s : RepairState) (rebuilt : ℕ) :
    List OrphanBlock → RepairState × Except ReconcileError ℕ
  | [] => (s, .ok rebuilt)
  | orphan :: orphans =>
      if orphan.nodeId = "" then rebuildPlacements s rebuilt orphans
      else
        let nodes := (s.locations orphan.blockId).getD []
        match s.selectSource orphan.blockId nodes with
        | .error _ => (s, .error .invalidUrl)
        | .ok source =>
            if truthy source = none then rebuildPlacements s rebuilt orphans
            else
              let nodes := if orphan.nodeId ∈ nodes then nodes else nodes ++ [orphan.nodeId]
              match s.cluster.placement.updateBlockPlacement orphan.blockId nodes
                  (s.savedVersion orphan.blockId) with
              | .error e => (s, .error (.service e))
              | .ok placement => rebuildPlacements (s.setPlacement placement) (rebuilt + 1) orphans

/-- The loop over the orphans of nodes, and how many were worked on. The addresses have been taken
before.
Source: `cluster/placement_reconciliation.py`, `reconcile`. -/
def cleanOrphans (s : RepairState) (cleaned : ℕ) :
    List OrphanBlock → RepairState × Except ReconcileError ℕ
  | [] => (s, .ok cleaned)
  | orphan :: orphans =>
      if orphan.nodeId = "" then cleanOrphans s cleaned orphans
      else match s.listNodeBlocks orphan.nodeId with
        | none => (s, .error .nodeClient)
        | some blocks =>
            cleanOrphans (s.setPlacement
              (s.cluster.placement.rebuildNodeInventory orphan.nodeId blocks)) (cleaned + 1) orphans

/-- Source: `cluster/placement_reconciliation.py`, `reconcile`. -/
def reconcile (s : RepairState) : RepairState × Except ReconcileError ReconcileReport :=
  match s.detectMismatches with
  | .error e => (s, .error e)
  | .ok mismatches =>
      match s.rebuildPlacements 0 mismatches.metadataOnly with
      | (s₁, .error e) => (s₁, .error e)
      | (s₁, .ok rebuilt) =>
          match s₁.cleanOrphans 0 mismatches.blockOnly with
          | (s₂, .error e) => (s₂, .error e)
          | (s₂, .ok cleaned) => (s₂, .ok ⟨rebuilt, cleaned, mismatches.metadataOnly.length,
              mismatches.blockOnly.length⟩)

/-! ## What it is for -/

/-- Each inventory lists the blocks whose placement has the node. -/
def Inverse (s : RepairState) : Prop :=
  ∀ n b, b ∈ s.cluster.placement.inventory.getInventory n ↔ ∃ L, s.locations b = some L ∧ n ∈ L

/-- Nothing is left to report after a reconciliation, and the inventories are the inverse of the
placements. -/
structure Reconciles (s : RepairState) : Prop where
  returns : ∃ report, s.reconcile.2 = .ok report
  clean : s.reconcile.1.detectMismatches = .ok ⟨[], []⟩
  inverse : s.reconcile.1.Inverse

/-- The HTTP client takes the URLs, no node answers that it lacks a block that is placed on it, the
blocks that registered nodes have are placed, and the inventories are the inverse of the placements. -/
structure Consistent (s : RepairState) : Prop where
  valid : ∀ b L, s.locations b = some L → ∀ n ∈ L, s.invalidUrl n b = false
  taken : ∀ n ∈ s.cluster.membership.nodes.keys, s.Taken n
  answered : ∀ b L, s.locations b = some L → ∀ n ∈ L, s.hasBlock n b ≠ some false
  placed : ∀ n ∈ s.cluster.membership.nodes.keys, ∀ b row, s.readRow b n = some row →
    (s.locations b).isSome
  inverse : s.Inverse

variable {s s' : RepairState} {b n : String} {o : OrphanBlock} {orphans : List OrphanBlock} {k : ℕ}

/-! ## What is reported -/

theorem checkReplica_eq_nil : s.checkReplica b orphans n = [] ↔
    orphans = [] ∧ b ∈ s.cluster.placement.inventory.getInventory n ∧ s.hasBlock n b ≠ some false := by
  unfold checkReplica
  by_cases hlisted : b ∈ s.cluster.placement.inventory.getInventory n
  · by_cases hlacks : s.hasBlock n b = some false
    · simp only [hlisted, hlacks, if_true, ne_eq, not_true_eq_false, and_false, iff_false]
      split_ifs with hany
      · rintro rfl
        simp at hany
      · simp
    · simp [hlisted, hlacks]
  · refine iff_of_false ?_ fun h => hlisted h.2.1
    simp only [hlisted, if_false]
    split_ifs <;> simp

theorem foldl_checkReplica_eq_nil {L : List String} : L.foldl (s.checkReplica b) orphans = [] ↔
    orphans = [] ∧ ∀ n ∈ L, b ∈ s.cluster.placement.inventory.getInventory n ∧
      s.hasBlock n b ≠ some false := by
  induction L generalizing orphans with
  | nil => simp
  | cons n L ih => rw [List.foldl_cons, ih, checkReplica_eq_nil, List.forall_mem_cons, and_assoc]

/-- No placement is reported when its nodes list and have the block. -/
theorem metadataOnly_eq_nil : s.mismatches.metadataOnly = [] ↔
    ∀ b L, s.locations b = some L → ∀ n ∈ L,
      b ∈ s.cluster.placement.inventory.getInventory n ∧ s.hasBlock n b ≠ some false := by
  have hloop : ∀ (items : List (String × List String)) (orphans : List OrphanBlock),
      items.foldl (fun orphans (b, nodes) => nodes.foldl (s.checkReplica b) orphans) orphans = [] ↔
        orphans = [] ∧ ∀ item ∈ items, ∀ n ∈ item.2,
          item.1 ∈ s.cluster.placement.inventory.getInventory n ∧
            s.hasBlock n item.1 ≠ some false := by
    intro items
    induction items with
    | nil => simp
    | cons item items ih =>
        intro orphans
        rw [List.foldl_cons, ih, foldl_checkReplica_eq_nil, List.forall_mem_cons, and_assoc]
  unfold mismatches
  rw [hloop, and_iff_right rfl, Prod.forall]
  exact forall₂_congr fun b L => by rw [Dict.mem_entries]; rfl

/-- The node of an orphan of a placement is in the placement. -/
theorem mem_locations_of_metadataOnly (h : o ∈ s.mismatches.metadataOnly) :
    o.nodeId ∈ (s.locations o.blockId).getD [] := by
  have hcheck : ∀ (b n : String) (orphans : List OrphanBlock), o ∈ s.checkReplica b orphans n →
      o ∈ orphans ∨ (o.blockId = b ∧ o.nodeId = n) := by
    intro b n orphans ho
    have hadded : ∀ l : List OrphanBlock, o ∈ l ++ [⟨b, .metadataOnly, n⟩] →
        o ∈ l ∨ (o.blockId = b ∧ o.nodeId = n) := by
      intro l hl
      rcases List.mem_append.mp hl with hl | hl
      · exact Or.inl hl
      · obtain rfl := List.mem_singleton.mp hl
        exact Or.inr ⟨rfl, rfl⟩
    have hlisted : o ∈ (if b ∈ s.cluster.placement.inventory.getInventory n then orphans
        else orphans ++ [⟨b, .metadataOnly, n⟩]) → o ∈ orphans ∨ (o.blockId = b ∧ o.nodeId = n) := by
      split_ifs
      · exact Or.inl
      · exact hadded _
    unfold checkReplica at ho
    simp only at ho
    generalize (if b ∈ s.cluster.placement.inventory.getInventory n then orphans
        else orphans ++ [⟨b, .metadataOnly, n⟩]) = listed at ho hlisted
    split_ifs at ho
    · exact hlisted ho
    · exact (hadded _ ho).elim hlisted Or.inr
    · exact hlisted ho
  let Placed (orphans : List OrphanBlock) : Prop :=
    o ∈ orphans → o.nodeId ∈ (s.locations o.blockId).getD []
  suffices hloop : Placed s.mismatches.metadataOnly from hloop h
  refine List.foldlRecOn _ _ (motive := Placed) nofun ?_
  rintro orphans horphans ⟨b, L⟩ hitem
  refine List.foldlRecOn L _ (motive := Placed) horphans ?_
  intro orphans horphans n hn ho
  rcases hcheck b n orphans ho with ho | ⟨rfl, rfl⟩
  · exact horphans ho
  · rw [show s.locations o.blockId = some L from Dict.mem_entries.mp hitem]
    exact hn

/-- No node is reported when the blocks that the registered nodes have are placed. -/
theorem blockOnly_eq_nil : s.mismatches.blockOnly = [] ↔
    ∀ n ∈ s.cluster.membership.nodes.keys, ∀ b row, s.readRow b n = some row →
      (s.locations b).isSome := by
  unfold mismatches
  rw [List.flatMap_eq_nil_iff]
  refine forall₂_congr fun n _ => ?_
  rw [List.map_eq_nil_iff, List.filter_eq_nil_iff]
  have hplaced : ∀ b, b ∈ s.cluster.placement.registry.blocks.keys ↔ (s.locations b).isSome := by
    intro b
    rw [Dict.mem_keys, Option.isSome_iff_exists]
    rfl
  simp only [mem_listNodeBlocks, hplaced, decide_eq_true_eq, not_not, forall_exists_index]

/-- What is found is returned when the HTTP client takes the URLs. -/
theorem detectMismatches_eq_ok {found : Mismatches} : s.detectMismatches = .ok found ↔
    (∀ b L, s.locations b = some L → ∀ n ∈ L, s.invalidUrl n b = false) ∧
      (∀ n ∈ s.cluster.membership.nodes.keys, s.Taken n) ∧ s.mismatches = found := by
  have hvalid : (s.cluster.placement.registry.blocks.entries.any fun (b, nodes) =>
      nodes.any fun n => s.invalidUrl n b) = false ↔
        ∀ b L, s.locations b = some L → ∀ n ∈ L, s.invalidUrl n b = false := by
    simp only [List.any_eq_false, Bool.not_eq_true, Prod.forall, Dict.mem_entries]
    rfl
  have htaken : (s.cluster.membership.nodes.keys.any fun n =>
      (s.cluster.address n).any fun address => !s.cluster.urls.takes address) = false ↔
        ∀ n ∈ s.cluster.membership.nodes.keys, s.Taken n := by
    simp only [List.any_eq_false, Option.any_eq_true, Taken]
    simp
  rw [← hvalid, ← htaken]
  unfold detectMismatches
  split_ifs with h h'
  · simp [h]
  · simp [h']
  · simp [h, h']

/-! ## What the loops leave -/

/-- The nodes, the placements and the inventories are the same. -/
structure Undisturbed (s s' : RepairState) : Prop where
  nodes : s'.cluster.nodes = s.cluster.nodes
  membership : s'.cluster.membership = s.cluster.membership
  urls : s'.cluster.urls = s.cluster.urls
  silent : s'.silent = s.silent
  locations : s'.locations = s.locations
  inventory : s'.cluster.placement.inventory.getInventory =
    s.cluster.placement.inventory.getInventory

theorem Undisturbed.refl (s : RepairState) : Undisturbed s s := ⟨rfl, rfl, rfl, rfl, rfl, rfl⟩

theorem Undisturbed.trans {s₁ : RepairState} (h : Undisturbed s s₁) (h' : Undisturbed s₁ s') :
    Undisturbed s s' :=
  ⟨h'.nodes.trans h.nodes, h'.membership.trans h.membership, h'.urls.trans h.urls,
    h'.silent.trans h.silent, h'.locations.trans h.locations, h'.inventory.trans h.inventory⟩

/-- The nodes answer as they did. -/
theorem Undisturbed.hasBlock (h : Undisturbed s s') : s'.hasBlock = s.hasBlock := by
  funext n b
  unfold RepairState.hasBlock RepairState.readBlock invalidUrl Cluster.reaches Cluster.address
  rw [h.nodes, h.membership, h.urls, h.silent]

/-- A placement that is saved as it is leaves the inventories alone. -/
theorem undisturbed_update {placement : Placement} {v : ℤ}
    (h : s.cluster.placement.updateBlockPlacement b ((s.locations b).getD []) v = .ok placement) :
    Undisturbed s (s.setPlacement placement) := by
  obtain ⟨hexists, -, hview⟩ := Placement.updateBlockPlacement_eq_ok h
  obtain ⟨L, hL⟩ := Placement.blockExists_iff.mp hexists
  have hlocations : s.locations b = some L := hL
  rw [hlocations, Option.getD_some] at hview
  refine ⟨rfl, rfl, rfl, rfl, ?_, ?_⟩
  · funext b'
    have hget := congrFun (congrArg PlacementView.locations hview) b'
    rw [PlacementView.locations_place] at hget
    refine hget.trans ?_
    split_ifs with hb
    · rw [hb, hlocations]
    · rfl
  · funext n
    refine (congrFun (congrArg PlacementView.inventory hview) n).trans ?_
    unfold PlacementView.place
    simp only [hL, Option.getD_some]
    split_ifs <;> rfl

/-- The work on placements changes no placement and no inventory. -/
theorem undisturbed_rebuildPlacements
    (h : ∀ o ∈ orphans, o.nodeId ∈ (s.locations o.blockId).getD []) :
    Undisturbed s (s.rebuildPlacements k orphans).1 := by
  induction orphans generalizing s k with
  | nil => exact .refl s
  | cons o orphans ih =>
      obtain ⟨ho, hrest⟩ := List.forall_mem_cons.mp h
      unfold rebuildPlacements
      split_ifs with hblank
      · exact ih hrest
      · simp only [if_pos ho]
        split
        · exact .refl s
        split_ifs
        · exact ih hrest
        · split
          · exact .refl s
          · rename_i placement hupdate
            have hstep := undisturbed_update hupdate
            exact hstep.trans (ih (by rw [hstep.locations]; exact hrest))

/-- The work on nodes changes no node and no placement. -/
theorem cleanOrphans_spec : (s.cleanOrphans k orphans).1.cluster.nodes = s.cluster.nodes ∧
    (s.cleanOrphans k orphans).1.cluster.membership = s.cluster.membership ∧
    (s.cleanOrphans k orphans).1.cluster.urls = s.cluster.urls ∧
    (s.cleanOrphans k orphans).1.silent = s.silent ∧
    (s.cleanOrphans k orphans).1.locations = s.locations := by
  induction orphans generalizing s k with
  | nil => exact ⟨rfl, rfl, rfl, rfl, rfl⟩
  | cons o orphans ih =>
      unfold cleanOrphans
      split_ifs with hblank
      · exact ih
      · split
        · exact ⟨rfl, rfl, rfl, rfl, rfl⟩
        · exact ih

/-! ## Convergence -/

/-- A node that is reached does not answer that it lacks a block that the URL leads to just when it has
it. -/
theorem hasBlock_ne_false (hb : s.Carries b) (hreach : s.cluster.reaches s.silent n = true) :
    s.hasBlock n b ≠ some false ↔ ∃ row, s.readRow b n = some row := by
  rw [← hasBlock_eq_true_iff hb, hasBlock_eq hb, if_pos hreach]
  cases ((s.cluster.nodes n).liveRow b).isSome <;> simp

/-- Nodes that are reached have the blocks that are placed on them, if the URLs lead to these. -/
theorem Consistent.held (h : s.Consistent) {L : List String} (hL : s.locations b = some L)
    (hn : n ∈ L) (hb : s.Carries b) (hreach : s.cluster.reaches s.silent n = true) :
    ∃ row, s.readRow b n = some row :=
  (hasBlock_ne_false hb hreach).mp (h.answered b L hL n hn)

theorem mismatches_eq_nil : s.mismatches = ⟨[], []⟩ ↔
    s.mismatches.metadataOnly = [] ∧ s.mismatches.blockOnly = [] := by
  rcases s.mismatches with ⟨metadataOnly, blockOnly⟩
  simp

theorem detectMismatches_of_consistent (h : s.Consistent) :
    s.detectMismatches = .ok ⟨[], []⟩ := by
  refine detectMismatches_eq_ok.mpr ⟨h.valid, h.taken, mismatches_eq_nil.mpr
    ⟨metadataOnly_eq_nil.mpr fun b L hL n hn => ?_, blockOnly_eq_nil.mpr h.placed⟩⟩
  exact ⟨(h.inverse n b).mpr ⟨L, hL, hn⟩, h.answered b L hL n hn⟩

/-- A reconciliation that finds nothing does nothing. -/
theorem reconcile_of_nil (h : s.detectMismatches = .ok ⟨[], []⟩) :
    s.reconcile = (s, .ok ⟨0, 0, 0, 0⟩) := by
  unfold reconcile
  simp only [h, rebuildPlacements, cleanOrphans, List.length_nil]

/-- What can be reported of the blocks of the nodes stays through a reconciliation, and with it, where
there was nothing of the kind, the inventories. -/
theorem undisturbed_of_blockOnly {report : ReconcileReport} (hok : s.reconcile.2 = .ok report)
    (hblocks : s.reconcile.1.mismatches.blockOnly = []) :
    s.detectMismatches = .ok s.mismatches ∧ Undisturbed s s.reconcile.1 := by
  have hrebuild : Undisturbed s (s.rebuildPlacements 0 s.mismatches.metadataOnly).1 :=
    undisturbed_rebuildPlacements fun o ho => mem_locations_of_metadataOnly ho
  unfold reconcile at hok hblocks ⊢
  rcases hdetect : s.detectMismatches with e | found
  · rw [hdetect] at hok
    cases hok
  · obtain rfl := (detectMismatches_eq_ok.mp hdetect).2.2
    refine ⟨rfl, ?_⟩
    rw [hdetect] at hok hblocks
    simp only at hok hblocks ⊢
    rcases hres : s.rebuildPlacements 0 s.mismatches.metadataOnly with ⟨s₁, e | rebuilt⟩
    · rw [hres] at hok
      cases hok
    · rw [hres] at hrebuild hok hblocks
      simp only at hrebuild hok hblocks ⊢
      rcases hres' : s₁.cleanOrphans 0 s.mismatches.blockOnly with ⟨s₂, e | cleaned⟩
      · rw [hres'] at hok
        cases hok
      · have hclean := @cleanOrphans_spec s₁ s.mismatches.blockOnly 0
        rw [hres'] at hclean hblocks
        simp only at hclean hblocks ⊢
        obtain ⟨hnodes, hmembership, hurls, hsilent, hlocations⟩ := hclean
        have hread : s₂.readRow = s.readRow := by
          funext b n
          unfold readRow Cluster.reaches Cluster.address
          rw [hnodes, hmembership, hurls, hsilent, hrebuild.nodes, hrebuild.membership,
            hrebuild.urls, hrebuild.silent]
        have hnone : s.mismatches.blockOnly = [] := by
          rw [blockOnly_eq_nil, hread, hmembership, hrebuild.membership, hlocations,
            hrebuild.locations] at hblocks
          exact blockOnly_eq_nil.mpr hblocks
        rw [hnone] at hres'
        obtain ⟨rfl, -⟩ := Prod.mk.inj hres'
        exact hrebuild

/-- A node that is up. -/
def oneUp : MembershipRegistry := MembershipRegistry.empty.register "node1" "127.0.0.1:8001" 1000

theorem named_oneUp : oneUp.nodes.get? "" = none := by decide +kernel

/-- A node that is up, with a block. -/
def oneNode (placement : Placement) : RepairState where
  cluster := ⟨oneUp, placement, fun nodeId => (LocalEngine.empty nodeId).call
    (.writeLocal "a" "x" (.resolve (some 1)) none none), .plain⟩
  silent := []
  policy := ⟨0⟩
  jobs := Table.empty
  named := named_oneUp

/-- The block is placed on the node. -/
def placedThere : Placement :=
  ⟨.registerBlock .empty "a" 1 ["node1"], .addBlock .empty "node1" "a",
    { MetadataStore.empty with blocks := Dict.empty.set "a" ⟨1, {"node1"}⟩ }⟩

theorem locations_placedThere {L : List String} (h : (oneNode placedThere).locations b = some L) :
    b = "a" ∧ L = ["node1"] := by
  unfold oneNode placedThere locations at h
  simp only [PlacementRegistry.getBlockLocations_registerBlock] at h
  split_ifs at h with hb
  · exact ⟨hb, (Option.some.inj h).symm⟩
  · cases h

end RepairState

end NanoFabric.Repair
