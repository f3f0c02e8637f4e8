import Mathlib.Logic.Function.Basic
import NanoFabric.Metadata.StateMachine

/-!
# What a log does to placements

`PlacementView` is what can be read of a `Placement`, block by block and node by node, and
`PlacementView.apply` what a command does to it. `view_apply` shows that the state machine refines
it whatever its clock shows, so that a node without other writers shows `viewOf` of the entries it
has applied.
-/

namespace NanoFabric.Metadata

open NanoFabric.Found

/-- What can be read of placements: the nodes and the version of each block in memory, the blocks of
each node's inventory, and the durable row of each block. -/
@[ext]
structure PlacementView where
  locations : String → Option (List String)
  versions : String → Option ℤ
  inventory : String → Finset String
  rows : String → Option BlockRow

/-- What can be read of a placement. -/
def Placement.view (p : Placement) : PlacementView where
  locations := p.registry.getBlockLocations
  versions := p.registry.getBlockVersion
  inventory := p.inventory.getInventory
  rows := p.store.blocks.get?

namespace PlacementView

/-- The view of no placements. -/
def empty : PlacementView := ⟨fun _ => none, fun _ => none, fun _ => ∅, fun _ => none⟩

/-- A block allocated on `nodes`: they list it, and no node stops to. -/
def allocate (w : PlacementView) (b : String) (v : ℤ) (nodes : List String) : PlacementView where
  locations := Function.update w.locations b (some nodes)
  versions := Function.update w.versions b (some v)
  inventory n := if n ∈ nodes then insert b (w.inventory n) else w.inventory n
  rows := Function.update w.rows b (some ⟨v, nodes.toFinset⟩)

/-- A block placed on `nodes`: the new ones among them list it, and those it leaves stop to. -/
def place (w : PlacementView) (b : String) (v : ℤ) (nodes : List String) : PlacementView where
  locations := Function.update w.locations b (some nodes)
  versions := Function.update w.versions b (some v)
  inventory n :=
    if n ∈ nodes then
      if n ∈ (w.locations b).getD [] then w.inventory n else insert b (w.inventory n)
    else if n ∈ (w.locations b).getD [] then (w.inventory n).erase b else w.inventory n
  rows := Function.update w.rows b (some ⟨v, nodes.toFinset⟩)

section

variable (w : PlacementView) (b b' : String) (v : ℤ) (nodes : List String) (n : String)

theorem locations_allocate : (w.allocate b v nodes).locations b' =
    if b' = b then some nodes else w.locations b' :=
  Function.update_apply _ _ _ _

theorem versions_allocate : (w.allocate b v nodes).versions b' =
    if b' = b then some v else w.versions b' :=
  Function.update_apply _ _ _ _

theorem rows_allocate : (w.allocate b v nodes).rows b' =
    if b' = b then some ⟨v, nodes.toFinset⟩ else w.rows b' :=
  Function.update_apply _ _ _ _

theorem mem_inventory_allocate : b' ∈ (w.allocate b v nodes).inventory n ↔
    b' ∈ w.inventory n ∨ (b' = b ∧ n ∈ nodes) := by
  unfold allocate
  by_cases hn : n ∈ nodes
  · simp [hn, or_comm]
  · simp [hn]

theorem locations_place : (w.place b v nodes).locations b' =
    if b' = b then some nodes else w.locations b' :=
  Function.update_apply _ _ _ _

theorem versions_place : (w.place b v nodes).versions b' =
    if b' = b then some v else w.versions b' :=
  Function.update_apply _ _ _ _

theorem rows_place : (w.place b v nodes).rows b' =
    if b' = b then some ⟨v, nodes.toFinset⟩ else w.rows b' :=
  Function.update_apply _ _ _ _

theorem mem_inventory_place : b' ∈ (w.place b v nodes).inventory n ↔
    (b' ∈ w.inventory n ∧ ¬ (b' = b ∧ n ∈ (w.locations b).getD [] ∧ n ∉ nodes)) ∨
      (b' = b ∧ n ∈ nodes ∧ n ∉ (w.locations b).getD []) := by
  unfold place
  by_cases hn : n ∈ nodes
  · by_cases hold : n ∈ (w.locations b).getD []
    · simp [hn, hold]
    · simp [hn, hold, or_comm]
  · by_cases hold : n ∈ (w.locations b).getD []
    · simp [hn, hold, and_comm]
    · simp [hn, hold]

end

/-- What a command does to placements. -/
def apply (w : PlacementView) : Command → PlacementView
  | .allocateBlock b v nodes =>
      if Placement.Fits (v.getD 1) nodes then w.allocate b (v.getD 1) nodes else w
  | .updatePlacement b v nodes => if Placement.Fits v nodes then w.place b v nodes else w
  | _ => w

end PlacementView

/-- What the entries of a log leave of placements. -/
def viewOf (log : List Command) : PlacementView := log.foldl PlacementView.apply .empty

theorem viewOf_append (log : List Command) (c : Command) :
    viewOf (log ++ [c]) = (viewOf log).apply c := by
  unfold viewOf
  rw [List.foldl_append]
  rfl

/-! ## The state machine refines the view -/

namespace Placement

theorem view_allocate {p p' : Placement} {b : String} {v : ℤ} {nodes : List String}
    (h : p.allocate b v nodes = .ok p') : p'.view = p.view.allocate b v nodes := by
  by_cases hfits : Fits v nodes
  · rw [allocate_of_fits hfits] at h
    obtain rfl := Except.ok.inj h
    apply PlacementView.ext
    · funext b'
      simp [view, PlacementView.allocate, Function.update_apply]
    · funext b'
      simp [view, PlacementView.allocate, Function.update_apply]
    · funext n
      ext b'
      simp only [view, PlacementView.allocate]
      rw [NodeInventory.mem_foldl_addBlock]
      by_cases hn : n ∈ nodes
      · rw [if_pos hn, Finset.mem_insert, or_comm]
        simp [hn]
      · rw [if_neg hn]
        simp [hn]
    · funext b'
      simp [view, PlacementView.allocate, Function.update_apply, Dict.get?_set]
  · obtain ⟨e, he⟩ := allocate_of_not_fits (p := p) (b := b) hfits
    rw [he] at h
    cases h

theorem view_update {p p' : Placement} {b : String} {v : ℤ} {nodes : List String}
    (h : p.update b v nodes = .ok p') : p'.view = p.view.place b v nodes := by
  by_cases hfits : Fits v nodes
  · rw [update_of_fits hfits] at h
    obtain rfl := Except.ok.inj h
    apply PlacementView.ext
    · funext b'
      simp [view, PlacementView.place, Function.update_apply]
    · funext b'
      simp [view, PlacementView.place, Function.update_apply]
    · funext n
      ext b'
      simp only [view, PlacementView.place]
      rw [NodeInventory.mem_foldl_addBlock, NodeInventory.mem_foldl_removeBlock]
      simp only [List.mem_filter, decide_eq_true_eq]
      split_ifs <;> simp_all [and_comm, or_comm]
    · funext b'
      simp [view, PlacementView.place, Function.update_apply, Dict.get?_set]
  · obtain ⟨e, he⟩ := update_of_not_fits (p := p) (b := b) hfits
    rw [he] at h
    cases h

end Placement

namespace RaftStateMachine

theorem view_withPlacement (m : RaftStateMachine) (e : Except StoreError Placement)
    (h : ∀ p, e = .ok p → p.view = m.placement.view) :
    (m.withPlacement e).placement.view = m.placement.view := by
  cases e with
  | error e => rfl
  | ok p => exact h p rfl

theorem view_upsertNode (m : RaftStateMachine) (n : String) (t : ℤ) (stats : Option NodeStats) :
    (m.upsertNode n t stats).placement.view = m.placement.view := by
  apply view_withPlacement
  intro p hp
  unfold MetadataStore.upsertNode at hp
  simp only at hp
  split at hp
  · obtain rfl := Except.ok.inj hp
    rfl
  · cases hp

/-- What a command does to the placements of a machine, whatever the machine reads of its clock. -/
theorem view_apply (r : Readings) (m : RaftStateMachine) (c : Command) :
    (apply r m c).placement.view = m.placement.view.apply c := by
  cases c with
  | registerNode => exact view_upsertNode _ _ _ _
  | updateHeartbeat n t b u l =>
      unfold apply applyHeartbeat
      simp only
      split
      · rfl
      · exact view_upsertNode _ _ _ _
  | allocateBlock b v nodes =>
      unfold apply applyAllocate PlacementView.apply
      simp only
      by_cases hfits : Placement.Fits (v.getD 1) nodes
      · rw [if_pos hfits, Placement.allocate_of_fits hfits]
        exact Placement.view_allocate (Placement.allocate_of_fits hfits)
      · obtain ⟨e, he⟩ := Placement.allocate_of_not_fits (p := m.placement) (b := b) hfits
        rw [if_neg hfits, he]
        rfl
  | updatePlacement b v nodes =>
      unfold apply applyPlacement PlacementView.apply
      simp only
      by_cases hfits : Placement.Fits v nodes
      · rw [if_pos hfits, Placement.update_of_fits hfits]
        exact Placement.view_update (Placement.update_of_fits hfits)
      · obtain ⟨e, he⟩ := Placement.update_of_not_fits (p := m.placement) (b := b) hfits
        rw [if_neg hfits, he]
        rfl
  | createRepair p =>
      unfold apply applyCreateRepair
      simp only
      split
      · rfl
      · split <;> rfl
  | _ => rfl

end RaftStateMachine

end NanoFabric.Metadata
