import NanoFabric.Found.Runs
import NanoFabric.Metadata.ReplicaAgreement

/-!
# Calls of the placement service

The five operations of the placement service that change placements, in any order and with any
arguments, from a service with an empty database.

* `PlacementView.InStep` — the registry, the inverse index and the store agree, block by block and
  node by node; `inStep_of_calls` has it after every call, where a call that raises changes none of
  the three.
* `Placement.Recovers` — what a restart reads back is what was there. `recovers_iff_keepsNode` has it
  after every call of a run just when no call leaves a known block without a node: the store keeps
  the nodes of a block as rows of `placements`, so that a block without nodes is read back as unknown.
-/

namespace NanoFabric.Metadata

open NanoFabric.Found
open NanoFabric.Node (Bindable)

/-! ## The service -/

/-- The placements without a block, and whether the block was deleted.
Source: `metadata/placement_service.py`, `delete_block`. -/
def Placement.deleteBlock (p : Placement) (blockId : String) : Placement × Bool :=
  match p.registry.getBlockLocations blockId with
  | none => (p, false)
  | some locations =>
      let (store, deleted) := p.store.deleteBlock blockId
      if deleted then
        (⟨(p.registry.deleteBlock blockId).1,
          locations.foldl (fun i nodeId => i.removeBlock nodeId blockId) p.inventory, store⟩, true)
      else ({ p with store := store }, false)

/-- What a call raises. -/
inductive CallError
  /-- A `BlockAlreadyExistsError`. -/
  | blockAlreadyExists (message : String)
  /-- An `InsufficientNodesError`. -/
  | insufficientNodes (message : String)
  /-- A `ValueError`. -/
  | value (message : String)
  | service (e : Placement.ServiceError)
deriving DecidableEq, Repr

/-- The membership registry is shared with the failure detector, and each call reads it as it is.
Source: `metadata/placement_service.py`, `PlacementService`. -/
@[ext]
structure PlacementService where
  placement : Placement
  policy : RoundRobinPlacementPolicy
deriving DecidableEq

/-- A call that changes placements. -/
inductive PlacementCall
  | allocateBlock (blockId : String) (rf version : ℤ)
  | updateBlockPlacement (blockId : String) (nodes : List String) (version : ℤ)
  | replaceReplica (blockId oldNode newNode : String) (version : ℤ)
  | removeExtraReplica (blockId extraNode : String) (version : ℤ)
  | deleteBlock (blockId : String)
deriving DecidableEq, Repr

namespace PlacementService

/-- The service of a node with an empty database. -/
def init : PlacementService := ⟨.empty, ⟨0⟩⟩

/-- The policy has moved on when the store raises.
Source: `metadata/placement_service.py`, `allocate_block`. -/
def allocateBlock (s : PlacementService) (membership : MembershipRegistry) (blockId : String)
    (rf version : ℤ) : PlacementService × Except CallError (List String) :=
  if s.placement.registry.blockExists blockId then
    (s, .error (.blockAlreadyExists ("Block '" ++ blockId ++ "' already allocated")))
  else
    let healthy := membership.healthyNodes
    if (healthy.length : ℤ) < rf then
      (s, .error (.insufficientNodes ("Need " ++ toString rf ++ " healthy nodes but only " ++
        toString healthy.length ++ " available")))
    else
      match s.policy.selectNodes healthy rf.toNat with
      | .error message => (s, .error (.value message))
      | .ok (nodes, policy) =>
          match s.placement.allocate blockId version nodes with
          | .error e => ({ s with policy := policy }, .error (.service (.store e)))
          | .ok placement => (⟨placement, policy⟩, .ok nodes)

/-- The service after a call that leaves its policy alone, and what the call raises. -/
def withPlacement (s : PlacementService) (r : Except Placement.ServiceError Placement) :
    PlacementService × Option CallError :=
  match r with
  | .error e => (s, some (.service e))
  | .ok placement => ({ s with placement := placement }, none)

/-- The service after a call, and what the call raises. -/
def call (s : PlacementService) (membership : MembershipRegistry) :
    PlacementCall → PlacementService × Option CallError
  | .allocateBlock b rf v =>
      let (s', r) := s.allocateBlock membership b rf v
      match r with
      | .error e => (s', some e)
      | .ok _ => (s', none)
  | .updateBlockPlacement b nodes v =>
      s.withPlacement (s.placement.updateBlockPlacement b nodes v)
  | .replaceReplica b oldNode newNode v =>
      s.withPlacement (s.placement.replaceReplica b oldNode newNode v)
  | .removeExtraReplica b extraNode v =>
      s.withPlacement (s.placement.removeExtraReplica b extraNode v)
  | .deleteBlock b => ({ s with placement := (s.placement.deleteBlock b).1 }, none)

/-- One call, with the membership that it finds. -/
def step (s : PlacementService) (ev : MembershipRegistry × PlacementCall) :
    Option PlacementService :=
  some (s.call ev.1 ev.2).1

end PlacementService

/-! ## What can be read after a call -/

namespace PlacementView

/-- A block is gone, and the nodes that had it no longer list it. -/
def remove (w : PlacementView) (b : String) : PlacementView where
  locations := Function.update w.locations b none
  versions := Function.update w.versions b none
  inventory n := if n ∈ (w.locations b).getD [] then (w.inventory n).erase b else w.inventory n
  rows := Function.update w.rows b none

/-- The nodes of a block are those of its row, the versions are the same, and each node lists the
blocks that are placed on it. -/
structure InStep (w : PlacementView) : Prop where
  nodes : ∀ b, (w.locations b).map List.toFinset = (w.rows b).map BlockRow.nodes
  version : ∀ b, w.versions b = (w.rows b).map BlockRow.version
  inverse : ∀ b n, b ∈ w.inventory n ↔ ∃ nodes, w.locations b = some nodes ∧ n ∈ nodes

variable {w : PlacementView} {b : String} {v : ℤ} {nodes : List String}

theorem inStep_empty : InStep .empty where
  nodes _ := rfl
  version _ := rfl
  inverse _ _ := by simp [empty]

/-- An unknown block is placed as a known one is. -/
theorem allocate_eq_place (h : w.locations b = none) : w.allocate b v nodes = w.place b v nodes := by
  unfold allocate place
  simp [h]

theorem InStep.place (h : w.InStep) : (w.place b v nodes).InStep where
  nodes b' := by
    rw [locations_place, rows_place]
    by_cases hb : b' = b
    · rw [if_pos hb, if_pos hb]
      rfl
    · rw [if_neg hb, if_neg hb]
      exact h.nodes b'
  version b' := by
    rw [versions_place, rows_place]
    by_cases hb : b' = b
    · rw [if_pos hb, if_pos hb]
      rfl
    · rw [if_neg hb, if_neg hb]
      exact h.version b'
  inverse b' n := by
    rw [mem_inventory_place, locations_place]
    by_cases hb : b' = b
    · subst hb
      rw [if_pos rfl, h.inverse]
      rcases hold : w.locations b' with _ | old
      · simp
      · simp only [true_and, Option.some.injEq, exists_eq_left', Option.getD_some]
        tauto
    · simp only [hb, false_and, not_false_eq_true, and_true, or_false, if_false]
      exact h.inverse b' n

theorem InStep.remove (h : w.InStep) : (w.remove b).InStep where
  nodes b' := by
    unfold PlacementView.remove
    simp only [Function.update_apply]
    split
    · rfl
    · exact h.nodes b'
  version b' := by
    unfold PlacementView.remove
    simp only [Function.update_apply]
    split
    · rfl
    · exact h.version b'
  inverse b' n := by
    unfold PlacementView.remove
    simp only [Function.update_apply]
    by_cases hb : b' = b
    · subst hb
      rw [if_pos rfl]
      refine iff_of_false (fun hmem => ?_) (by simp)
      split_ifs at hmem with hn
      · exact Finset.notMem_erase _ _ hmem
      · obtain ⟨old, hold, hmem⟩ := (h.inverse b' n).mp hmem
        exact hn (by rwa [hold])
    · rw [if_neg hb, ← h.inverse]
      split
      · simp [hb]
      · rfl

end PlacementView

namespace Placement

variable {p p' : Placement} {b : String} {v : ℤ} {nodes : List String}

theorem blockExists_iff : p.registry.blockExists b = true ↔
    ∃ nodes, p.view.locations b = some nodes :=
  Option.isSome_iff_exists

theorem locations_eq_none (h : ¬ p.registry.blockExists b = true) : p.view.locations b = none := by
  rw [blockExists_iff] at h
  exact Option.eq_none_iff_forall_ne_some.mpr fun nodes hnodes => h ⟨nodes, hnodes⟩

/-- A placement that is updated was known, and the store takes the new one. -/
theorem updateBlockPlacement_eq_ok (h : p.updateBlockPlacement b nodes v = .ok p') :
    p.registry.blockExists b = true ∧ Bindable v ∧ p'.view = p.view.place b v nodes := by
  by_cases hfits : Fits v nodes
  · unfold updateBlockPlacement at h
    split_ifs at h with hb
    rw [update_of_fits hfits] at h
    obtain rfl := Except.ok.inj h
    exact ⟨hb, hfits.1, view_update (update_of_fits hfits)⟩
  · obtain ⟨e, he⟩ := updateBlockPlacement_of_not_fits (p := p) (b := b) hfits
    rw [he] at h
    cases h

/-- A node that replaces another leaves a node. -/
theorem replaced_ne_nil (locations : List String) (oldNode newNode : String) :
    replaced locations oldNode newNode ≠ [] := by
  unfold replaced
  split_ifs with h
  · exact List.append_ne_nil_of_right_ne_nil _ (List.cons_ne_nil _ _)
  · rintro hnil
    rw [List.map_eq_nil_iff] at hnil
    exact h (by simp [hnil])

/-- A block that is deleted is gone. -/
theorem view_deleteBlock (h : p.view.InStep) :
    (p.deleteBlock b).1 = p ∨ (p.deleteBlock b).1.view = p.view.remove b := by
  unfold deleteBlock
  rcases hloc : p.registry.getBlockLocations b with _ | locations
  · exact .inl rfl
  · -- the store has every block that the registry has
    have hrow : p.store.blocks.contains b = true := by
      have hnodes := h.nodes b
      rw [show p.view.locations b = some locations from hloc] at hnodes
      obtain ⟨row, hget, -⟩ := Option.map_eq_some_iff.mp hnodes.symm
      exact Option.isSome_iff_exists.mpr ⟨row, hget⟩
    have hreg : p.registry.blocks.contains b = true := Option.isSome_iff_exists.mpr ⟨_, hloc⟩
    simp only [MetadataStore.deleteBlock, PlacementRegistry.deleteBlock, hrow, hreg, if_true]
    right
    apply PlacementView.ext
    · funext b'
      exact Dict.get?_erase.trans (Function.update_apply _ _ _ _).symm
    · funext b'
      exact Dict.get?_erase.trans (Function.update_apply _ _ _ _).symm
    · funext n
      ext b'
      simp only [view, PlacementView.remove, hloc, Option.getD_some]
      rw [NodeInventory.mem_foldl_removeBlock]
      split
      · simp_all [and_comm]
      · simp_all
    · funext b'
      exact Dict.get?_erase.trans (Function.update_apply _ _ _ _).symm

end Placement

namespace RoundRobinPlacementPolicy

/-- A selection has a node. -/
theorem selectNodes_ne_nil {p p' : RoundRobinPlacementPolicy} {available nodes : List String} {rf : ℕ}
    (h : p.selectNodes available rf = .ok (nodes, p')) : nodes ≠ [] := by
  have hselect := h
  unfold selectNodes at h
  split_ifs at h with hempty hrf hlen
  obtain ⟨-, rfl⟩ := selectNodes_eq_ok hselect
  have hring : available.insertionSort (· ≤ ·) ≠ [] := by
    rw [← List.length_pos_iff, List.length_insertionSort]
    exact List.length_pos_of_ne_nil hempty
  intro hnil
  have hlength := length_window hring (p.counter % available.length).toNat rf
  rw [hnil] at hlength
  exact hrf (hlength ▸ Nat.zero_lt_one)

end RoundRobinPlacementPolicy

namespace PlacementService

variable {s : PlacementService} {m : MembershipRegistry} {c : PlacementCall}

/-- The call leaves a known block without a node. -/
def Empties (s : PlacementService) : PlacementCall → Prop
  | .updateBlockPlacement b nodes v =>
      s.placement.registry.blockExists b = true ∧ nodes = [] ∧ Bindable v
  | .removeExtraReplica b extraNode v =>
      (∃ locations, s.placement.registry.getBlockLocations b = some locations ∧ locations ≠ [] ∧
        ∀ n ∈ locations, n = extraNode) ∧ Bindable v
  | _ => False

/-- What a call is told: it raises or not, and the placements are as before, or a block is placed on
nodes, or it is deleted. -/
inductive Effect (s : PlacementService) (c : PlacementCall) :
    PlacementService × Option CallError → Prop
  | raised {policy : RoundRobinPlacementPolicy} (e : CallError) :
      Effect s c (⟨s.placement, policy⟩, some e)
  | kept : Effect s c (s, none)
  | placed {s' : PlacementService} (b : String) (v : ℤ) (nodes : List String)
      (hview : s'.placement.view = s.placement.view.place b v nodes)
      (hnodes : nodes = [] → s.Empties c) : Effect s c (s', none)
  | removed {s' : PlacementService} (b : String)
      (hview : s'.placement.view = s.placement.view.remove b) : Effect s c (s', none)

theorem effect_allocateBlock (b : String) (rf v : ℤ) :
    Effect s (.allocateBlock b rf v) (s.call m (.allocateBlock b rf v)) := by
  simp only [call, allocateBlock]
  by_cases hb : s.placement.registry.blockExists b = true
  · simp only [hb, if_true]
    exact .raised _
  · simp only [hb]
    by_cases hrf : (m.healthyNodes.length : ℤ) < rf
    · simp only [hrf, if_true]
      exact .raised _
    · simp only [hrf, if_false]
      rcases hselect : s.policy.selectNodes m.healthyNodes rf.toNat with e | ⟨nodes, policy⟩
      · exact .raised _
      · simp only
        rcases hput : s.placement.allocate b v nodes with e | p
        · exact .raised _
        · refine .placed b v nodes ?_ fun hnil => ?_
          · rw [← PlacementView.allocate_eq_place (Placement.locations_eq_none hb)]
            exact Placement.view_allocate hput
          · exact absurd hnil (RoundRobinPlacementPolicy.selectNodes_ne_nil hselect)

/-- The call that `update_block_placement` ends is told what it stores. -/
theorem effect_updateBlockPlacement (b : String) (nodes : List String) (v : ℤ)
    (hnodes : nodes = [] → s.placement.registry.blockExists b = true → Bindable v → s.Empties c) :
    Effect s c (s.withPlacement (s.placement.updateBlockPlacement b nodes v)) := by
  rcases hput : s.placement.updateBlockPlacement b nodes v with e | p
  · exact .raised _
  · obtain ⟨hb, hv, hview⟩ := Placement.updateBlockPlacement_eq_ok hput
    exact .placed b v nodes hview fun hnil => hnodes hnil hb hv

theorem effect_call (h : s.placement.view.InStep) (m : MembershipRegistry) (c : PlacementCall) :
    Effect s c (s.call m c) := by
  cases c with
  | allocateBlock b rf v => exact effect_allocateBlock b rf v
  | updateBlockPlacement b nodes v =>
      exact effect_updateBlockPlacement b nodes v fun hnil hb hv => ⟨hb, hnil, hv⟩
  | replaceReplica b oldNode newNode v =>
      simp only [call]
      rcases hloc : s.placement.registry.getBlockLocations b with _ | locations
      · rw [Placement.replaceReplica_of_none hloc]
        exact .raised _
      · rw [Placement.replaceReplica_of_some hloc]
        exact effect_updateBlockPlacement b _ v fun hnil =>
          absurd hnil (Placement.replaced_ne_nil _ _ _)
  | removeExtraReplica b extraNode v =>
      simp only [call]
      rcases hloc : s.placement.registry.getBlockLocations b with _ | locations
      · rw [Placement.removeExtraReplica_of_none hloc]
        exact .raised _
      · by_cases hextra : extraNode ∈ locations
        · rw [Placement.removeExtraReplica_of_mem hloc hextra]
          refine effect_updateBlockPlacement b _ v fun hnil _ hv => ⟨⟨locations, hloc, ?_, ?_⟩, hv⟩
          · exact List.ne_nil_of_mem hextra
          · intro n hn
            simpa using List.filter_eq_nil_iff.mp hnil n hn
        · rw [Placement.removeExtraReplica_of_notMem hloc hextra]
          exact .kept
  | deleteBlock b =>
      simp only [call]
      rcases Placement.view_deleteBlock (b := b) h with hkept | hview
      · rw [hkept]
        exact .kept
      · exact .removed b hview

/-! ## The structures stay in step -/

/-- The registry, the inverse index and the store of a service are in step. -/
def InStep (s : PlacementService) : Prop := s.placement.view.InStep

/-- A call that raises leaves the registry, the inverse index and the store as they were. -/
def Untouched (s : PlacementService) (ev : MembershipRegistry × PlacementCall) : Prop :=
  (s.call ev.1 ev.2).2 = none ∨ (s.call ev.1 ev.2).1.placement = s.placement

theorem Effect.inStep {r : PlacementService × Option CallError} (he : Effect s c r) (h : s.InStep) :
    r.1.InStep := by
  cases he with
  | raised e => exact h
  | kept => exact h
  | placed b v nodes hview hnodes =>
      unfold InStep
      rw [hview]
      exact PlacementView.InStep.place h
  | removed b hview =>
      unfold InStep
      rw [hview]
      exact PlacementView.InStep.remove h

theorem Effect.untouched {r : PlacementService × Option CallError} (he : Effect s c r) :
    r.2 = none ∨ r.1.placement = s.placement := by
  cases he with
  | raised e => exact .inr rfl
  | kept => exact .inl rfl
  | placed b v nodes hview hnodes => exact .inl rfl
  | removed b hview => exact .inl rfl

theorem inStep_init : init.InStep := PlacementView.inStep_empty

theorem InStep.step {s' : PlacementService} {ev : MembershipRegistry × PlacementCall} (h : s.InStep)
    (hstep : s.step ev = some s') : s'.InStep :=
  Option.some.inj hstep ▸ (effect_call h ev.1 ev.2).inStep h

/-- After every call the three structures are in step, and a call that raises changes none. -/
theorem inStep_of_calls (evs : List (MembershipRegistry × PlacementCall)) :
    Throughout step InStep init evs ∧ StepsMeet step Untouched init evs := by
  constructor
  · exact throughout_of_invariant (fun s ev s' => InStep.step) inStep_init
  · exact stepsMeet_of_invariant (fun s ev h => (effect_call h ev.1 ev.2).untouched)
      (fun s ev s' => InStep.step) inStep_init

end PlacementService

/-! ## Restarts -/

/-- What a restart reads from the store is what was there: the known blocks, the nodes and the
version of each, and the inventories. -/
structure Placement.Recovers (p : Placement) : Prop where
  known : ∀ b, (recover p.store).registry.blockExists b = p.registry.blockExists b
  nodes : ∀ b, ((recover p.store).registry.getBlockLocations b).map List.toFinset =
    (p.registry.getBlockLocations b).map List.toFinset
  version : ∀ b, (recover p.store).registry.getBlockVersion b = p.registry.getBlockVersion b
  inventory : ∀ n, (recover p.store).inventory.getInventory n = p.inventory.getInventory n

/-- Placements in step are recovered just when no known block is without a node. -/
theorem Placement.recovers_iff {p : Placement} (h : p.view.InStep) :
    p.Recovers ↔ ∀ b, p.registry.getBlockLocations b ≠ some [] := by
  constructor
  · intro hrec b hb
    have hknown := (hrec.known b).trans (blockExists_of_getBlockLocations hb)
    obtain ⟨nodes, hnodes⟩ := Option.isSome_iff_exists.mp hknown
    obtain ⟨row, hrow, hne, -⟩ := (p.locations_recover b nodes).mp hnodes
    have hnodes := h.nodes b
    rw [show p.view.locations b = some [] from hb, hrow] at hnodes
    exact hne (Option.some.inj hnodes).symm
  · intro hne
    have hnodes : ∀ b, ((recover p.store).registry.getBlockLocations b).map List.toFinset =
        (p.registry.getBlockLocations b).map List.toFinset := by
      intro b
      refine Eq.trans ?_ (h.nodes b).symm
      rcases hrow : p.view.rows b with _ | row
      · rw [Option.map_none, Option.map_eq_none_iff, Option.eq_none_iff_forall_ne_some]
        intro nodes hnodes
        obtain ⟨row, hrow', -⟩ := (p.locations_recover b nodes).mp hnodes
        rw [hrow] at hrow'
        cases hrow'
      · have hrownodes : row.nodes ≠ ∅ := by
          have hnodes := h.nodes b
          rw [hrow] at hnodes
          obtain ⟨nodes, hloc, hrow'⟩ := Option.map_eq_some_iff.mp hnodes
          rw [← hrow', Ne, List.toFinset_eq_empty_iff]
          rintro rfl
          exact hne b hloc
        have hloc := (p.locations_recover b _).mpr ⟨row, hrow, hrownodes, rfl⟩
        rw [show (recover p.store).registry.getBlockLocations b = some _ from hloc]
        simp
    refine ⟨fun b => ?_, hnodes, fun b => ?_, fun n => ?_⟩
    · have hsome := congrArg Option.isSome (hnodes b)
      rwa [Option.isSome_map, Option.isSome_map] at hsome
    · exact (p.versions_recover b).trans (h.version b).symm
    · ext b
      refine (p.mem_inventory_recover b n).trans (Iff.trans ?_ (h.inverse b n).symm)
      have hnodes := h.nodes b
      constructor
      · rintro ⟨row, hrow, hn⟩
        rw [hrow] at hnodes
        obtain ⟨nodes, hloc, hrow'⟩ := Option.map_eq_some_iff.mp hnodes
        exact ⟨nodes, hloc, List.mem_toFinset.mp (hrow' ▸ hn)⟩
      · rintro ⟨nodes, hloc, hn⟩
        rw [hloc] at hnodes
        obtain ⟨row, hrow, hrow'⟩ := Option.map_eq_some_iff.mp hnodes.symm
        exact ⟨row, hrow, hrow' ▸ List.mem_toFinset.mpr hn⟩

namespace PlacementService

variable {s : PlacementService} {m : MembershipRegistry} {c : PlacementCall}

/-- The placements of a service are recovered. -/
def Recovers (s : PlacementService) : Prop := s.placement.Recovers

/-- The call leaves no known block without a node. -/
def KeepsNode (s : PlacementService) (ev : MembershipRegistry × PlacementCall) : Prop :=
  ¬ s.Empties ev.2

/-- A call that leaves no known block without a node keeps a node for each. -/
theorem Effect.locations_ne_nil {r : PlacementService × Option CallError} (he : Effect s c r)
    (hkeeps : ¬ s.Empties c) (hne : ∀ b, s.placement.view.locations b ≠ some []) (b : String) :
    r.1.placement.view.locations b ≠ some [] := by
  cases he with
  | raised e => exact hne b
  | kept => exact hne b
  | placed b' v nodes hview hnodes =>
      rw [hview, PlacementView.locations_place]
      split
      · exact fun hnil => hkeeps (hnodes (Option.some.inj hnil))
      · exact hne b
  | removed b' hview =>
      rw [hview]
      unfold PlacementView.remove
      simp only [Function.update_apply]
      split
      · exact Option.some_ne_none _ ∘ Eq.symm
      · exact hne b

/-- A call that is to leave a known block without a node does. -/
theorem Empties.call (h : s.Empties c) :
    ∃ b, (s.call m c).1.placement.registry.getBlockLocations b = some [] := by
  have hput : ∀ b v, s.placement.registry.blockExists b = true → Bindable v →
      (s.withPlacement (s.placement.updateBlockPlacement b [] v)).1.placement.registry.getBlockLocations
        b = some [] := by
    intro b v hb hv
    obtain ⟨p, hp, hreg⟩ := Placement.updateBlockPlacement_of_fits hb
      (show Placement.Fits v [] from ⟨hv, List.nodup_nil⟩)
    rw [hp]
    simp only [withPlacement, hreg, PlacementRegistry.getBlockLocations_registerBlock, if_true]
  cases c with
  | updateBlockPlacement b nodes v =>
      obtain ⟨hb, rfl, hv⟩ := h
      exact ⟨b, hput b v hb hv⟩
  | removeExtraReplica b extraNode v =>
      obtain ⟨⟨locations, hloc, hne, hall⟩, hv⟩ := h
      refine ⟨b, ?_⟩
      obtain ⟨n, hn⟩ := List.exists_mem_of_ne_nil locations hne
      have hnil : locations.filter (· ≠ extraNode) = [] := by
        rw [List.filter_eq_nil_iff]
        intro n' hn'
        simpa using hall n' hn'
      simp only [call]
      rw [Placement.removeExtraReplica_of_mem hloc (hall n hn ▸ hn), hnil]
      exact hput b v (Placement.blockExists_of_getBlockLocations hloc) hv
  | allocateBlock b rf v => cases h
  | replaceReplica b oldNode newNode v => cases h
  | deleteBlock b => cases h

/-- After every call of a run a restart reads back what was there just when no call leaves a known
block without a node. -/
theorem recovers_iff_keepsNode (evs : List (MembershipRegistry × PlacementCall)) :
    Throughout step Recovers init evs ↔ StepsMeet step KeepsNode init evs := by
  refine throughout_iff_stepsMeet
    (I := fun s => s.InStep ∧ ∀ b, s.placement.view.locations b ≠ some []) ?_ ?_ ?_ ?_
  · exact fun s h => (Placement.recovers_iff h.1).mpr h.2
  · rintro s ev s' ⟨h, hne⟩ hkeeps hstep
    refine ⟨h.step hstep, ?_⟩
    obtain rfl := Option.some.inj hstep
    exact (effect_call h ev.1 ev.2).locations_ne_nil hkeeps hne
  · rintro s ev s' ⟨h, -⟩ hempties hstep hrec
    have h' := h.step hstep
    obtain rfl := Option.some.inj hstep
    obtain ⟨b, hb⟩ := (not_not.mp hempties : s.Empties ev.2).call (m := ev.1)
    exact (Placement.recovers_iff h').mp hrec b hb
  · exact ⟨inStep_init, fun b hb => by cases hb⟩

/-- A membership of one node that is up. -/
def oneNode : MembershipRegistry := MembershipRegistry.empty.register "node1" "localhost" 1000

/-- A block of one replica loses it. -/
def emptied : List (MembershipRegistry × PlacementCall) :=
  [(oneNode, .allocateBlock "a" 1 1), (oneNode, .removeExtraReplica "a" "node1" 2)]

/-- A restart forgets the block, which the store still has. -/
theorem recovers_counterexample : ¬ ∀ evs : List (MembershipRegistry × PlacementCall),
    Throughout step Recovers init evs := by
  intro h
  have hrec : Recovers (emptied.foldl (fun s ev => (s.call ev.1 ev.2).1) init) :=
    (((h emptied).2 _ rfl).2 _ rfl)
  have hknown := hrec.known "a"
  revert hknown
  decide +kernel

end PlacementService

end NanoFabric.Metadata
