import NanoFabric.Found.Runs
import NanoFabric.Metadata.Connection

/-!
# Concurrent allocations

`/allocate` checks that a block has no placement and chooses its nodes, appends the entry that
places it to the log of its node, and answers when an entry at that index has committed. Here any
number of such requests and of other proposals run against one committed log, and every metadata
node applies that log at its own pace.

* `viewOf_of_unique` — what a log with one allocation a block leaves: each inventory lists the
  blocks placed on its node.
* `allocated_once` — in a run that commits no second allocation of a block, answers success for
  entries that have committed and applies no allocation inside a transaction, at most one request a
  block is told success, it is told the recorded nodes, and the inventories invert the placements.
* `allocated_once_counterexample` — two requests that check before either proposes.
-/

namespace NanoFabric.Metadata

open NanoFabric.Found
open NanoFabric.Node (Bindable)

/-! ## Logs of allocations -/

/-- The block that a command allocates, with its nodes. -/
def Command.allocation : Command → Option (String × List String)
  | .allocateBlock b _ nodes => some (b, nodes)
  | _ => none

/-- The allocations of a log, in order. -/
def allocations (log : List Command) : List (String × List String) :=
  log.filterMap Command.allocation

/-- A command that the endpoints of a metadata node propose: it never moves a placed block, and an
allocation is the first version of a block, on distinct nodes. -/
def Command.Proposed : Command → Prop
  | .allocateBlock _ v nodes => v = some 1 ∧ nodes.Nodup
  | .updatePlacement _ _ _ => False
  | _ => True

/-- A log of proposed commands with one allocation a block. -/
structure UniqueLog (log : List Command) : Prop where
  proposed : ∀ c ∈ log, c.Proposed
  once : ((allocations log).map Prod.fst).Nodup

theorem UniqueLog.of_append {log : List Command} {c : Command} (h : UniqueLog (log ++ [c])) :
    UniqueLog log where
  proposed c' hc' := h.proposed c' (List.mem_append_left _ hc')
  once := by
    refine h.once.sublist (List.Sublist.map _ ?_)
    exact (List.sublist_append_left log [c]).filterMap _

theorem UniqueLog.take {log : List Command} (h : UniqueLog log) (n : ℕ) : UniqueLog (log.take n) where
  proposed c hc := h.proposed c (List.mem_of_mem_take hc)
  once := h.once.sublist (((List.take_sublist n log).filterMap _).map _)

theorem bindable_first_version : Bindable 1 := by decide

/-- What is read of a view whose placements are `placed`. -/
structure PlacementView.Places (w : PlacementView) (placed : List (String × List String)) : Prop where
  locations : ∀ b nodes, w.locations b = some nodes ↔ (b, nodes) ∈ placed
  rows : ∀ b nodes, (b, nodes) ∈ placed → w.rows b = some ⟨1, nodes.toFinset⟩
  inventory : ∀ n b, b ∈ w.inventory n ↔ ∃ nodes, (b, nodes) ∈ placed ∧ n ∈ nodes

/-- A first allocation of a block adds it to what is read. -/
theorem PlacementView.Places.allocate {w : PlacementView} {placed : List (String × List String)}
    {b : String} {nodes : List String} (h : w.Places placed) (hb : b ∉ placed.map Prod.fst) :
    (w.allocate b 1 nodes).Places (placed ++ [(b, nodes)]) where
  locations b' nodes' := by
    rw [PlacementView.locations_allocate, List.mem_append, List.mem_singleton, Prod.mk.injEq]
    by_cases hb' : b' = b
    · have hnot : (b', nodes') ∉ placed := fun hmem => hb (hb' ▸ List.mem_map_of_mem hmem)
      simp [hb', hb' ▸ hnot, eq_comm]
    · simp [hb', h.locations]
  rows b' nodes' hmem := by
    rw [PlacementView.rows_allocate]
    rcases List.mem_append.mp hmem with hmem | hmem
    · have hb' : b' ≠ b := fun heq => hb (heq ▸ List.mem_map_of_mem hmem)
      rw [if_neg hb', h.rows b' nodes' hmem]
    · obtain ⟨rfl, rfl⟩ := Prod.mk.inj (List.mem_singleton.mp hmem)
      rw [if_pos rfl]
  inventory n b' := by
    rw [PlacementView.mem_inventory_allocate, h.inventory]
    simp only [List.mem_append, List.mem_singleton, Prod.mk.injEq, or_and_right, exists_or]
    apply or_congr_right
    constructor
    · rintro ⟨rfl, hn⟩
      exact ⟨nodes, ⟨rfl, rfl⟩, hn⟩
    · rintro ⟨nodes', ⟨rfl, rfl⟩, hn⟩
      exact ⟨rfl, hn⟩

/-- A log with one allocation a block leaves its allocations. -/
theorem viewOf_of_unique {log : List Command} (h : UniqueLog log) :
    (viewOf log).Places (allocations log) := by
  induction log using List.reverseRecOn with
  | nil => exact ⟨by simp [viewOf, PlacementView.empty, allocations],
      by simp [allocations], by simp [viewOf, PlacementView.empty, allocations]⟩
  | append_singleton log c ih =>
      have hlog := ih h.of_append
      have hc := h.proposed c (List.mem_append_right _ List.mem_cons_self)
      have happend : allocations (log ++ [c]) = allocations log ++ allocations [c] :=
        List.filterMap_append
      rw [viewOf_append, happend]
      cases c with
      | allocateBlock b v nodes =>
          obtain ⟨rfl, hnodup⟩ := hc
          have honce := h.once
          rw [happend, List.map_append, List.nodup_append] at honce
          have hnot : b ∉ (allocations log).map Prod.fst := fun hmem =>
            honce.2.2 b hmem b List.mem_cons_self rfl
          unfold PlacementView.apply
          simp only
          rw [if_pos ⟨bindable_first_version, hnodup⟩]
          exact hlog.allocate hnot
      | updatePlacement => exact hc.elim
      | _ =>
          rw [show allocations [_] = [] from rfl, List.append_nil]
          exact hlog

/-! ## The requests and the log -/

/-- A metadata node. -/
structure MetadataNode extends ConnectedMachine where
  /-- How many entries of the committed log it has applied. -/
  applied : ℕ
  policy : RoundRobinPlacementPolicy

/-- An `/allocate` request that has passed its checks. -/
structure Request where
  blockId : String
  nodes : List String

/-- The entry of a request, in the log of the node that proposed it. -/
structure Proposal where
  request : Request
  /-- The entries before it in that log. -/
  index : ℕ
  /-- It is this entry that has committed at its index, not one that overwrote it. -/
  committed : Bool

/-- The entry that places the block of a proposal. -/
def Proposal.entry (p : Proposal) : Command :=
  .allocateBlock p.request.blockId (some 1) p.request.nodes

/-- What a proposal places. -/
def Proposal.placed (p : Proposal) : String × List String := (p.request.blockId, p.request.nodes)

/-- The metadata nodes with the committed log, the requests that have passed their checks, the
proposals whose clients wait, and the successful answers. -/
structure Allocating (ν : Type) where
  log : List Command
  nodes : ν → MetadataNode
  pending : List Request
  proposed : List Proposal
  told : List (String × List String)

/-- A step. -/
inductive AllocationEvent (ν : Type)
  /-- A node checks a request and chooses the nodes. -/
  | check (n : ν) (blockId : String) (rf : ℕ)
  /-- The entry of the `i`-th request is appended to the log of its node. -/
  | propose (i index : ℕ)
  /-- The `i`-th request fails. -/
  | fail (i : ℕ)
  /-- The entry of the `j`-th proposal commits. -/
  | commit (j : ℕ)
  /-- The client of the `j`-th proposal is told success. -/
  | answer (j : ℕ)
  /-- The entry of another endpoint commits. -/
  | submit (c : Command)
  /-- A node applies its next entry. -/
  | apply (n : ν) (r : Readings)
  /-- The failure detector of a node runs. -/
  | checkFailures (n : ν) (failureTimeoutMs now : ℤ)

namespace Allocating

variable {ν : Type} [DecidableEq ν]

/-- Nodes with empty databases and an empty log. -/
def init : Allocating ν := ⟨[], fun _ => ⟨.empty, 0, ⟨0⟩⟩, [], [], []⟩

/-- The state with another node. -/
def setNode (s : Allocating ν) (n : ν) (x : MetadataNode) : Allocating ν :=
  { s with nodes := Function.update s.nodes n x }

theorem nodes_setNode (s : Allocating ν) (n m : ν) (x : MetadataNode) :
    (s.setNode n x).nodes m = if m = n then x else s.nodes m :=
  Function.update_apply _ _ _ _

/-- The first half of the endpoint, up to the proposal; a request that fails its checks changes
nothing.
Source: `metadata/app.py`, `allocate`. -/
def check (s : Allocating ν) (n : ν) (blockId : String) (rf : ℕ) : Allocating ν :=
  let x := s.nodes n
  let healthy := x.machine.membership.healthyNodes
  if x.machine.placement.registry.blockExists blockId then s
  else if healthy.length < rf then s
  else
    match x.policy.selectNodes healthy rf with
    | .error _ => s
    | .ok (nodes, policy) =>
        { s.setNode n { x with policy := policy } with pending := s.pending ++ [⟨blockId, nodes⟩] }

/-- Whether the other endpoints can propose a command. -/
def submittable : Command → Bool
  | .allocateBlock _ _ _ => false
  | .updatePlacement _ _ _ => false
  | _ => true

/-- One step. An entry commits where the committed log ends, and `propose` answers success as soon
as the commit index has reached the index of its entry, whatever the log holds there.
Source: `metadata/raft/node.py`, `propose`. -/
def step (s : Allocating ν) : AllocationEvent ν → Option (Allocating ν)
  | .check n blockId rf => some (s.check n blockId rf)
  | .propose i index =>
      (s.pending[i]?).map fun req =>
        { s with
          pending := s.pending.eraseIdx i
          proposed := s.proposed ++ [⟨req, index, false⟩] }
  | .fail i => some { s with pending := s.pending.eraseIdx i }
  | .commit j =>
      (s.proposed[j]?).bind fun p =>
        if p.index = s.log.length then
          some { s with
            log := s.log ++ [p.entry]
            proposed := s.proposed.set j { p with committed := true } }
        else none
  | .answer j =>
      (s.proposed[j]?).bind fun p =>
        if p.index < s.log.length then
          some { s with
            proposed := s.proposed.eraseIdx j
            told := s.told ++ [p.placed] }
        else none
  | .submit c => if submittable c then some { s with log := s.log ++ [c] } else none
  | .apply n r =>
      (s.log[(s.nodes n).applied]?).map fun c =>
        s.setNode n { s.nodes n with
          toConnectedMachine := (s.nodes n).toConnectedMachine.apply r c
          applied := (s.nodes n).applied + 1 }
  | .checkFailures n failureTimeoutMs now =>
      some <| s.setNode n { s.nodes n with
        machine := { (s.nodes n).machine with
          membership := (s.nodes n).machine.membership.checkFailures failureTimeoutMs now } }

/-- An allocation that commits is of a block that the log does not allocate yet, a client is told
success when its own entry has committed, and a node that applies an allocation has no transaction
open. -/
def singly (s : Allocating ν) : AllocationEvent ν → Bool
  | .commit j => (s.proposed[j]?).all fun p =>
      p.request.blockId ∉ (allocations s.log).map Prod.fst
  | .answer j => (s.proposed[j]?).all Proposal.committed
  | .apply n _ => (s.log[(s.nodes n).applied]?).all fun c => !((s.nodes n).inTransaction && c.saves)
  | _ => true

/-- A block is allocated at most once: an entry that allocates a placed block changes no placement,
one client a block is told success, the nodes it is told are those of every placement and, where
the log is applied, of the recorded one, and each inventory lists the blocks placed on its node. -/
structure AllocatedOnce (s : Allocating ν) : Prop where
  unchanged : ∀ n b v nodes, s.log[(s.nodes n).applied]? = some (.allocateBlock b v nodes) →
    ((s.nodes n).machine.placement.registry.getBlockLocations b).isSome →
    ∀ r, ((s.nodes n).apply r (.allocateBlock b v nodes)).machine.placement =
      (s.nodes n).machine.placement
  told_once : (s.told.map Prod.fst).Nodup
  told_placed : ∀ b nodes, (b, nodes) ∈ s.told → ∀ n nodes',
    (s.nodes n).machine.placement.registry.getBlockLocations b = some nodes' → nodes' = nodes
  told_recorded : ∀ b nodes, (b, nodes) ∈ s.told → ∀ n, (s.nodes n).applied = s.log.length →
    (s.nodes n).machine.placement.registry.getBlockLocations b = some nodes ∧
      (s.nodes n).machine.placement.store.blocks.get? b = some ⟨1, nodes.toFinset⟩
  inverse : ∀ n x b, b ∈ (s.nodes n).machine.placement.inventory.getInventory x ↔
    ∃ nodes, (s.nodes n).machine.placement.registry.getBlockLocations b = some nodes ∧ x ∈ nodes

/-! ## The invariant -/

/-- What the proposals place that have committed and whose clients wait. -/
def waiting (proposed : List Proposal) : List (String × List String) :=
  (proposed.filter Proposal.committed).map Proposal.placed

/-- The log has one allocation a block, every node shows the entries it has applied, the requests
and the proposals have distinct nodes, and the clients that are told success or wait for it have
different entries of the log. -/
structure Invariant (s : Allocating ν) : Prop where
  unique : UniqueLog s.log
  applied : ∀ n, (s.nodes n).applied ≤ s.log.length
  view : ∀ n, (s.nodes n).machine.placement.view = viewOf (s.log.take (s.nodes n).applied)
  pending : ∀ req ∈ s.pending, req.nodes.Nodup
  proposed : ∀ p ∈ s.proposed, p.request.nodes.Nodup
  logged : s.told ++ waiting s.proposed ⊆ allocations s.log
  distinct : ((s.told ++ waiting s.proposed).map Prod.fst).Nodup

omit [DecidableEq ν] in
theorem invariant_init : Invariant (init : Allocating ν) where
  unique := ⟨by simp [init], by simp [init, allocations]⟩
  applied _ := le_rfl
  view _ := rfl
  pending := by simp [init]
  proposed := by simp [init]
  logged := by simp [init, waiting]
  distinct := by simp [init, waiting]

variable {s s' : Allocating ν}

/-- A node may change what the placements do not show. -/
theorem Invariant.setNode {n : ν} {x : MetadataNode} (h : Invariant s)
    (happlied : x.applied ≤ s.log.length)
    (hview : x.machine.placement.view = viewOf (s.log.take x.applied)) : Invariant (s.setNode n x) where
  unique := h.unique
  applied m := by
    rw [nodes_setNode]
    split
    · exact happlied
    · exact h.applied m
  view m := by
    rw [nodes_setNode]
    split
    · exact hview
    · exact h.view m
  pending := h.pending
  proposed := h.proposed
  logged := h.logged
  distinct := h.distinct

theorem allocations_append (log : List Command) (c : Command) :
    allocations (log ++ [c]) = allocations log ++ c.allocation.toList := by
  unfold allocations
  rw [List.filterMap_append]
  rcases halloc : c.allocation with _ | bn <;> simp [halloc]

omit [DecidableEq ν] in
/-- The log may grow by a proposed command that allocates no block of the log. -/
theorem Invariant.append {c : Command} (h : Invariant s) (hc : c.Proposed)
    (hnew : ∀ b nodes, c.allocation = some (b, nodes) → b ∉ (allocations s.log).map Prod.fst)
    {proposed : List Proposal} (hproposed : ∀ p ∈ proposed, p.request.nodes.Nodup)
    (hlogged : s.told ++ waiting proposed ⊆ allocations (s.log ++ [c]))
    (hdistinct : ((s.told ++ waiting proposed).map Prod.fst).Nodup) :
    Invariant { s with log := s.log ++ [c], proposed := proposed } where
  unique := by
    constructor
    · intro c' hc'
      rcases List.mem_append.mp hc' with hc' | hc'
      · exact h.unique.proposed c' hc'
      · exact List.mem_singleton.mp hc' ▸ hc
    · rw [allocations_append, List.map_append]
      refine List.nodup_append.mpr ⟨h.unique.once, ?_, ?_⟩
      · rcases c.allocation with _ | bn <;> simp
      · rintro b hb b' hb' rfl
        rcases halloc : c.allocation with _ | ⟨b', nodes⟩
        · simp [halloc] at hb'
        · simp only [halloc, Option.toList_some, List.map_cons, List.map_nil,
            List.mem_singleton] at hb'
          exact hnew b' nodes halloc (hb' ▸ hb)
  applied n := (h.applied n).trans (by simp)
  view n := by
    rw [List.take_append_of_le_length (h.applied n)]
    exact h.view n
  pending := h.pending
  proposed := hproposed
  logged := hlogged
  distinct := hdistinct

theorem Invariant.check {n : ν} {b : String} {rf : ℕ} (h : Invariant s) :
    Invariant (s.check n b rf) := by
  unfold Allocating.check
  simp only
  split_ifs
  · exact h
  · exact h
  · split
    · exact h
    · rename_i nodes policy hsel
      have hnode := h.setNode (n := n) (x := { s.nodes n with policy := policy }) (h.applied n)
        (h.view n)
      refine ⟨hnode.unique, hnode.applied, hnode.view, ?_, hnode.proposed, hnode.logged,
        hnode.distinct⟩
      intro req hreq
      rcases List.mem_append.mp hreq with hreq | hreq
      · exact h.pending req hreq
      · obtain rfl := List.mem_singleton.mp hreq
        exact RoundRobinPlacementPolicy.selectNodes_nodup
          (MembershipRegistry.nodup_healthyNodes _) hsel

omit [DecidableEq ν] in
/-- A request becomes a proposal. -/
theorem Invariant.propose {i index : ℕ} {req : Request} (h : Invariant s)
    (hreq : s.pending[i]? = some req) :
    Invariant { s with
      pending := s.pending.eraseIdx i
      proposed := s.proposed ++ [⟨req, index, false⟩] } := by
  have hwaiting : waiting (s.proposed ++ [⟨req, index, false⟩]) = waiting s.proposed := by
    simp [waiting]
  refine ⟨h.unique, h.applied, h.view,
    fun req' hreq' => h.pending req' (List.mem_of_mem_eraseIdx hreq'), ?_,
    hwaiting.symm ▸ h.logged, hwaiting.symm ▸ h.distinct⟩
  intro p hp
  rcases List.mem_append.mp hp with hp | hp
  · exact h.proposed p hp
  · obtain rfl := List.mem_singleton.mp hp
    exact h.pending req (List.mem_of_getElem? hreq)

theorem waiting_perm {l l' : List Proposal} (h : l.Perm l') : (waiting l).Perm (waiting l') :=
  (h.filter _).map _

/-- The proposals with one taken out. -/
theorem perm_eraseIdx {l : List Proposal} {j : ℕ} {p : Proposal} (h : l[j]? = some p) :
    l.Perm (p :: l.eraseIdx j) := by
  obtain ⟨hj, rfl⟩ := List.getElem?_eq_some_iff.mp h
  exact (List.getElem_cons_eraseIdx_perm hj).symm

/-- A proposal whose entry has committed is one of those that wait. -/
theorem waiting_cons {p : Proposal} {l : List Proposal} (h : p.committed = true) :
    waiting (p :: l) = p.placed :: waiting l := by
  simp [waiting, h]

theorem waiting_eraseIdx_sublist (l : List Proposal) (j : ℕ) :
    (waiting (l.eraseIdx j)).Sublist (waiting l) :=
  ((l.eraseIdx_sublist j).filter _).map _

omit [DecidableEq ν] in
/-- The entry of a proposal commits. -/
theorem Invariant.commit {j : ℕ} {p : Proposal} (h : Invariant s) (hp : s.proposed[j]? = some p)
    (hnew : p.request.blockId ∉ (allocations s.log).map Prod.fst) :
    Invariant { s with
      log := s.log ++ [p.entry]
      proposed := s.proposed.set j { p with committed := true } } := by
  have hj := (List.getElem?_eq_some_iff.mp hp).1
  have hset : (waiting (s.proposed.set j { p with committed := true })).Perm
      (p.placed :: waiting (s.proposed.eraseIdx j)) :=
    waiting_perm (List.set_perm_cons_eraseIdx hj _)
  have hsub : (s.told ++ waiting (s.proposed.eraseIdx j)).Sublist
      (s.told ++ waiting s.proposed) :=
    List.Sublist.append_left (waiting_eraseIdx_sublist _ _) _
  have hperm : (s.told ++ waiting (s.proposed.set j { p with committed := true })).Perm
      (p.placed :: (s.told ++ waiting (s.proposed.eraseIdx j))) :=
    (hset.append_left _).trans List.perm_middle
  have hentry : allocations (s.log ++ [p.entry]) = allocations s.log ++ [p.placed] :=
    allocations_append _ _
  apply h.append
  · exact ⟨rfl, h.proposed p (List.mem_of_getElem? hp)⟩
  · rintro b nodes hb
    obtain ⟨rfl, rfl⟩ := Prod.mk.inj (Option.some.inj hb)
    exact hnew
  · intro q hq
    rcases List.mem_or_eq_of_mem_set hq with hq | rfl
    · exact h.proposed q hq
    · exact h.proposed p (List.mem_of_getElem? hp)
  · intro bn hbn
    rw [hentry]
    rcases List.mem_cons.mp (hperm.subset hbn) with rfl | hbn
    · exact List.mem_append_right _ List.mem_cons_self
    · exact List.mem_append_left _ (h.logged (hsub.subset hbn))
  · rw [(hperm.map _).nodup_iff, List.map_cons, List.nodup_cons]
    refine ⟨fun hmem => ?_, h.distinct.sublist (hsub.map _)⟩
    obtain ⟨bn, hbn, hb⟩ := List.mem_map.mp hmem
    exact hnew (List.mem_map.mpr ⟨bn, h.logged (hsub.subset hbn), hb⟩)

omit [DecidableEq ν] in
/-- The client of a proposal whose entry has committed is told success. -/
theorem Invariant.answer {j : ℕ} {p : Proposal} (h : Invariant s) (hp : s.proposed[j]? = some p)
    (hcommitted : p.committed = true) :
    Invariant { s with
      proposed := s.proposed.eraseIdx j
      told := s.told ++ [p.placed] } := by
  have hperm : (s.told ++ waiting s.proposed).Perm
      ((s.told ++ [p.placed]) ++ waiting (s.proposed.eraseIdx j)) := by
    rw [List.append_assoc]
    exact (waiting_cons hcommitted ▸ waiting_perm (perm_eraseIdx hp)).append_left _
  exact ⟨h.unique, h.applied, h.view, h.pending,
    fun q hq => h.proposed q (List.mem_of_mem_eraseIdx hq),
    fun _ hbn => h.logged (hperm.symm.subset hbn), (hperm.map _).nodup_iff.mp h.distinct⟩

omit [DecidableEq ν] in
/-- The entry of another endpoint commits. -/
theorem Invariant.submit {c : Command} (h : Invariant s) (hc : submittable c = true) :
    Invariant { s with log := s.log ++ [c] } := by
  have hnone : c.allocation = none := by
    cases c with
    | allocateBlock => cases hc
    | _ => rfl
  have hproposed : c.Proposed := by
    cases c with
    | allocateBlock => cases hc
    | updatePlacement => cases hc
    | _ => trivial
  refine h.append hproposed (fun b nodes hb => ?_) h.proposed (fun bn hbn => ?_) h.distinct
  · rw [hnone] at hb
    cases hb
  · rw [allocations_append, hnone]
    exact List.mem_append_left _ (h.logged hbn)

/-- A node applies its next entry. -/
theorem Invariant.apply {n : ν} {r : Readings} {c : Command} (h : Invariant s)
    (hc : s.log[(s.nodes n).applied]? = some c)
    (hopen : (s.nodes n).inTransaction = true → c.saves = false) :
    Invariant (s.setNode n { s.nodes n with
      toConnectedMachine := (s.nodes n).toConnectedMachine.apply r c
      applied := (s.nodes n).applied + 1 }) := by
  have hnot : (s.nodes n).inTransaction = true → ¬ c.Places := by
    intro htransaction hplaces
    have hsaves := hopen htransaction
    cases c with
    | allocateBlock => cases hsaves
    | updatePlacement => cases hsaves
    | _ => exact hplaces
  apply h.setNode
  · exact (List.getElem?_eq_some_iff.mp hc).1
  · simp only [ConnectedMachine.view_apply hnot]
    rw [h.view n, ← viewOf_append, List.take_add_one, hc]
    rfl

theorem Invariant.step {ev : AllocationEvent ν} (h : Invariant s) (hC : singly s ev = true)
    (hstep : step s ev = some s') : Invariant s' := by
  cases ev with
  | check n b rf =>
      obtain rfl := Option.some.inj hstep
      exact h.check
  | propose i index =>
      obtain ⟨req, hreq, rfl⟩ := Option.map_eq_some_iff.mp hstep
      exact h.propose hreq
  | fail i =>
      obtain rfl := Option.some.inj hstep
      exact ⟨h.unique, h.applied, h.view,
        fun req hreq => h.pending req (List.mem_of_mem_eraseIdx hreq), h.proposed, h.logged,
        h.distinct⟩
  | commit j =>
      obtain ⟨p, hp, hstep⟩ := Option.bind_eq_some_iff.mp hstep
      rw [Option.ite_none_right_eq_some, Option.some.injEq] at hstep
      obtain ⟨-, rfl⟩ := hstep
      have hnew : p.request.blockId ∉ (allocations s.log).map Prod.fst := by
        simpa [singly, hp] using hC
      exact h.commit hp hnew
  | answer j =>
      obtain ⟨p, hp, hstep⟩ := Option.bind_eq_some_iff.mp hstep
      rw [Option.ite_none_right_eq_some, Option.some.injEq] at hstep
      obtain ⟨-, rfl⟩ := hstep
      have hcommitted : p.committed = true := by
        simpa [singly, hp] using hC
      exact h.answer hp hcommitted
  | submit c =>
      unfold Allocating.step at hstep
      simp only [Option.ite_none_right_eq_some, Option.some.injEq] at hstep
      obtain ⟨hsub, rfl⟩ := hstep
      exact h.submit hsub
  | apply n r =>
      obtain ⟨c, hc, rfl⟩ := Option.map_eq_some_iff.mp hstep
      have hopen : (s.nodes n).inTransaction = true → c.saves = false := by
        intro htransaction
        simpa [singly, hc, htransaction] using hC
      exact h.apply hc hopen
  | checkFailures n timeout now =>
      obtain rfl := Option.some.inj hstep
      exact h.setNode (h.applied n) (h.view n)

/-! ## The result -/

omit [DecidableEq ν] in
/-- What the invariant says of what can be read. -/
theorem Invariant.allocatedOnce (h : Invariant s) : AllocatedOnce s := by
  have hplaces : ∀ n, (s.nodes n).machine.placement.view.Places
      (allocations (s.log.take (s.nodes n).applied)) := fun n =>
    h.view n ▸ viewOf_of_unique (h.unique.take _)
  have hmem : ∀ b nodes n, (b, nodes) ∈ allocations (s.log.take n) → (b, nodes) ∈ allocations s.log :=
    fun b nodes n hbn => ((List.take_sublist n s.log).filterMap _).subset hbn
  have hinj : ∀ b nodes nodes', (b, nodes) ∈ allocations s.log → (b, nodes') ∈ allocations s.log →
      nodes = nodes' := fun b nodes nodes' hbn hbn' =>
    congrArg Prod.snd (List.inj_on_of_nodup_map h.unique.once hbn hbn' rfl)
  have htoldLogged : s.told ⊆ allocations s.log := fun bn hbn =>
    h.logged (List.mem_append_left _ hbn)
  constructor
  · -- The next entry would be the second allocation of a block.
    intro n b v nodes hnext hplaced r
    obtain ⟨nodes', hnodes'⟩ := Option.isSome_iff_exists.mp hplaced
    have hbefore := ((hplaces n).locations b nodes').mp hnodes'
    have hnext' : s.log.take ((s.nodes n).applied + 1) =
        s.log.take (s.nodes n).applied ++ [.allocateBlock b v nodes] := by
      rw [List.take_add_one, hnext]
      rfl
    have honce := (h.unique.take ((s.nodes n).applied + 1)).once
    have happend : allocations (s.log.take (s.nodes n).applied ++ [.allocateBlock b v nodes]) =
        allocations (s.log.take (s.nodes n).applied) ++ [(b, nodes)] := List.filterMap_append
    rw [hnext', happend, List.map_append, List.nodup_append] at honce
    exact absurd rfl (honce.2.2 b (List.mem_map_of_mem hbefore) b List.mem_cons_self)
  · exact h.distinct.sublist ((List.sublist_append_left _ _).map _)
  · intro b nodes htold n nodes' hnodes'
    exact hinj b nodes' nodes (hmem _ _ _ (((hplaces n).locations b nodes').mp hnodes'))
      (htoldLogged htold)
  · intro b nodes htold n hall
    have hbn : (b, nodes) ∈ allocations (s.log.take (s.nodes n).applied) := by
      rw [hall, List.take_length]
      exact htoldLogged htold
    exact ⟨((hplaces n).locations b nodes).mpr hbn, (hplaces n).rows b nodes hbn⟩
  · intro n x b
    refine ((hplaces n).inventory x b).trans (exists_congr fun nodes => ?_)
    exact and_congr_left' ((hplaces n).locations b nodes).symm

/-- Readings of a clock that shows 1000. -/
def readings : Readings := ⟨1000, 1000, "", by decide, by decide⟩

/-- Two storage nodes register. -/
def registrations : List (AllocationEvent Unit) :=
  [.submit (.registerNode "node1" "127.0.0.1:8001"), .submit (.registerNode "node2" "127.0.0.1:8002"),
    .apply () readings, .apply () readings]

/-- One block is allocated. -/
def oneAllocation : List (AllocationEvent Unit) :=
  registrations ++ [.check () "block1" 1, .propose 0 2, .commit 0, .answer 0, .apply () readings]

/-- Two clients ask for one block, and both are checked before either is proposed. -/
def twoAllocations : List (AllocationEvent Unit) :=
  registrations ++ [.check () "block1" 1, .check () "block1" 1, .propose 0 2, .propose 0 3,
    .commit 0, .commit 1, .answer 0, .answer 0, .apply () readings, .apply () readings]

/-- A client is told success for an entry that another one has overwritten: its block has no
placement. -/
example : (run step init (registrations ++ [.check () "block1" 1, .propose 0 2,
      .submit (.addPeer "peer1"), .answer 0, .apply () readings])).map (fun s =>
        (s.told, (s.nodes ()).machine.placement.registry.getBlockLocations "block1")) =
    some ([("block1", ["node1"])], none) := by
  decide +kernel

/-- A heartbeat with a count that SQLite refuses leaves a transaction open, and the node drops the
allocation after it. -/
example : (run step init (registrations ++
      [.submit (.updateHeartbeat "node1" none (some (2 ^ 63)) (some 0) (some 0)), .apply () readings,
        .check () "block1" 1, .propose 0 3, .commit 0, .answer 0, .apply () readings])).map (fun s =>
        (s.told, (s.nodes ()).applied,
          (s.nodes ()).machine.placement.registry.getBlockLocations "block1")) =
    some ([("block1", ["node1"])], 4, none) := by
  decide +kernel

end Allocating

end NanoFabric.Metadata
