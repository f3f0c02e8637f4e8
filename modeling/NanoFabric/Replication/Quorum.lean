import Mathlib.Data.Finset.Card
import Mathlib.Data.Finset.Insert
import NanoFabric.Found.Quorum
import NanoFabric.Repair.ReadRepair

/-!
# Quorums

The consistency levels of `node/consistency.py`, the sizes of `node/quorum.py`, the acknowledgements
that `node/quorum_manager.py` counts, and what `node/read_coordinator.py` makes of the copies it read.

* `QuorumManager.evaluate_eq_success` — the outcome is a success just when enough nodes acknowledged.
* `exists_acked_copy` — a write quorum and a read quorum of one placement share a node.
* `coordinate_satisfied` — a read that reports a quorum returns a copy of the greatest version.
-/

namespace NanoFabric.Replication

open NanoFabric.Found
open NanoFabric.Repair

/-! ## Sizes -/

/-- Source: `node/consistency.py`, `ConsistencyLevel`. -/
inductive ConsistencyLevel
  | one
  | quorum
  | all
deriving DecidableEq, Repr

/-- No caller passes a factor of `0`, which raises.
Source: `node/quorum.py`, `calculate_write_quorum`. -/
def calculateWriteQuorum (replicationFactor : ℕ) : ℕ := replicationFactor / 2 + 1

/-- No caller passes a factor of `0`, which raises.
Source: `node/quorum.py`, `calculate_read_quorum`. -/
def calculateReadQuorum (replicationFactor : ℕ) : ℕ := replicationFactor / 2 + 1

/-- Source: `node/quorum.py`, `required_acks`. -/
def requiredAcks (replicationFactor : ℕ) : ConsistencyLevel → ℕ
  | .one => 1
  | .all => replicationFactor
  | .quorum => calculateWriteQuorum replicationFactor

/-- Source: `node/quorum.py`, `required_reads`. -/
def requiredReads (replicationFactor : ℕ) : ConsistencyLevel → ℕ
  | .one => 1
  | .all => replicationFactor
  | .quorum => calculateReadQuorum replicationFactor

theorem requiredAcks_quorum (rf : ℕ) : requiredAcks rf .quorum = rf / 2 + 1 := rfl

theorem requiredReads_quorum (rf : ℕ) : requiredReads rf .quorum = rf / 2 + 1 := rfl

/-- Source: `node/quorum.py`, `is_quorum_satisfied`. -/
def isQuorumSatisfied (acks required : ℕ) : Bool := required ≤ acks

/-! ## Acknowledgements -/

/-- Source: `node/quorum_manager.py`, `QuorumOutcome`. -/
inductive QuorumOutcome
  | success
  | failed
  | timeout
deriving DecidableEq, Repr

/-- Source: `node/quorum_manager.py`, `QuorumManager`. -/
structure QuorumManager where
  rf : ℕ
  required : ℕ
  ackedNodes : Finset String
  failedNodes : Finset String

namespace QuorumManager

/-- Source: `node/quorum_manager.py`, `__init__`. -/
def init (replicationFactor : ℕ) (level : ConsistencyLevel) : QuorumManager :=
  ⟨replicationFactor, requiredAcks replicationFactor level, ∅, ∅⟩

/-- Source: `node/quorum_manager.py`, `record_ack`. -/
def recordAck (q : QuorumManager) (nodeId : String) : QuorumManager :=
  { q with
    failedNodes := q.failedNodes.erase nodeId
    ackedNodes := insert nodeId q.ackedNodes }

/-- Source: `node/quorum_manager.py`, `record_failure`. -/
def recordFailure (q : QuorumManager) (nodeId : String) : QuorumManager :=
  if nodeId ∈ q.ackedNodes then q else { q with failedNodes := insert nodeId q.failedNodes }

/-- The outcome, where the clock says whether the time is up.
Source: `node/quorum_manager.py`, `evaluate`. -/
def evaluate (q : QuorumManager) (timedOut : Bool) : QuorumOutcome :=
  if isQuorumSatisfied q.ackedNodes.card q.required then .success
  else if timedOut then .timeout
  else .failed

variable {q : QuorumManager} {n : String}

/-- The clock does not decide a success. -/
theorem evaluate_eq_success {timedOut : Bool} :
    q.evaluate timedOut = .success ↔ q.required ≤ q.ackedNodes.card := by
  unfold evaluate isQuorumSatisfied
  split
  · rename_i h
    exact iff_of_true rfl (of_decide_eq_true h)
  · rename_i h
    refine iff_of_false ?_ fun hle => h (decide_eq_true hle)
    split <;> nofun

@[simp] theorem required_recordAck : (q.recordAck n).required = q.required := rfl

@[simp] theorem ackedNodes_recordAck : (q.recordAck n).ackedNodes = insert n q.ackedNodes := rfl

@[simp] theorem required_recordFailure : (q.recordFailure n).required = q.required := by
  unfold recordFailure
  split <;> rfl

@[simp] theorem ackedNodes_recordFailure : (q.recordFailure n).ackedNodes = q.ackedNodes := by
  unfold recordFailure
  split <;> rfl

end QuorumManager

/-! ## Reads -/

/-- Source: `node/read_coordinator.py`, `ReadResult`. -/
structure ReadResult where
  blockId : String
  data : String
  version : ℤ
  nodeId : String
  quorumSatisfied : Bool
  copiesRead : ℕ
  outcome : QuorumOutcome
deriving DecidableEq, Repr

/-- The result that shows a copy. -/
def ReadResult.ofCopy (copy : ReplicaCopy) (quorumSatisfied : Bool) (copiesRead : ℕ)
    (outcome : QuorumOutcome) : ReadResult :=
  ⟨copy.blockId, copy.data, copy.version, copy.nodeId, quorumSatisfied, copiesRead, outcome⟩

/-- The copies that count. -/
def successfulCopies (copies : List ReplicaCopy) : List ReplicaCopy :=
  copies.filter fun c => decide (0 < c.version) || !c.deleted

/-- What a read returns for the copies that the nodes of the placement answered with.
Source: `node/read_coordinator.py`, `read`. -/
def coordinate (level : ConsistencyLevel) (rf : ℕ) (copies : List ReplicaCopy) : Option ReadResult :=
  if copies = [] then none
  else
    let successful := successfulCopies copies
    if isQuorumSatisfied successful.length (requiredReads rf level) then
      (selectLatest successful).map fun latest =>
        .ofCopy latest true successful.length .success
    else
      (selectLatest copies).map fun latest => .ofCopy latest false successful.length .failed

/-- A read that reports a quorum has read that many copies, and returns one of them that no other is
newer than. -/
theorem coordinate_satisfied {level : ConsistencyLevel} {rf : ℕ} {copies : List ReplicaCopy}
    {result : ReadResult} (h : coordinate level rf copies = some result)
    (hq : result.quorumSatisfied = true) :
    requiredReads rf level ≤ (successfulCopies copies).length ∧
      ∃ latest ∈ successfulCopies copies, result.data = latest.data ∧
        result.version = latest.version ∧
        ∀ c ∈ successfulCopies copies, c.version ≤ latest.version := by
  simp only [coordinate] at h
  split_ifs at h with hnil hsat
  · obtain ⟨latest, hlatest, rfl⟩ := Option.map_eq_some_iff.mp h
    obtain ⟨hmem, hmax⟩ := selectLatest_eq_some hlatest
    exact ⟨of_decide_eq_true hsat, latest, hmem, rfl, rfl,
      fun c hc => ReplicaCopy.version_le_of_key_le (hmax c hc)⟩
  · obtain ⟨latest, -, rfl⟩ := Option.map_eq_some_iff.mp h
    cases hq

/-- Majorities of a placement that acknowledged and that were read share a node. -/
theorem exists_acked_copy {locations : List String} {acked : Finset String}
    {copies : List ReplicaCopy} (hacked : acked ⊆ locations.toFinset)
    (hcopies : ∀ c ∈ copies, c.nodeId ∈ locations)
    (hnodup : (copies.map ReplicaCopy.nodeId).Nodup)
    (hw : requiredAcks locations.length .quorum ≤ acked.card)
    (hr : requiredReads locations.length .quorum ≤ copies.length) :
    ∃ c ∈ copies, c.nodeId ∈ acked := by
  have hread : (copies.map ReplicaCopy.nodeId).toFinset ⊆ locations.toFinset := by
    intro n hn
    rw [List.mem_toFinset, List.mem_map] at hn
    obtain ⟨c, hc, rfl⟩ := hn
    exact List.mem_toFinset.mpr (hcopies c hc)
  have hcard : (copies.map ReplicaCopy.nodeId).toFinset.card = copies.length := by
    rw [List.toFinset_card_of_nodup hnodup, List.length_map]
  have hplaced : locations.toFinset.card ≤ locations.length := locations.toFinset_card_le
  have hlt : locations.toFinset.card <
      acked.card + (copies.map ReplicaCopy.nodeId).toFinset.card := by
    rw [requiredAcks_quorum] at hw
    rw [requiredReads_quorum] at hr
    omega
  obtain ⟨n, hn, hn'⟩ := exists_mem_inter_of_card_lt hacked hread hlt
  rw [List.mem_toFinset, List.mem_map] at hn'
  obtain ⟨c, hc, rfl⟩ := hn'
  exact ⟨c, hc, hn⟩

end NanoFabric.Replication
