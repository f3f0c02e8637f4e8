import NanoFabric.Metadata.PlacementService

/-!
# The replicated state machine

`RaftStateMachine` of `metadata/raft/state_machine.py`: the commands with their optional payload
fields, the handler of each, and the Raft snapshots. What a handler reads of the world outside the
log, the clock and fresh ids, is an argument (`Readings`).

A handler that raises has done what stands before the call that raised; `apply` gives the machine it
leaves. JSON encodes every value of a snapshot and reads it back, so a snapshot is the value itself.
-/

namespace NanoFabric.Metadata

open NanoFabric.Found
open NanoFabric.Node (Bindable)

/-- What one call of `apply` can read of its environment: two readings of the clock, in
milliseconds, and a fresh id. A clock fits an SQLite integer. -/
structure Readings where
  now : ℤ
  later : ℤ
  uuid : String
  now_bindable : Bindable now
  later_bindable : Bindable later

/-- The payload of `CREATE_REPAIR`, its optional fields as options. -/
structure RepairPayload where
  jobId : String
  blockId : String
  sourceNode : String
  targetNode : String
  version : Option ℤ
  repairType : RepairType
  status : Option RepairStatus
  attemptCount : Option ℤ
  lastError : Option String
  createdAt : Option ℤ
  updatedAt : Option ℤ
  completedAt : Option ℤ
deriving DecidableEq, Repr

/-- A command with its payload.
Source: `metadata/raft/models.py`, `CommandType`. -/
inductive Command
  | registerNode (nodeId address : String)
  | updateHeartbeat (nodeId : String) (timestamp blockCount usedBytes lastLsn : Option ℤ)
  | allocateBlock (blockId : String) (version : Option ℤ) (nodes : List String)
  | updatePlacement (blockId : String) (version : ℤ) (nodes : List String)
  | createRepair (payload : RepairPayload)
  | deleteRepair (jobId : String)
  | addAlert (severity node description : String) (alertId : Option String)
  | addPeer (peerId : String)
  | removePeer (peerId : String)
  | reconfigureCluster (peers : Option (List String))
deriving DecidableEq, Repr

/-- Source: `metadata/raft/state_machine.py`, `RaftStateMachine`. -/
@[ext]
structure RaftStateMachine where
  membership : MembershipRegistry
  placement : Placement
  alerts : AlertStore
  repairStore : Option RepairJobStore
  peers : List String
deriving DecidableEq

/-- What a Raft snapshot holds.
Source: `metadata/raft/state_machine.py`, the result of `build_snapshot`. -/
structure Snapshot where
  nodes : Dict String NodeRecord
  placements : Dict String (List String)
  versions : Dict String ℤ
  inventory : Dict String (Finset String)
  alerts : List Alert
  repairs : List RepairJob
  peers : List String

/-- What the readers of a machine can tell of it: its membership records, the placements with their
versions, the inventory of every node id, the alerts, the repair jobs and the peers. -/
@[ext]
structure Observation where
  nodes : Dict String NodeRecord
  placements : Dict String (List String)
  versions : String → Option ℤ
  inventory : String → Finset String
  alerts : List Alert
  repairJobs : String → Option RepairJob
  peers : List String

namespace RaftStateMachine

/-- The job under an id. -/
def getJob (m : RaftStateMachine) (jobId : String) : Option RepairJob :=
  m.repairStore.bind fun jobs => jobs.getJob jobId

/-- What can be told of a machine. -/
def observe (m : RaftStateMachine) : Observation where
  nodes := m.membership.nodes
  placements := m.placement.registry.blocks
  versions := m.placement.registry.getBlockVersion
  inventory := m.placement.inventory.getInventory
  alerts := m.alerts.toSnapshot
  repairJobs := m.getJob
  peers := m.peers

/-- The machine of a node with empty databases. -/
def empty : RaftStateMachine :=
  ⟨.empty, .empty, Table.empty, some Table.empty, []⟩

/-- The machine with what a store transaction leaves, and itself where the transaction raised. -/
def withPlacement (m : RaftStateMachine) : Except StoreError Placement → RaftStateMachine
  | .ok p => { m with placement := p }
  | .error _ => m

/-- The machine after `upsert_node`. -/
def upsertNode (m : RaftStateMachine) (nodeId : String) (lastSeen : ℤ) (stats : Option NodeStats) :
    RaftStateMachine :=
  m.withPlacement ((m.placement.store.upsertNode nodeId lastSeen stats).map fun store =>
    { m.placement with store := store })

/-- Source: `metadata/raft/state_machine.py`, `_apply_register`. -/
def applyRegister (r : Readings) (m : RaftStateMachine) (nodeId address : String) :
    RaftStateMachine :=
  { m with membership := m.membership.register nodeId address r.now }.upsertNode nodeId
    (m.membership.registered nodeId address r.now).lastSeen none

/-- Source: `metadata/raft/state_machine.py`, `_apply_heartbeat`. -/
def applyHeartbeat (r : Readings) (m : RaftStateMachine) (nodeId : String)
    (timestamp blockCount usedBytes lastLsn : Option ℤ) : RaftStateMachine :=
  match m.membership.heartbeat nodeId (timestamp.getD r.now) with
  | none => m
  | some (membership, record) =>
      { m with membership := membership }.upsertNode nodeId record.lastSeen
        (match blockCount, usedBytes, lastLsn with
          | some blocks, some bytes, some lsn => some ⟨blocks, bytes, lsn⟩
          | _, _, _ => none)

/-- Source: `metadata/raft/state_machine.py`, `_apply_allocate`. -/
def applyAllocate (m : RaftStateMachine) (blockId : String) (version : Option ℤ)
    (nodes : List String) : RaftStateMachine :=
  m.withPlacement (m.placement.allocate blockId (version.getD 1) nodes)

/-- Source: `metadata/raft/state_machine.py`, `_apply_placement`. -/
def applyPlacement (m : RaftStateMachine) (blockId : String) (version : ℤ) (nodes : List String) :
    RaftStateMachine :=
  m.withPlacement (m.placement.update blockId version nodes)

/-- The job of a payload, its absent fields as the source sets them. -/
def job (r : Readings) (p : RepairPayload) : RepairJob where
  jobId := p.jobId
  blockId := p.blockId
  sourceNode := p.sourceNode
  targetNode := p.targetNode
  version := p.version.getD 1
  repairType := p.repairType
  status := p.status.getD .pending
  attemptCount := p.attemptCount.getD 0
  lastError := p.lastError
  createdAt := p.createdAt.getD r.now
  updatedAt := p.updatedAt.getD r.later
  completedAt := p.completedAt

/-- Source: `metadata/raft/state_machine.py`, `_apply_create_repair`. -/
def applyCreateRepair (r : Readings) (m : RaftStateMachine) (p : RepairPayload) :
    RaftStateMachine :=
  match m.repairStore with
  | none => m
  | some jobs =>
      match jobs.upsertJob (job r p) with
      | .ok jobs => { m with repairStore := some jobs }
      | .error _ => m

/-- Source: `metadata/raft/state_machine.py`, `_apply_delete_repair`. -/
def applyDeleteRepair (m : RaftStateMachine) (jobId : String) : RaftStateMachine :=
  { m with repairStore := m.repairStore.map fun jobs => jobs.deleteJob jobId }

/-- Source: `metadata/raft/state_machine.py`, `_apply_alert`. -/
def applyAlert (r : Readings) (m : RaftStateMachine) (severity node description : String)
    (alertId : Option String) : RaftStateMachine :=
  { m with alerts := m.alerts.addAlert severity node description alertId r.uuid r.now }

/-- Source: `metadata/raft/state_machine.py`, `_apply_add_peer`. -/
def applyAddPeer (m : RaftStateMachine) (peer : String) : RaftStateMachine :=
  { m with peers := if peer ∈ m.peers then m.peers else m.peers ++ [peer] }

/-- Source: `metadata/raft/state_machine.py`, `_apply_remove_peer`. -/
def applyRemovePeer (m : RaftStateMachine) (peer : String) : RaftStateMachine :=
  { m with peers := m.peers.erase peer }

/-- Source: `metadata/raft/state_machine.py`, `_apply_reconfigure`. -/
def applyReconfigure (m : RaftStateMachine) (peers : Option (List String)) : RaftStateMachine :=
  { m with peers := peers.getD [] }

/-- Source: `metadata/raft/state_machine.py`, `apply`. -/
def apply (r : Readings) (m : RaftStateMachine) : Command → RaftStateMachine
  | .registerNode nodeId address => m.applyRegister r nodeId address
  | .updateHeartbeat nodeId timestamp blockCount usedBytes lastLsn =>
      m.applyHeartbeat r nodeId timestamp blockCount usedBytes lastLsn
  | .allocateBlock blockId version nodes => m.applyAllocate blockId version nodes
  | .updatePlacement blockId version nodes => m.applyPlacement blockId version nodes
  | .createRepair payload => m.applyCreateRepair r payload
  | .deleteRepair jobId => m.applyDeleteRepair jobId
  | .addAlert severity node description alertId =>
      m.applyAlert r severity node description alertId
  | .addPeer peer => m.applyAddPeer peer
  | .removePeer peer => m.applyRemovePeer peer
  | .reconfigureCluster peers => m.applyReconfigure peers

/-- The machine after a list of commands, the `i`-th of them applied under the `i`-th readings. -/
def applyAll (env : ℕ → Readings) (m : RaftStateMachine) : List Command → RaftStateMachine
  | [] => m
  | c :: cs => applyAll (fun i => env (i + 1)) (apply (env 0) m c) cs

/-! ## Snapshots -/

/-- The repair jobs, none where there is no repair store. -/
def listAllJobs (m : RaftStateMachine) : List RepairJob :=
  (m.repairStore.map RepairJobStore.listAllJobs).getD []

/-- Source: `metadata/raft/state_machine.py`, `build_snapshot`. -/
def buildSnapshot (m : RaftStateMachine) : Snapshot where
  nodes := m.membership.nodes
  placements := m.placement.registry.blocks
  versions := m.placement.registry.blocks.mapVals fun blockId _ =>
    ((m.placement.registry.getBlockVersion blockId).filter (· ≠ 0)).getD 1
  inventory := m.membership.nodes.mapVals fun nodeId _ => m.placement.inventory.getInventory nodeId
  alerts := m.alerts.toSnapshot
  repairs := m.listAllJobs
  peers := m.peers

/-- The store with the jobs of a snapshot upserted; a row of a snapshot can always be a row. -/
def upsertJobs (jobs : RepairJobStore) (repairs : List RepairJob) : RepairJobStore :=
  repairs.foldl (fun jobs job => ((jobs.upsertJob job).toOption).getD jobs) jobs

/-- Source: `metadata/raft/state_machine.py`, `restore_snapshot`. -/
def restoreSnapshot (m : RaftStateMachine) (data : Snapshot) : RaftStateMachine where
  membership := ⟨data.nodes⟩
  placement :=
    { registry := .loadFromSnapshot data.placements data.versions
      inventory := data.inventory.entries.foldl
        (fun i item => i.registerInventory item.1 item.2) m.placement.inventory
      store := m.placement.store }
  alerts := AlertStore.loadSnapshot data.alerts
  repairStore := m.repairStore.map fun jobs => upsertJobs jobs data.repairs
  peers := data.peers

end RaftStateMachine

end NanoFabric.Metadata
