import NanoFabric.Metadata.PlacementView

/-!
# The connection of the placement store

A metadata node holds one connection to the database of its placement store. The driver begins a
transaction before a statement of `upsert_node`, and a statement that is refused leaves it open,
since `upsert_node` does not roll back. `save_placement` begins a transaction of its own: with one
open it raises, rolls that one back and places nothing.

* `view_apply` — a command does to the placements what the log says, unless it places a block while
  a transaction is open.
-/

namespace NanoFabric.Metadata

open NanoFabric.Found

/-- The handler of the command calls `save_placement`. -/
def Command.saves : Command → Bool
  | .allocateBlock _ _ _ => true
  | .updatePlacement _ _ _ => true
  | _ => false

/-- The command places a block, as far as the store takes the placement. -/
def Command.Places : Command → Prop
  | .allocateBlock _ version nodes => Placement.Fits (version.getD 1) nodes
  | .updatePlacement _ version nodes => Placement.Fits version nodes
  | _ => False

instance : DecidablePred Command.Places := fun c => by
  cases c <;> unfold Command.Places <;> infer_instance

theorem PlacementView.apply_of_not_places {c : Command} (h : ¬ c.Places) (w : PlacementView) :
    w.apply c = w := by
  cases c with
  | allocateBlock b v nodes => exact if_neg h
  | updatePlacement b v nodes => exact if_neg h
  | _ => rfl

/-- The machine of a node with the connection of its placement store. -/
structure ConnectedMachine where
  machine : RaftStateMachine
  /-- Whether a transaction is open on the connection. -/
  inTransaction : Bool

namespace ConnectedMachine

/-- A node with empty databases. -/
def empty : ConnectedMachine := ⟨.empty, false⟩

/-- What the handler of a command gets from `upsert_node`, if it calls it.
Source: `metadata/raft/state_machine.py`, `_apply_register`, `_apply_heartbeat`. -/
def upserted (r : Readings) (m : RaftStateMachine) : Command → Option (Except StoreError MetadataStore)
  | .registerNode nodeId address =>
      some (m.placement.store.upsertNode nodeId
        (m.membership.registered nodeId address r.now).lastSeen none)
  | .updateHeartbeat nodeId timestamp blockCount usedBytes lastLsn =>
      (m.membership.heartbeat nodeId (timestamp.getD r.now)).map fun beaten =>
        m.placement.store.upsertNode nodeId beaten.2.lastSeen
          (match blockCount, usedBytes, lastLsn with
            | some blocks, some bytes, some lsn => some ⟨blocks, bytes, lsn⟩
            | _, _, _ => none)
  | _ => none

/-- The node after it has applied a command.
Source: `metadata/raft/state_machine.py`, `apply`; `metadata/metadata_store.py`, `upsert_node`,
`save_placement`. -/
def apply (r : Readings) (x : ConnectedMachine) (c : Command) : ConnectedMachine :=
  if c.saves then
    -- `BEGIN IMMEDIATE` raises inside a transaction, and every end of `save_placement` closes it
    ⟨if x.inTransaction then x.machine else x.machine.apply r c, false⟩
  else
    ⟨x.machine.apply r c,
      match upserted r x.machine c with
      | some (.ok _) => false
      | some (.error _) => true
      | none => x.inTransaction⟩

/-- **A command does to what a node shows of placements what it does to those of the log, unless it
places a block while a transaction is open.** -/
theorem view_apply {r : Readings} {x : ConnectedMachine} {c : Command}
    (h : x.inTransaction = true → ¬ c.Places) :
    (x.apply r c).machine.placement.view = x.machine.placement.view.apply c := by
  unfold apply
  by_cases hsaves : c.saves = true
  · rw [if_pos hsaves]
    by_cases hopen : x.inTransaction = true
    · simp only [hopen, if_true]
      exact (PlacementView.apply_of_not_places (h hopen) _).symm
    · simp only [hopen]
      exact RaftStateMachine.view_apply r x.machine c
  · rw [if_neg hsaves]
    exact RaftStateMachine.view_apply r x.machine c

end ConnectedMachine

end NanoFabric.Metadata
