import Mathlib.Algebra.Order.Ring.Int
import Mathlib.Data.List.Basic

/-!
# The oplog, record by record

`Oplog` of `node/oplog.py` with the records it keeps. The file is the list of its records; its lines,
and what is written and not yet fsynced, are in `NanoFabric.Node.OplogFile`. What a record looks like
in bytes is left out.

A record's `ts_ms` is left out: nothing that is modelled reads it. The payload of an operation sits
in `LoggedOp`, so that a write always has its data and a checkpoint its `through_lsn`.
-/

namespace NanoFabric.Node

/-- What a record logs, with the fields only that operation has.
Source: `node/op_types.py`, `OpType`; `node/oplog.py`, `Oplog.append`. -/
inductive LoggedOp
  | write (data : String)
  | delete
  | checkpoint (throughLsn : ℤ)
deriving DecidableEq, Repr

/-- The payload of one oplog record. -/
structure OplogEntry where
  lsn : ℤ
  nodeId : String
  op : LoggedOp
  blockId : String
  version : ℤ
deriving DecidableEq, Repr

/-- The record is one that `checkpoint` writes. -/
def OplogEntry.isCheckpoint (e : OplogEntry) : Bool :=
  match e.op with
  | .checkpoint _ => true
  | _ => false

/-- The in-memory side of an open oplog. -/
structure Oplog where
  nodeId : String
  highWaterLsn : ℤ
  nextLsn : ℤ
deriving DecidableEq, Repr

namespace Oplog

/-- The greatest LSN of the file's records, at least `0`.
Source: `node/oplog.py`, `_scan_high_water_mark`. -/
def scanHighWaterMark (file : List OplogEntry) : ℤ :=
  file.foldl (fun maxLsn e => if maxLsn < e.lsn then e.lsn else maxLsn) 0

/-- Source: `node/oplog.py`, `Oplog.__init__`. -/
def ofFile (nodeId : String) (file : List OplogEntry) : Oplog :=
  ⟨nodeId, scanHighWaterMark file, scanHighWaterMark file + 1⟩

/-- The record that `append` writes, and the oplog after it.
Source: `node/oplog.py`, `append`. -/
def append (log : Oplog) (op : LoggedOp) (blockId : String) (version : ℤ) : OplogEntry × Oplog :=
  (⟨log.nextLsn, log.nodeId, op, blockId, version⟩,
    { log with highWaterLsn := log.nextLsn, nextLsn := log.nextLsn + 1 })

/-- The records that survive compaction: no checkpoint, and only those after `throughLsn`.
Source: `node/oplog.py`, `compact`. -/
def compact (throughLsn : ℤ) (file : List OplogEntry) : List OplogEntry :=
  file.filter fun e => !e.isCheckpoint && decide (throughLsn < e.lsn)

/-! ## Small facts -/

theorem scanHighWaterMark_eq (file : List OplogEntry) :
    scanHighWaterMark file = file.foldl (fun m e => max m e.lsn) 0 := by
  unfold scanHighWaterMark
  congr 1
  funext m e
  split <;> omega

theorem foldl_max_le {file : List OplogEntry} {m n : ℤ} :
    file.foldl (fun m e => max m e.lsn) m ≤ n ↔ m ≤ n ∧ ∀ e ∈ file, e.lsn ≤ n := by
  induction file generalizing m with
  | nil => simp
  | cons e file ih => simp [ih, and_assoc]

/-- The high-water mark is the least bound of the LSNs that is not negative. -/
theorem scanHighWaterMark_le {file : List OplogEntry} {n : ℤ} :
    scanHighWaterMark file ≤ n ↔ 0 ≤ n ∧ ∀ e ∈ file, e.lsn ≤ n := by
  rw [scanHighWaterMark_eq, foldl_max_le]

theorem scanHighWaterMark_nonneg (file : List OplogEntry) : 0 ≤ scanHighWaterMark file :=
  (scanHighWaterMark_le.mp le_rfl).1

theorem le_scanHighWaterMark {file : List OplogEntry} {e : OplogEntry} (he : e ∈ file) :
    e.lsn ≤ scanHighWaterMark file :=
  (scanHighWaterMark_le.mp le_rfl).2 e he

theorem mem_compact {throughLsn : ℤ} {file : List OplogEntry} {e : OplogEntry} :
    e ∈ compact throughLsn file ↔ e ∈ file ∧ e.isCheckpoint = false ∧ throughLsn < e.lsn := by
  simp [compact]

end Oplog

end NanoFabric.Node
