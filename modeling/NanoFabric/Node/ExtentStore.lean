import Mathlib.Algebra.Order.Ring.Int
import Mathlib.Data.Prod.Lex
import NanoFabric.Found.Register

/-!
# The extent store

`ExtentStore` of `node/extent_store.py`: the `blocks` table and the replay cursor of `node_meta`, as
one value, since every SQLite transaction replaces both or neither. Each upsert has the guard of the
source's SQL; `saveIfNewer_eq` and `tombstoneIfNewer_eq` show that both are puts for one key,
the version and then the tombstone flag (`Row.key`).

The checksum and length columns are left out, since a row is only ever written with its own, and so
are the time columns.
-/

namespace NanoFabric.Node

open NanoFabric.Found

/-- What a call of the storage layer raises.
Source: `node/errors.py`. -/
inductive StorageError
  | validation (message : String)
  | versionConflict (blockId : String) (requested current : ℤ)
  /-- The `OverflowError` of `sqlite3` for an integer that is no SQLite `INTEGER`. -/
  | overflow
deriving DecidableEq, Repr

/-- The integers that `sqlite3` can bind to a parameter. -/
def Bindable (n : ℤ) : Prop := -2 ^ 63 ≤ n ∧ n < 2 ^ 63

instance (n : ℤ) : Decidable (Bindable n) := inferInstanceAs (Decidable (_ ∧ _))

/-- A row of `blocks`. A tombstone has no data, and a live row has some. -/
@[ext]
structure Row where
  data : Option String
  version : ℤ
  deleted : Bool
  originNodeId : String
  originLsn : ℤ
  deleted_eq : deleted = data.isNone
deriving DecidableEq

namespace Row

/-- A live row. -/
def live (data : String) (version : ℤ) (originNodeId : String) (originLsn : ℤ) : Row :=
  ⟨some data, version, false, originNodeId, originLsn, rfl⟩

/-- A tombstone. -/
def tombstone (version : ℤ) (originNodeId : String) (originLsn : ℤ) : Row :=
  ⟨none, version, true, originNodeId, originLsn, rfl⟩

/-- What a client can tell of a row. -/
def visible (r : Row) : Option String × ℤ × Bool := (r.data, r.version, r.deleted)

/-- Rows are ordered by version, and a tombstone comes after the writes of its version. -/
def key (r : Row) : ℤ ×ₗ Bool := toLex (r.version, r.deleted)

theorem key_lt_key {r u : Row} :
    r.key < u.key ↔ r.version < u.version ∨ (r.version = u.version ∧ r.deleted < u.deleted) :=
  Prod.Lex.toLex_lt_toLex

theorem key_le_key {r u : Row} :
    r.key ≤ u.key ↔ r.version < u.version ∨ (r.version = u.version ∧ r.deleted ≤ u.deleted) :=
  Prod.Lex.toLex_le_toLex

/-- A row that is no newer has no greater version. -/
theorem version_le_of_key_le {r u : Row} (h : r.key ≤ u.key) : r.version ≤ u.version := by
  rcases key_le_key.mp h with hlt | ⟨heq, -⟩
  · exact hlt.le
  · exact heq.le

end Row

/-- The tables of the extent store. -/
structure ExtentStore where
  blocks : String → Option Row
  replayCursor : ℤ

namespace ExtentStore

/-- The store of an empty database. -/
def empty : ExtentStore := ⟨fun _ => none, 0⟩

/-- `INSERT … ON CONFLICT(block_id) DO UPDATE … WHERE guard`. -/
def upsert (db : ExtentStore) (blockId : String) (excluded : Row) (guard : Row → Bool) :
    ExtentStore :=
  match db.blocks blockId with
  | none => { db with blocks := Function.update db.blocks blockId (some excluded) }
  | some row =>
      if guard row then { db with blocks := Function.update db.blocks blockId (some excluded) }
      else db

/-- Source: `node/extent_store.py`, `save_if_newer`. -/
def saveIfNewer (db : ExtentStore) (blockId data : String) (version : ℤ) (originNodeId : String)
    (originLsn : ℤ) : Except StorageError ExtentStore :=
  if Bindable version ∧ Bindable originLsn then
    .ok (db.upsert blockId (.live data version originNodeId originLsn)
      fun row => decide (row.version < version))
  else .error .overflow

/-- Source: `node/extent_store.py`, `tombstone_if_newer`. -/
def tombstoneIfNewer (db : ExtentStore) (blockId : String) (version : ℤ) (originNodeId : String)
    (originLsn : ℤ) : Except StorageError ExtentStore :=
  if Bindable version ∧ Bindable originLsn then
    .ok (db.upsert blockId (.tombstone version originNodeId originLsn)
      fun row => decide (row.version < version) || (version == row.version && !row.deleted))
  else .error .overflow

/-- Source: `node/extent_store.py`, `set_replay_cursor`. -/
def setReplayCursor (db : ExtentStore) (lsn : ℤ) : ExtentStore := { db with replayCursor := lsn }

/-- The store with `row` offered to the block's register. -/
def offer (db : ExtentStore) (blockId : String) (row : Row) : ExtentStore :=
  { db with blocks := Registers.put Row.key db.blocks blockId row }

/-- An upsert whose guard is the order of the keys is a put. -/
theorem upsert_eq_offer {db : ExtentStore} {blockId : String} {excluded : Row} {guard : Row → Bool}
    (h : ∀ row, guard row = true ↔ row.key < excluded.key) :
    db.upsert blockId excluded guard = db.offer blockId excluded := by
  unfold upsert offer Registers.put
  rcases hb : db.blocks blockId with _ | row
  · rfl
  · by_cases hg : guard row = true
    · simp [Register.put, hg, (h row).mp hg]
    · have hlt : ¬ row.key < excluded.key := fun hlt => hg ((h row).mpr hlt)
      simp only [Register.put, hg, hlt, if_false, Bool.false_eq_true]
      rw [← hb, Function.update_eq_self]

theorem saveIfNewer_eq (db : ExtentStore) (blockId data : String) (version : ℤ)
    (originNodeId : String) (originLsn : ℤ) :
    db.saveIfNewer blockId data version originNodeId originLsn =
      if Bindable version ∧ Bindable originLsn then
        .ok (db.offer blockId (.live data version originNodeId originLsn))
      else .error .overflow := by
  unfold saveIfNewer
  rw [upsert_eq_offer]
  intro row
  rw [Row.key_lt_key]
  simp [Row.live, Bool.lt_iff]

theorem tombstoneIfNewer_eq (db : ExtentStore) (blockId : String) (version : ℤ)
    (originNodeId : String) (originLsn : ℤ) :
    db.tombstoneIfNewer blockId version originNodeId originLsn =
      if Bindable version ∧ Bindable originLsn then
        .ok (db.offer blockId (.tombstone version originNodeId originLsn))
      else .error .overflow := by
  unfold tombstoneIfNewer
  rw [upsert_eq_offer]
  intro row
  rw [Row.key_lt_key]
  simp [Row.tombstone, Bool.lt_iff, eq_comm (a := version)]

end ExtentStore

end NanoFabric.Node
