import NanoFabric.Node.Recovery

/-!
# What an acknowledged write leaves

`write_local` as the endpoint `/replicate`, the hints and the repairs call it: with the version that
another node chose, and `allow_idempotent`.

* `judgeWrite_of_open`, `judgeWrite_of_newer`, `judgeWrite_of_same` — what the checks decide of such a
  write, by the row that it finds.
* `honestWrite_iff` — a normal return means that the data is held, and a raise that nothing changed,
  exactly for the rows and versions that `Running.Decides` lists.
-/

namespace NanoFabric.Node

open NanoFabric.Found

/-! ## What the checks decide -/

namespace ExtentStore

/-- A write of version `v` is let through: the block has no row, a tombstone or an older row. -/
def Open (db : ExtentStore) (b : String) (v : ℤ) : Prop :=
  ∀ row, db.blocks b = some row → row.deleted = true ∨ row.version < v

/-- The block's row is live with exactly this version and this data. -/
def Holds (db : ExtentStore) (b data : String) (v : ℤ) : Prop :=
  ∃ row, db.blocks b = some row ∧ row.deleted = false ∧ row.version = v ∧ row.data = some data

end ExtentStore

section judge

variable {db : ExtentStore} {b data : String} {v : ℤ} {origin : Option String} {lsn : Option ℤ}
  {row : Row}

theorem judgeWrite_of_open (h : db.Open b v) :
    StorageEngine.judgeWrite db b data (.idempotent v) origin lsn =
      .mutate ⟨some data, b, v, origin, lsn⟩ := by
  unfold StorageEngine.judgeWrite
  rcases hrow : db.blocks b with _ | row
  · rfl
  · simp only
    rcases h row hrow with hdel | hlt
    · simp [hdel]
    · simp [hlt.ne, not_lt.mpr hlt.le]

theorem judgeWrite_of_newer (hrow : db.blocks b = some row) (hlive : row.deleted = false)
    (hlt : v < row.version) :
    StorageEngine.judgeWrite db b data (.idempotent v) origin lsn =
      .refuse (.versionConflict b v row.version) := by
  simp [StorageEngine.judgeWrite, hrow, hlive, hlt]

theorem judgeWrite_of_same (hrow : db.blocks b = some row) (hlive : row.deleted = false)
    (hsame : row.version = v) :
    StorageEngine.judgeWrite db b data (.idempotent v) origin lsn =
      .already row.version row.originLsn := by
  simp [StorageEngine.judgeWrite, hrow, hlive, hsame]

/-- A block that is not open to a write has a live row that is no older. -/
theorem ExtentStore.not_open : ¬ db.Open b v ↔
    ∃ row, db.blocks b = some row ∧ row.deleted = false ∧ v ≤ row.version := by
  simp [ExtentStore.Open]

end judge

/-! ## The acknowledgement -/

namespace Running

variable {s : Running} {b data : String} {v : ℤ} {origin : Option String} {lsn : Option ℤ}

/-- A write that returns is held. One that raises raises a version conflict, and leaves the rows, the
cache and the oplog as they were. -/
structure HonestWrite (s : Running) (b data : String) (v : ℤ) (origin : Option String)
    (lsn : Option ℤ) : Prop where
  held : ∀ x, (s.engine.writeLocal s.disk b data (.idempotent v) origin lsn).result = .ok x →
    (s.run (.writeLocal b data (.idempotent v) origin lsn)).disk.db.Holds b data v
  refused : ∀ e, (s.engine.writeLocal s.disk b data (.idempotent v) origin lsn).result = .error e →
    (∃ current, e = .versionConflict b v current) ∧
      s.run (.writeLocal b data (.idempotent v) origin lsn) = s

/-- SQLite can bind the version and the origin LSN that a write would be stored with. -/
def Storable (s : Running) (v : ℤ) (lsn : Option ℤ) : Prop :=
  Bindable v ∧ Bindable (lsn.getD s.engine.oplog.nextLsn)

/-- The condition: a block without a row, or with an older one, tombstone or not, takes the write if
SQLite can store it; a live row of the same version has the same data; and a live row may be newer. -/
def Decides (s : Running) (b data : String) (v : ℤ) (lsn : Option ℤ) : Prop :=
  match s.disk.db.blocks b with
  | none => s.Storable v lsn
  | some row =>
      (row.version < v ∧ s.Storable v lsn) ∨
        (row.deleted = false ∧ (v < row.version ∨ (v = row.version ∧ row.data = some data)))

/-- What a write that is let through does, if SQLite can store it. -/
theorem writeLocal_of_open (data : String) (origin : Option String) (h : s.disk.db.Open b v)
    (hok : s.Storable v lsn) :
    (s.engine.writeLocal s.disk b data (.idempotent v) origin lsn).result =
        .ok (v, s.engine.oplog.nextLsn) ∧
      (s.run (.writeLocal b data (.idempotent v) origin lsn)).disk.db =
        s.disk.db.offer b (.live data v (s.engine.effectiveOrigin origin)
          (lsn.getD s.engine.oplog.nextLsn)) := by
  obtain ⟨cache, hlog, -⟩ := StorageEngine.log_of_storable (d := s.disk) (e := s.engine)
    (m := ⟨some data, b, v, origin, lsn⟩) hok
  unfold run call StorageEngine.writeLocal
  simp only [judgeWrite_of_open h, StorageEngine.settle, hlog]
  exact ⟨trivial, rfl⟩

/-- What a write that is let through raises otherwise: its record stays in the oplog. -/
theorem writeLocal_of_not_storable (data : String) (origin : Option String)
    (h : s.disk.db.Open b v) (hno : ¬ s.Storable v lsn) :
    (s.engine.writeLocal s.disk b data (.idempotent v) origin lsn).result = .error .overflow := by
  unfold StorageEngine.writeLocal
  rw [judgeWrite_of_open h]
  simp only [StorageEngine.settle]
  rw [StorageEngine.log_of_not_storable (m := ⟨some data, b, v, origin, lsn⟩) hno]

/-- A write that is let through is held if no tombstone is in its way. -/
theorem holds_offer_iff {db : ExtentStore} (data : String) (h : db.Open b v) (o : String) (l : ℤ) :
    (db.offer b (.live data v o l)).Holds b data v ↔
      ∀ row, db.blocks b = some row → row.version < v := by
  unfold ExtentStore.Holds ExtentStore.offer
  simp only [Registers.put_same]
  rcases hrow : db.blocks b with _ | row
  · exact iff_of_true ⟨_, rfl, rfl, rfl, rfl⟩ (by simp)
  · simp only [Option.some.injEq, forall_eq', Register.put, Row.key_lt_key]
    by_cases hlt : row.version < v
    · refine iff_of_true ⟨.live data v o l, if_pos (Or.inl hlt), rfl, rfl, rfl⟩ hlt
    · -- the row that is no older is a tombstone, and stays
      have hdel : row.deleted = true := (h row hrow).resolve_right hlt
      refine iff_of_false ?_ hlt
      rintro ⟨row', hrow', hlive, -⟩
      rw [if_neg (by simp [Row.live, hlt, hdel])] at hrow'
      rw [← Option.some.inj hrow', hdel] at hlive
      cases hlive

/-- A write that appends nothing leaves everything as it was. -/
theorem run_writeLocal_of_quiet {result : Except StorageError (ℤ × ℤ)}
    (h : s.engine.writeLocal s.disk b data (.idempotent v) origin lsn = ⟨s.engine, [], result⟩) :
    s.run (.writeLocal b data (.idempotent v) origin lsn) = s := by
  simp only [run, call, h]
  rfl

/-- A write that is let through is honest if SQLite can store it and no tombstone is in its way. -/
theorem honestWrite_of_open (hopen : s.disk.db.Open b v) :
    s.HonestWrite b data v origin lsn ↔
      s.Storable v lsn ∧ ∀ row, s.disk.db.blocks b = some row → row.version < v := by
  by_cases hok : s.Storable v lsn
  · obtain ⟨hres, hdb⟩ := writeLocal_of_open data origin hopen hok
    rw [and_iff_right hok, ← holds_offer_iff data hopen, ← hdb]
    constructor
    · exact fun h => h.held _ hres
    · refine fun h => ⟨fun _ _ => h, fun e he => ?_⟩
      rw [hres] at he
      cases he
  · -- the record of a write that SQLite rejects has been appended
    have hres := writeLocal_of_not_storable data origin hopen hok
    refine iff_of_false (fun h => ?_) fun h => hok h.1
    obtain ⟨⟨current, he⟩, -⟩ := h.refused _ hres
    cases he

/-- A write that finds a newer live row is refused. -/
theorem honestWrite_of_newer {row : Row} (hrow : s.disk.db.blocks b = some row)
    (hlive : row.deleted = false) (hlt : v < row.version) : s.HonestWrite b data v origin lsn := by
  have hout : s.engine.writeLocal s.disk b data (.idempotent v) origin lsn =
      ⟨s.engine, [], .error (.versionConflict b v row.version)⟩ := by
    unfold StorageEngine.writeLocal
    rw [judgeWrite_of_newer hrow hlive hlt]
    rfl
  constructor
  · intro x hx
    rw [hout] at hx
    cases hx
  · intro e he
    rw [hout] at he
    cases he
    exact ⟨⟨_, rfl⟩, run_writeLocal_of_quiet hout⟩

/-- A write that finds a live row of its version returns, whatever the data. -/
theorem honestWrite_of_same {row : Row} (hrow : s.disk.db.blocks b = some row)
    (hlive : row.deleted = false) (hsame : row.version = v) :
    s.HonestWrite b data v origin lsn ↔ row.data = some data := by
  have hout : s.engine.writeLocal s.disk b data (.idempotent v) origin lsn =
      ⟨s.engine, [], .ok (row.version, row.originLsn)⟩ := by
    unfold StorageEngine.writeLocal
    rw [judgeWrite_of_same hrow hlive hsame]
    rfl
  constructor
  · intro h
    obtain ⟨row', hrow', -, -, hdata⟩ := h.held _ (by rw [hout])
    rw [run_writeLocal_of_quiet hout, hrow] at hrow'
    exact Option.some.inj hrow' ▸ hdata
  · intro hdata
    constructor
    · intro x hx
      rw [run_writeLocal_of_quiet hout]
      exact ⟨row, hrow, hlive, hsame, hdata⟩
    · intro e he
      rw [hout] at he
      cases he

end Running

/-- **Acknowledged writes.** For every engine and every write, a normal return means that the row is
live with exactly this version and data, and a raise that it was a conflict and changed nothing, if and
only if the row that the write finds and the write itself meet the condition. -/
theorem honestWrite_iff (s : Running) (b data : String) (v : ℤ) (origin : Option String)
    (lsn : Option ℤ) : s.HonestWrite b data v origin lsn ↔ s.Decides b data v lsn := by
  unfold Running.Decides
  rcases hrow : s.disk.db.blocks b with _ | row
  · have hopen : s.disk.db.Open b v := by simp [ExtentStore.Open, hrow]
    rw [Running.honestWrite_of_open hopen]
    simp [hrow]
  · rcases lt_or_ge row.version v with hlt | hle
    · have hopen : s.disk.db.Open b v := by simp [ExtentStore.Open, hrow, hlt]
      rw [Running.honestWrite_of_open hopen]
      simp [hrow, hlt, hlt.ne', hlt.le]
    · simp only [not_lt.mpr hle, false_and, false_or]
      rcases hdel : row.deleted with _ | _
      · rcases hle.lt_or_eq with hlt | heq
        · exact iff_of_true (Running.honestWrite_of_newer hrow hdel hlt) ⟨rfl, Or.inl hlt⟩
        · rw [Running.honestWrite_of_same hrow hdel heq.symm]
          simp [heq]
      · have hopen : s.disk.db.Open b v := by simp [ExtentStore.Open, hrow, hdel]
        rw [Running.honestWrite_of_open hopen]
        simp [hrow, hle]

/-- One block, written once. -/
def oneWrite : List StorageEvent := [.call (.writeLocal "a" "one" (.resolve none) none none)]

/-- Another primary chose the same version. -/
theorem honestWrite_counterexample : ¬ ∀ s, node1.run oneWrite = some s →
    s.HonestWrite "a" "two" 1 (some "node2") (some 1) := by
  intro h
  have hrun : (node1.run oneWrite).map (fun s =>
      (((s.engine.writeLocal s.disk "a" "two" (.idempotent 1) (some "node2") (some 1)).result.toOption),
        ((s.run (.writeLocal "a" "two" (.idempotent 1) (some "node2") (some 1))).disk.db.blocks
          "a").map Row.data)) = some (some (1, 1), some (some "one")) := by
    decide +kernel
  obtain ⟨s, hs, heq⟩ := Option.map_eq_some_iff.mp hrun
  obtain ⟨hres, hdata⟩ := Prod.mk.inj heq
  rcases hout : (s.engine.writeLocal s.disk "a" "two" (.idempotent 1) (some "node2")
    (some 1)).result with e | x
  · rw [hout] at hres
    cases hres
  · obtain ⟨row, hrow, -, -, htwo⟩ := (h s hs).held x hout
    rw [hrow, Option.map_some, htwo] at hdata
    exact absurd hdata (by simp)

end NanoFabric.Node
