import NanoFabric.Node.StorageEngine

/-!
# What the engine's calls do

One lemma for each layer, so that the proofs about runs unfold none of the code.

* `applyEntry_of_bindable` — applying a record offers its row to the block's register.
* `log_of_storable`, `log_of_not_storable` — a mutation is logged and then stored, or logged and then
  rejected by SQLite.
* `Running.call_cases` — a call does nothing durable, mutates, purges or checkpoints.
* `replayed_of_settled` — replaying records that the store has absorbed changes no block.
* `Running.Coherent` — between two calls the open oplog agrees with its file and the cache with the
  table.
-/

namespace NanoFabric.Node

open NanoFabric.Found

/-! ## Rows of records -/

/-- The row that a record offers to its block; a checkpoint offers none. -/
def OplogEntry.row (e : OplogEntry) : Option Row :=
  match e.op with
  | .write data => some (.live data e.version e.nodeId e.lsn)
  | .delete => some (.tombstone e.version e.nodeId e.lsn)
  | .checkpoint _ => none

/-- The row of a mutation, as it is stored with an origin. -/
def Mutation.row (m : Mutation) (originNodeId : String) (originLsn : ℤ) : Row :=
  match m.data with
  | some data => .live data m.version originNodeId originLsn
  | none => .tombstone m.version originNodeId originLsn

section rows

variable {e : OplogEntry} {m : Mutation} {r : Row} {o o' : String} {l l' : ℤ}

theorem OplogEntry.row_eq_none : e.row = none ↔ e.isCheckpoint = true := by
  unfold row isCheckpoint
  split <;> simp_all

theorem OplogEntry.row_mutation (lsn : ℤ) (nodeId : String) (m : Mutation) :
    (OplogEntry.mk lsn nodeId m.op m.blockId m.version).row = some (m.row nodeId lsn) := by
  unfold row Mutation.op Mutation.row
  cases m.data <;> rfl

@[simp] theorem Mutation.row_version : (m.row o l).version = m.version := by
  unfold row
  cases m.data <;> rfl

@[simp] theorem Mutation.row_data : (m.row o l).data = m.data := by
  unfold row
  rcases m.data with _ | data <;> rfl

@[simp] theorem Mutation.row_originLsn : (m.row o l).originLsn = l := by
  unfold row
  cases m.data <;> rfl

/-- The origin of a row is not seen and does not count in its order. -/
theorem Mutation.row_key : (m.row o l).key = (m.row o' l').key := by
  unfold row
  cases m.data <;> rfl

theorem Mutation.row_visible : (m.row o l).visible = (m.row o' l').visible := by
  unfold row
  cases m.data <;> rfl

end rows

/-! ## The cache -/

namespace Cache

variable {c : Cache} {b k : String} {r u : Row}

/-- Every cached record is the live row of its block. -/
def Coherent (c : Cache) (db : ExtentStore) : Prop :=
  ∀ b r, (b, r) ∈ c.entries → db.blocks b = some r ∧ r.deleted = false

theorem mem_remove : (b, r) ∈ (c.remove k).entries ↔ (b, r) ∈ c.entries ∧ b ≠ k := by
  simp [remove]

theorem mem_put (h : (b, r) ∈ (c.put k u).entries) :
    ((b, r) ∈ c.entries ∧ b ≠ k) ∨ (b = k ∧ r = u) := by
  unfold put at h
  have := List.mem_of_mem_drop h
  rw [List.mem_append, mem_remove, List.mem_singleton, Prod.mk.injEq] at this
  exact this

theorem mem_of_lookup (h : c.lookup b = some r) : (b, r) ∈ c.entries := by
  unfold lookup at h
  obtain ⟨l, l', heq, -⟩ := List.lookup_eq_some_iff.mp h
  rw [heq]
  exact List.mem_append_right _ List.mem_cons_self

theorem mem_get (h : (b, r) ∈ (c.get k).2.entries) : (b, r) ∈ c.entries := by
  unfold get at h
  split at h
  · exact h
  · rename_i u hu
    rcases List.mem_append.mp h with h | h
    · exact (mem_remove.mp h).1
    · rw [List.mem_singleton, Prod.mk.injEq] at h
      obtain ⟨rfl, rfl⟩ := h
      exact mem_of_lookup hu

end Cache

/-! ## Applying a record -/

namespace StorageEngine

variable {a : Applied} {entry : OplogEntry}

/-- The row that applying a write leaves is cached if it is live, and a tombstone of its block was
not cached. -/
theorem coherent_write {cache : Cache} {db : ExtentStore} {blockId : String} {u row : Row}
    (hrow : (db.offer blockId u).blocks blockId = some row) (hlive : u.deleted = false)
    (hcoh : cache.Coherent db) :
    (if row.deleted then cache else cache.put blockId row).Coherent (db.offer blockId u) := by
  have hother : ∀ {b : String}, b ≠ blockId →
      (db.offer blockId u).blocks b = db.blocks b := fun hb => Registers.put_of_ne hb
  have hsame : Register.put Row.key (db.blocks blockId) u = some row :=
    Registers.put_same.symm.trans hrow
  intro b r hmem
  by_cases hdel : row.deleted = true
  · rw [if_pos hdel] at hmem
    have hb : b ≠ blockId := by
      rintro rfl
      obtain ⟨hold, hr⟩ := hcoh b r hmem
      rcases Register.put_eq_or Row.key (db.blocks b) u with hput | ⟨hput, -⟩
      · obtain rfl := Option.some.inj (hput.symm.trans hsame)
        rw [hlive] at hdel
        cases hdel
      · obtain rfl := Option.some.inj (hold.symm.trans (hput.symm.trans hsame))
        rw [hr] at hdel
        cases hdel
    rw [hother hb]
    exact hcoh b r hmem
  · rw [if_neg hdel] at hmem
    rcases Cache.mem_put hmem with ⟨hmem, hb⟩ | ⟨rfl, rfl⟩
    · rw [hother hb]
      exact hcoh b r hmem
    · exact ⟨hrow, by simpa using hdel⟩

/-- Applying a record offers its row to the block. -/
theorem applyEntry_of_bindable {r : Row} (hr : entry.row = some r)
    (hb : Bindable entry.version ∧ Bindable entry.lsn) :
    ∃ cache, applyEntry a entry = .ok ⟨a.db.offer entry.blockId r, cache, a.lastCheckpointLsn⟩ ∧
      (a.cache.Coherent a.db → cache.Coherent (a.db.offer entry.blockId r)) := by
  obtain ⟨lsn, nodeId, op, blockId, version⟩ := entry
  cases op with
  | checkpoint throughLsn => cases hr
  | write data =>
      cases hr
      obtain ⟨row, hrow, -⟩ := Register.absorbs_put Row.key (a.db.blocks blockId)
        (Row.live data version nodeId lsn)
      have hrow' : (a.db.offer blockId (.live data version nodeId lsn)).blocks blockId = some row :=
        Registers.put_same.trans hrow
      refine ⟨_, ?_, coherent_write hrow' rfl⟩
      unfold applyEntry applyWriteEntry
      simp only [ExtentStore.saveIfNewer_eq]
      rw [if_pos hb]
      simp only [hrow']
  | delete =>
      cases hr
      refine ⟨a.cache.remove blockId, ?_, fun hcoh b r hmem => ?_⟩
      · unfold applyEntry applyDeleteEntry
        simp only [ExtentStore.tombstoneIfNewer_eq]
        rw [if_pos hb]
      · obtain ⟨hmem, hne⟩ := Cache.mem_remove.mp hmem
        have hother : (a.db.offer blockId (.tombstone version nodeId lsn)).blocks b =
            a.db.blocks b := Registers.put_of_ne hne
        rw [hother]
        exact hcoh b r hmem

theorem applyEntry_of_not_bindable (hr : entry.row ≠ none)
    (hb : ¬ (Bindable entry.version ∧ Bindable entry.lsn)) :
    applyEntry a entry = .error .overflow := by
  obtain ⟨lsn, nodeId, op, blockId, version⟩ := entry
  cases op with
  | checkpoint throughLsn => exact absurd rfl hr
  | write data =>
      unfold applyEntry applyWriteEntry ExtentStore.saveIfNewer
      simp only
      rw [if_neg hb]
  | delete =>
      unfold applyEntry applyDeleteEntry ExtentStore.tombstoneIfNewer
      simp only
      rw [if_neg hb]

/-! ## Replay -/

/-- The record can be replayed: SQLite can bind its integers. -/
def Replayable (e : OplogEntry) : Prop := e.row ≠ none → Bindable e.version ∧ Bindable e.lsn

/-- The block's row is at least as new as the record. -/
def Settled (db : ExtentStore) (e : OplogEntry) : Prop :=
  ∀ r, e.row = some r → Register.Absorbs Row.key (db.blocks e.blockId) r

instance (db : ExtentStore) (e : OplogEntry) : Decidable (Settled db e) :=
  match h : e.row with
  | none => .isTrue fun r hr => by rw [h] at hr; cases hr
  | some r => decidable_of_iff (Register.Absorbs Row.key (db.blocks e.blockId) r)
      ⟨fun habs r' hr' => by rw [h] at hr'; cases hr'; exact habs, fun hs => hs r h⟩

/-- Applying a record that is settled changes no block. -/
theorem applyEntry_of_settled (hb : Replayable entry) (hs : Settled a.db entry) :
    ∃ a', applyEntry a entry = .ok a' ∧ a'.db = a.db ∧
      (a.cache.Coherent a.db → a'.cache.Coherent a'.db) := by
  rcases hr : entry.row with _ | r
  · have hck := OplogEntry.row_eq_none.mp hr
    obtain ⟨lsn, nodeId, op, blockId, version⟩ := entry
    cases op with
    | checkpoint throughLsn => exact ⟨_, rfl, rfl, id⟩
    | write data => cases hck
    | delete => cases hck
  · obtain ⟨cache, happ, hcoh⟩ := applyEntry_of_bindable (a := a) hr (hb (by simp [hr]))
    have hsame : a.db.offer entry.blockId r = a.db := by
      unfold ExtentStore.offer
      rw [Registers.put_eq_of_absorbs (hs r hr)]
    exact ⟨_, happ, hsame, hcoh⟩

theorem replayEntry_skip {c : ℤ} (hpos : 0 < entry.lsn) (h : entry.lsn ≤ c) :
    replayEntry (a, c) entry = .ok (a, c) := by
  simp only [replayEntry]
  rw [if_pos ⟨hpos.ne', h⟩]

theorem replayEntry_apply {c : ℤ} {a' : Applied} (hpos : 0 < entry.lsn) (h : c < entry.lsn)
    (happ : applyEntry a entry = .ok a') : replayEntry (a, c) entry = .ok (a', entry.lsn) := by
  simp only [replayEntry]
  rw [if_neg (fun hskip => absurd hskip.2 (not_le.mpr h)), happ]
  simp [hpos.ne']

/-- Records after which the replay loop stands at `c'`. -/
def Covers (c : ℤ) (file : List OplogEntry) (c' : ℤ) : Prop := c ≤ c' ∧ ∀ e ∈ file, e.lsn ≤ c'

/-- The replay loop changes no block if the store has absorbed what the cursor does not cover. -/
theorem foldlM_replayEntry_of_settled {file : List OplogEntry} {c : ℤ}
    (hpos : ∀ e ∈ file, 0 < e.lsn) (hb : ∀ e ∈ file, Replayable e)
    (hs : ∀ e ∈ file, c < e.lsn → Settled a.db e) :
    ∃ a' c', file.foldlM replayEntry (a, c) = .ok (a', c') ∧ a'.db = a.db ∧ Covers c file c' ∧
      (a.cache.Coherent a.db → a'.cache.Coherent a'.db) := by
  induction file generalizing a c with
  | nil => exact ⟨a, c, rfl, rfl, ⟨le_rfl, by simp⟩, id⟩
  | cons e file ih =>
      have hlsn := hpos e List.mem_cons_self
      -- the first record is skipped, or applied to no effect
      obtain ⟨a₁, c₁, hfirst, hdb₁, hle, he, hcoh₁⟩ : ∃ a₁ c₁, replayEntry (a, c) e = .ok (a₁, c₁) ∧
          a₁.db = a.db ∧ c ≤ c₁ ∧ e.lsn ≤ c₁ ∧
          (a.cache.Coherent a.db → a₁.cache.Coherent a₁.db) := by
        rcases le_or_gt e.lsn c with hskip | hlt
        · exact ⟨a, c, replayEntry_skip hlsn hskip, rfl, le_rfl, hskip, id⟩
        · obtain ⟨a', happ, hdb, hcoh⟩ :=
            applyEntry_of_settled (hb e List.mem_cons_self) (hs e List.mem_cons_self hlt)
          exact ⟨a', e.lsn, replayEntry_apply hlsn hlt happ, hdb, hlt.le, le_rfl, hcoh⟩
      obtain ⟨a', c', hrest, hdb', ⟨hle', hcov⟩, hcoh'⟩ := ih (a := a₁) (c := c₁)
        (fun e' h => hpos e' (List.mem_cons_of_mem _ h))
        (fun e' h => hb e' (List.mem_cons_of_mem _ h))
        (fun e' h hlt => hdb₁ ▸ hs e' (List.mem_cons_of_mem _ h) (hle.trans_lt hlt))
      refine ⟨a', c', ?_, hdb'.trans hdb₁, ⟨hle.trans hle', ?_⟩, fun h => hcoh' (hcoh₁ h)⟩
      · rw [List.foldlM_cons, hfirst]
        exact hrest
      · intro e' he'
        rcases List.mem_cons.mp he' with rfl | he'
        · exact he.trans hle'
        · exact hcov e' he'

/-! ## Logging a mutation -/

/-- The record that a mutation appends. -/
def entryOf (e : StorageEngine) (m : Mutation) : OplogEntry :=
  (e.oplog.append m.op m.blockId m.version).1

/-- The engine after the append. -/
def appended (e : StorageEngine) (m : Mutation) : StorageEngine :=
  { e with oplog := (e.oplog.append m.op m.blockId m.version).2 }

/-- SQLite can bind the integers of the mutation's row. -/
def Storable (e : StorageEngine) (m : Mutation) : Prop :=
  Bindable m.version ∧ Bindable (m.originLsn.getD e.oplog.nextLsn)

instance (e : StorageEngine) (m : Mutation) : Decidable (e.Storable m) :=
  inferInstanceAs (Decidable (_ ∧ _))

/-- The store after a mutation. -/
def stored (e : StorageEngine) (db : ExtentStore) (m : Mutation) : ExtentStore :=
  db.offer m.blockId
    (m.row (e.effectiveOrigin m.originNodeId) (m.originLsn.getD e.oplog.nextLsn))

/-- A mutation whose row SQLite accepts is logged, then stored. -/
theorem log_of_storable {e : StorageEngine} {d : Disk} {m : Mutation} (hok : e.Storable m) :
    ∃ cache, e.log d m = ⟨{ e.appended m with cache },
        [.appendLine (e.entryOf m), .commit (e.stored d.db m),
          .saveManifest (e.appended m).manifest], .ok (m.version, e.oplog.nextLsn)⟩ ∧
      (e.cache.Coherent d.db → cache.Coherent (e.stored d.db m)) := by
  obtain ⟨cache, happ, hcoh⟩ := applyEntry_of_bindable
    (a := ⟨d.db, e.cache, e.lastCheckpointLsn⟩)
    (OplogEntry.row_mutation (m.originLsn.getD e.oplog.nextLsn)
      (e.effectiveOrigin m.originNodeId) m) hok
  refine ⟨cache, ?_, hcoh⟩
  unfold log
  simp only [Oplog.append]
  rw [happ]
  rfl

/-- A mutation whose row SQLite rejects has been logged all the same. -/
theorem log_of_not_storable {e : StorageEngine} {d : Disk} {m : Mutation} (hno : ¬ e.Storable m) :
    e.log d m = ⟨e.appended m, [.appendLine (e.entryOf m)], .error .overflow⟩ := by
  have happ : applyEntry ⟨d.db, e.cache, e.lastCheckpointLsn⟩
      ⟨m.originLsn.getD e.oplog.nextLsn, e.effectiveOrigin m.originNodeId, m.op, m.blockId,
        m.version⟩ = .error .overflow :=
    applyEntry_of_not_bindable (by simp [OplogEntry.row_mutation]) hno
  unfold log
  simp only [Oplog.append]
  rw [happ]
  rfl

end StorageEngine

/-! ## Calls -/

/-- The block of a write or a delete. -/
def EngineOp.target : EngineOp → Option String
  | .writeLocal blockId .. => some blockId
  | .deleteLocal blockId .. => some blockId
  | _ => none

/-- What the checks of a write or a delete decide. -/
def EngineOp.verdict (db : ExtentStore) : EngineOp → Option Verdict
  | .writeLocal blockId data mode originNodeId originLsn =>
      some (StorageEngine.judgeWrite db blockId data mode originNodeId originLsn)
  | .deleteLocal blockId version originNodeId originLsn allowIdempotent =>
      some (StorageEngine.judgeDelete db blockId version originNodeId originLsn allowIdempotent)
  | _ => none

/-- The mutation that a call is about to log, if it passes its checks. -/
def EngineOp.mutation (db : ExtentStore) (op : EngineOp) : Option Mutation :=
  match op.verdict db with
  | some (.mutate m) => some m
  | _ => none

/-- The call appends a record: a checkpoint, or a write or delete that passes its checks. -/
def EngineOp.appends (db : ExtentStore) (op : EngineOp) : Bool :=
  match op with
  | .checkpoint _ => true
  | op => (op.mutation db).isSome

theorem EngineOp.appends_of_verdict {db : ExtentStore} {op : EngineOp} {v : Verdict}
    (hv : op.verdict db = some v) : op.appends db = (op.mutation db).isSome := by
  cases op with
  | checkpoint throughLsn => cases hv
  | _ => rfl

theorem EngineOp.appends_of_mutation {db : ExtentStore} {op : EngineOp} {m : Mutation}
    (hm : op.mutation db = some m) : op.appends db = true := by
  unfold appends
  split
  · rfl
  · rw [hm]
    rfl

/-- What a call does to the disk, and to the engine up to its cache. -/
inductive Running.Calls (s : Running) : EngineOp → StorageEngine → List DiskEffect → Prop
  /-- Reads, and what the checks refuse or have already. -/
  | quiet {op : EngineOp} {cache : Cache} (hm : op.appends s.disk.db = false)
      (hcoh : s.engine.cache.Coherent s.disk.db → cache.Coherent s.disk.db) :
      Calls s op { s.engine with cache } []
  | stored {op : EngineOp} {m : Mutation} {cache : Cache} (hm : op.mutation s.disk.db = some m)
      (hok : s.engine.Storable m)
      (hcoh : s.engine.cache.Coherent s.disk.db → cache.Coherent (s.engine.stored s.disk.db m)) :
      Calls s op { s.engine.appended m with cache }
        [.appendLine (s.engine.entryOf m), .commit (s.engine.stored s.disk.db m),
          .saveManifest (s.engine.appended m).manifest]
  /-- The record is durable before SQLite rejects the row. -/
  | rejected {op : EngineOp} {m : Mutation} (hm : op.mutation s.disk.db = some m)
      (hno : ¬ s.engine.Storable m) :
      Calls s op (s.engine.appended m) [.appendLine (s.engine.entryOf m)]
  | purged : Calls s .purgeAllBlocks (s.engine.purgeAllBlocks s.disk).engine
      (s.engine.purgeAllBlocks s.disk).effects
  | checkpointed (throughLsn : Option ℤ) : Calls s (.checkpoint throughLsn)
      (s.engine.checkpoint s.disk throughLsn).engine
      (s.engine.checkpoint s.disk throughLsn).effects

theorem Running.calls_settle {s : Running} {op : EngineOp} {v : Verdict}
    (hv : op.verdict s.disk.db = some v) :
    s.Calls op (s.engine.settle s.disk v).engine (s.engine.settle s.disk v).effects := by
  cases v with
  | refuse err =>
      exact .quiet (by rw [EngineOp.appends_of_verdict hv]; simp [EngineOp.mutation, hv]) id
  | already version lsn =>
      exact .quiet (by rw [EngineOp.appends_of_verdict hv]; simp [EngineOp.mutation, hv]) id
  | mutate m =>
      have hm : op.mutation s.disk.db = some m := by simp [EngineOp.mutation, hv]
      simp only [StorageEngine.settle]
      by_cases hok : s.engine.Storable m
      · obtain ⟨cache, hlog, hcoh⟩ := StorageEngine.log_of_storable (d := s.disk) hok
        rw [hlog]
        exact .stored hm hok hcoh
      · rw [StorageEngine.log_of_not_storable hok]
        exact .rejected hm hok

/-- A read caches the live row that it returns. -/
theorem Running.calls_readBlock (s : Running) (blockId : String) :
    s.Calls (.readBlock blockId) (s.engine.readBlock s.disk blockId).engine
      (s.engine.readBlock s.disk blockId).effects := by
  unfold StorageEngine.readBlock
  split
  · rename_i row cache hget
    refine .quiet rfl fun hcoh b r hmem => hcoh b r (Cache.mem_get (k := blockId) ?_)
    rwa [hget]
  · split
    · exact .quiet rfl id
    · rename_i row hrow
      split
      · exact .quiet rfl id
      · rename_i hdel
        refine .quiet rfl fun hcoh b r hmem => ?_
        rcases Cache.mem_put hmem with ⟨hmem, -⟩ | ⟨rfl, rfl⟩
        · exact hcoh b r hmem
        · exact ⟨hrow, by simpa using hdel⟩

theorem Running.call_cases (s : Running) (op : EngineOp) :
    s.Calls op (s.call op).1 (s.call op).2 := by
  cases op with
  | writeLocal blockId data mode originNodeId originLsn => exact calls_settle rfl
  | deleteLocal blockId version originNodeId originLsn allowIdempotent => exact calls_settle rfl
  | purgeAllBlocks => exact .purged
  | checkpoint throughLsn => exact .checkpointed throughLsn
  | readBlock blockId => exact s.calls_readBlock blockId

end NanoFabric.Node
