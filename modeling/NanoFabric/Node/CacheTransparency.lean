import NanoFabric.Node.Recovery

/-!
# The cache is transparent

Runs of one engine with calls, restarts and crashes, beside runs of an engine that reads the table
directly.

* `opened_cases` — what every record that is applied keeps, an opening keeps.
* `Running.Cached` — every cached record is the live row of its block; kept by every event.
* `readings_eq` — the reads of a run return what the table holds when they are made.
-/

namespace NanoFabric.Node

open NanoFabric.Found

/-! ## Openings -/

namespace StorageEngine

variable {a a' : Applied} {e : OplogEntry} {P : Applied → Prop}

/-- A record that is applied offers its row to its block, if it has one. -/
theorem applyEntry_eq_ok (h : applyEntry a e = .ok a') :
    (a'.db = a.db ∨ ∃ r, a'.db = a.db.offer e.blockId r) ∧
      (a.cache.Coherent a.db → a'.cache.Coherent a'.db) := by
  rcases hr : e.row with _ | r
  · have hb : Replayable e := fun hne => absurd hr hne
    have hs : Settled a.db e := fun r hr' => by rw [hr] at hr'; cases hr'
    obtain ⟨a₁, happ, hdb, hcoh⟩ := applyEntry_of_settled hb hs
    obtain rfl := Except.ok.inj (happ.symm.trans h)
    exact ⟨.inl hdb, hcoh⟩
  · by_cases hb : Bindable e.version ∧ Bindable e.lsn
    · obtain ⟨cache, happ, hcoh⟩ := applyEntry_of_bindable (a := a) hr hb
      obtain rfl := Except.ok.inj (happ.symm.trans h)
      exact ⟨.inr ⟨r, rfl⟩, hcoh⟩
    · rw [applyEntry_of_not_bindable (by simp [hr]) hb] at h
      cases h

/-- What every record that is applied keeps, the replay loop keeps. -/
theorem foldlM_replayEntry_induction (hP : ∀ a e a', P a → applyEntry a e = .ok a' → P a')
    {file : List OplogEntry} {c c' : ℤ} (ha : P a)
    (h : file.foldlM replayEntry (a, c) = .ok (a', c')) : P a' := by
  induction file generalizing a c with
  | nil =>
      obtain ⟨rfl, -⟩ := Prod.mk.inj (Except.ok.inj h)
      exact ha
  | cons e file ih =>
      rw [List.foldlM_cons] at h
      rcases hfirst : replayEntry (a, c) e with err | ⟨a₁, c₁⟩
      · rw [hfirst] at h
        cases h
      · rw [hfirst] at h
        refine ih ?_ h
        simp only [replayEntry] at hfirst
        split at hfirst
        · cases hfirst
          exact ha
        · split at hfirst
          · cases hfirst
          · rename_i a₂ happ
            cases hfirst
            exact hP a e _ ha happ

/-- An opening changes nothing, or commits what the replay left and caches nothing else. -/
theorem opened_cases (nodeId : String) (cacheMaxEntries : ℕ) (d : Disk)
    (hP : ∀ a e a', P a → applyEntry a e = .ok a' → P a')
    (hd : P ⟨d.db, ⟨cacheMaxEntries, []⟩, d.lastCheckpointLsn⟩) :
    (∃ e err, opened nodeId cacheMaxEntries d = ⟨e, [], .error err⟩) ∨
      ∃ e a c m, opened nodeId cacheMaxEntries d =
          ⟨e, [.commit (a.db.setReplayCursor c), .saveManifest m], .ok ()⟩ ∧
        P a ∧ e.cache = a.cache := by
  unfold opened replayOplog
  rcases hfold : d.oplog.foldlM replayEntry
    (⟨d.db, ⟨cacheMaxEntries, []⟩, d.lastCheckpointLsn⟩, d.db.replayCursor) with err | ⟨a, c⟩
  · simp only [hfold]
    exact .inl ⟨_, err, rfl⟩
  · simp only [hfold]
    exact .inr ⟨_, a, c, _, rfl, foldlM_replayEntry_induction hP hd hfold, rfl⟩

end StorageEngine

/-- A node that opens its directory has done all the effects of the opening. -/
theorem EngineConfig.boot_eq_some {cfg : EngineConfig} {d : Disk} {s : Running}
    (h : cfg.boot d = some s) :
    (StorageEngine.opened cfg.nodeId cfg.cacheMaxEntries d).result = .ok () ∧
      s = ⟨(StorageEngine.opened cfg.nodeId cfg.cacheMaxEntries d).engine,
        d.performAll (cfg.openingEffects d)⟩ := by
  simp only [boot] at h
  split at h
  · rename_i hres
    exact ⟨hres, (Option.some.inj h).symm⟩
  · cases h

/-! ## The invariant -/

/-- Every cached record is the live row of its block. -/
def Running.Cached (s : Running) : Prop := s.engine.cache.Coherent s.disk.db

theorem Running.Cached.run {s : Running} (h : s.Cached) (op : EngineOp) : (s.run op).Cached := by
  have hcalls := s.call_cases op
  unfold Running.Cached Running.run
  generalize s.call op = out at hcalls ⊢
  obtain ⟨e', effects⟩ := out
  cases hcalls with
  | quiet hm hcoh => exact hcoh h
  | stored hm hok hcoh => exact hcoh h
  | rejected hm hno => exact h
  | purged => exact fun _ _ hmem => absurd hmem List.not_mem_nil
  | checkpointed throughLsn => exact h

theorem EngineConfig.cached_of_boot {cfg : EngineConfig} {d : Disk} {s : Running}
    (h : cfg.boot d = some s) : s.Cached := by
  obtain ⟨hres, rfl⟩ := boot_eq_some h
  unfold Running.Cached openingEffects
  rcases StorageEngine.opened_cases cfg.nodeId cfg.cacheMaxEntries d
    (P := fun a => a.cache.Coherent a.db)
    (fun a e a' ha happ => (StorageEngine.applyEntry_eq_ok happ).2 ha)
    (fun _ _ hmem => absurd hmem List.not_mem_nil) with
    ⟨e, err, hopen⟩ | ⟨e, a, c, m, hopen, hcoh, hcache⟩
  · rw [hopen] at hres
    cases hres
  · rw [hopen]
    simp only [hcache]
    exact hcoh

theorem EngineConfig.cached_of_step {cfg : EngineConfig} {s s' : Running} {ev : StorageEvent}
    (h : s.Cached) (hs : cfg.step s ev = some s') : s'.Cached := by
  cases ev with
  | call op => exact Option.some.inj hs ▸ h.run op
  | restart => exact cached_of_boot hs
  | crash inFlight openings => exact cached_of_boot hs

/-- In every run every cached record is the live row of its block. -/
theorem EngineConfig.cached_of_run {cfg : EngineConfig} {evs : List StorageEvent} {s : Running}
    (h : cfg.run evs = some s) : s.Cached := by
  unfold EngineConfig.run EngineConfig.runWhile at h
  obtain ⟨s₀, hboot, hrun⟩ := Option.bind_eq_some_iff.mp h
  exact runWhile_induction (fun _ _ _ hc _ hs => cached_of_step hc hs) (cached_of_boot hboot) hrun

/-! ## Reads -/

/-- What `read_block` returns without a cache. -/
def Disk.readRow (d : Disk) (blockId : String) : Except StorageError (Option BlockRecord) :=
  match d.db.blocks blockId with
  | none => .ok none
  | some row =>
      if row.deleted then .ok none else .ok (some (StorageEngine.blockRecord blockId row))

/-- A read through a coherent cache returns what the table holds. -/
theorem Running.Cached.readBlock {s : Running} (h : s.Cached) (b : String) :
    (s.engine.readBlock s.disk b).result = s.disk.readRow b := by
  unfold StorageEngine.readBlock Disk.readRow Cache.get
  rcases hcached : s.engine.cache.lookup b with _ | row
  · rcases hrow : s.disk.db.blocks b with _ | row
    · rfl
    · simp only
      split <;> rfl
  · obtain ⟨hrow, hdel⟩ := h b row (Cache.mem_of_lookup hcached)
    simp [hrow, hdel]

/-! ## Two engines -/

/-- The engine with another cache. -/
def StorageEngine.withCache (e : StorageEngine) (cache : Cache) : StorageEngine := { e with cache }

theorem StorageEngine.log_withCache (e : StorageEngine) (cache : Cache) (d : Disk) (m : Mutation) :
    ∃ cache', (e.withCache cache).log d m =
      { e.log d m with engine := (e.log d m).engine.withCache cache' } := by
  by_cases hok : e.Storable m
  · obtain ⟨c₁, hlog, -⟩ := log_of_storable (d := d) hok
    obtain ⟨c₂, hlog', -⟩ := log_of_storable (e := e.withCache cache) (d := d) (m := m) hok
    refine ⟨c₂, ?_⟩
    rw [hlog, hlog']
    rfl
  · refine ⟨cache, ?_⟩
    rw [log_of_not_storable hok, log_of_not_storable (e := e.withCache cache) (m := m) hok]
    rfl

theorem StorageEngine.settle_withCache (e : StorageEngine) (cache : Cache) (d : Disk) (v : Verdict) :
    ∃ cache', (e.withCache cache).settle d v =
      { e.settle d v with engine := (e.settle d v).engine.withCache cache' } := by
  cases v with
  | refuse err => exact ⟨cache, rfl⟩
  | already version lsn => exact ⟨cache, rfl⟩
  | mutate m => exact e.log_withCache cache d m

/-- A read leaves everything but the cache as it was. -/
theorem StorageEngine.readBlock_engine (e : StorageEngine) (d : Disk) (b : String) :
    ∃ cache, (e.readBlock d b).engine = e.withCache cache ∧ (e.readBlock d b).effects = [] := by
  unfold readBlock
  split
  · exact ⟨_, rfl, rfl⟩
  · split
    · exact ⟨_, rfl, rfl⟩
    · split
      · exact ⟨_, rfl, rfl⟩
      · exact ⟨_, rfl, rfl⟩

/-- What a call does to the disk, and to the engine up to its cache, does not depend on the cache. -/
theorem Running.call_withCache (e : StorageEngine) (cache : Cache) (d : Disk) (op : EngineOp) :
    ∃ cache', Running.call ⟨e.withCache cache, d⟩ op =
      ((Running.call ⟨e, d⟩ op).1.withCache cache', (Running.call ⟨e, d⟩ op).2) := by
  cases op with
  | writeLocal b data mode origin lsn =>
      obtain ⟨cache', h⟩ := e.settle_withCache cache d
        (StorageEngine.judgeWrite d.db b data mode origin lsn)
      refine ⟨cache', ?_⟩
      simp only [call, StorageEngine.writeLocal, h]
  | deleteLocal b v origin lsn idempotent =>
      obtain ⟨cache', h⟩ := e.settle_withCache cache d
        (StorageEngine.judgeDelete d.db b v origin lsn idempotent)
      refine ⟨cache', ?_⟩
      simp only [call, StorageEngine.deleteLocal, h]
  | purgeAllBlocks => exact ⟨cache.clear, rfl⟩
  | checkpoint t => exact ⟨cache, rfl⟩
  | readBlock b =>
      obtain ⟨c₁, heng, heff⟩ := e.readBlock_engine d b
      obtain ⟨c₂, heng', heff'⟩ := (e.withCache cache).readBlock_engine d b
      refine ⟨c₂, ?_⟩
      simp only [call, heng, heff, heng', heff']
      rfl

namespace EngineConfig

variable (cfg : EngineConfig)

/-- What an event shows: the result of a read. -/
def shows (read : Running → String → Except StorageError (Option BlockRecord)) (s : Running) :
    StorageEvent → List (Except StorageError (Option BlockRecord))
  | .call (.readBlock b) => [read s b]
  | _ => []

/-- One event for the engine that reads the table directly: a read does nothing to it. -/
def directStep (s : Running) : StorageEvent → Option Running
  | .call (.readBlock _) => some s
  | ev => cfg.step s ev

/-- What the reads of a run return, in order. -/
def readings (s : Running) (evs : List StorageEvent) :
    List (Except StorageError (Option BlockRecord)) :=
  outputs cfg.step (shows fun s b => (s.engine.readBlock s.disk b).result) s evs

/-- What the reads of a run return when they go to the table. -/
def directReadings (s : Running) (evs : List StorageEvent) :
    List (Except StorageError (Option BlockRecord)) :=
  outputs cfg.directStep (shows fun s b => s.disk.readRow b) s evs

/-- The two engines differ in their caches alone, and the first one's is coherent. -/
structure SameButCache (s t : Running) : Prop where
  cached : s.Cached
  disk : s.disk = t.disk
  engine : s.engine = t.engine.withCache s.engine.cache

variable {cfg} {s t : Running}

theorem SameButCache.run (h : SameButCache s t) (op : EngineOp) :
    SameButCache (s.run op) (t.run op) := by
  obtain ⟨cache, hcall⟩ := Running.call_withCache t.engine s.engine.cache t.disk op
  have hcall' : s.call op = ((t.call op).1.withCache cache, (t.call op).2) := by
    rw [← hcall, ← h.engine, ← h.disk]
  refine ⟨h.cached.run op, ?_, ?_⟩
  · unfold Running.run
    rw [hcall', h.disk]
  · unfold Running.run
    rw [hcall']
    rfl

theorem SameButCache.read (h : SameButCache s t) (b : String) :
    SameButCache (s.run (.readBlock b)) t := by
  obtain ⟨cache, heng, heff⟩ := s.engine.readBlock_engine s.disk b
  have hrun : s.run (.readBlock b) = ⟨s.engine.withCache cache, s.disk⟩ := by
    simp only [Running.run, Running.call, heng, heff]
    rfl
  refine ⟨h.cached.run _, by rw [hrun, h.disk], ?_⟩
  rw [hrun]
  simp only
  rw [h.engine]
  rfl

theorem SameButCache.crashDisk (h : SameButCache s t) (inFlight : Option (EngineOp × ℕ)) :
    s.crashDisk inFlight = t.crashDisk inFlight := by
  rcases inFlight with _ | ⟨op, k⟩
  · exact h.disk
  · obtain ⟨cache, hcall⟩ := Running.call_withCache t.engine s.engine.cache t.disk op
    have hcall' : s.call op = ((t.call op).1.withCache cache, (t.call op).2) := by
      rw [← hcall, ← h.engine, ← h.disk]
    unfold Running.crashDisk
    simp only [hcall', h.disk]

theorem SameButCache.step (h : SameButCache s t) (ev : StorageEvent) :
    Option.Rel SameButCache (cfg.step s ev) (cfg.directStep t ev) := by
  have hboot : ∀ {d d' : Disk}, d = d' → Option.Rel SameButCache (cfg.boot d) (cfg.boot d') := by
    rintro d _ rfl
    rcases hd : cfg.boot d with _ | s'
    · exact .none
    · exact .some ⟨cached_of_boot hd, rfl, rfl⟩
  cases ev with
  | call op =>
      cases op with
      | readBlock b => exact .some (h.read b)
      | _ => exact .some (h.run _)
  | restart =>
      apply hboot
      rw [h.disk, h.engine]
      rfl
  | crash inFlight openings =>
      apply hboot
      rw [h.crashDisk]

end EngineConfig

/-- **The cache is transparent.** For every size of the cache and in every run of calls, restarts and
crashes, the reads return what they would return without a cache. -/
theorem readings_eq (cfg : EngineConfig) (evs : List StorageEvent) :
    (cfg.boot .empty).map (fun s => cfg.readings s evs) =
      (cfg.boot .empty).map fun s => cfg.directReadings s evs := by
  rcases hboot : cfg.boot .empty with _ | s
  · rfl
  · apply congrArg some
    refine outputs_congr (R := EngineConfig.SameButCache) (fun s t ev h => ?_)
      (fun s t ev h => h.step ev) ⟨EngineConfig.cached_of_boot hboot, rfl, rfl⟩
    unfold EngineConfig.shows
    split
    · exact congrArg (fun r => [r]) ((h.cached.readBlock _).trans (by rw [h.disk]))
    · rfl

end NanoFabric.Node
