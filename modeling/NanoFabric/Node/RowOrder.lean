import NanoFabric.Node.CacheTransparency

/-!
# Rows only move forward

A row gives way only to one with a greater key, on every path to the table: calls, the replay of the
oplog over newer rows, and crashes between any two effects.

* `Row.Follows` — what may become of a row.
* `grows_step` — every event but a purge lets all rows grow; `grows_crash` — so does a crash that the
  engine does not open after.
* `rows_forward` — the same for whole runs, and what a client reads of a block that was deleted.
-/

namespace NanoFabric.Node

open NanoFabric.Found

/-! ## The property -/

/-- What may become of a row: the pair of version and tombstone flag does not decrease, and the data
changes only with a greater version or when the block is deleted. -/
structure Row.Follows (r r' : Row) : Prop where
  order : r.version < r'.version ∨ (r.version = r'.version ∧ r.deleted ≤ r'.deleted)
  data : r'.data ≠ r.data → r.version < r'.version ∨ (r.deleted = false ∧ r'.deleted = true)

/-- Every row is still there, or a row that may follow it. -/
def Forward (blocks blocks' : String → Option Row) : Prop :=
  ∀ b r, blocks b = some r → ∃ r', blocks' b = some r' ∧ r.Follows r'

/-- The event is a purge, or a crash during one. -/
def StorageEvent.purges : StorageEvent → Bool
  | .call .purgeAllBlocks => true
  | .crash (some (.purgeAllBlocks, _)) _ => true
  | _ => false

theorem Row.Follows.refl (r : Row) : r.Follows r := ⟨.inr ⟨rfl, le_rfl⟩, fun h => absurd rfl h⟩

/-- A row with a greater key may follow. -/
theorem Row.follows_of_key_lt {r r' : Row} (h : r.key < r'.key) : r.Follows r' := by
  rcases Row.key_lt_key.mp h with hlt | ⟨heq, hlt⟩
  · exact ⟨.inl hlt, fun _ => .inl hlt⟩
  · exact ⟨.inr ⟨heq, hlt.le⟩, fun _ => .inr (Bool.lt_iff.mp hlt)⟩

theorem Forward.of_grows {blocks blocks' : String → Option Row}
    (h : Registers.Grows Row.key blocks blocks') : Forward blocks blocks' := by
  intro b r hr
  obtain ⟨r', hr', hkey⟩ := h b r hr
  refine ⟨r', hr', ?_⟩
  rcases hkey with rfl | hlt
  · exact .refl r'
  · exact Row.follows_of_key_lt hlt

/-- A block that was deleted and is live again has a greater version. -/
theorem Row.Follows.revived {r r' : Row} (h : r.Follows r') (hdel : r.deleted = true)
    (hlive : r'.deleted = false) : r.version < r'.version := by
  rcases h.order with hlt | ⟨-, hle⟩
  · exact hlt
  · rw [hdel, hlive] at hle
    exact absurd hle (by decide)

/-! ## One event -/

section steps

variable {cfg : EngineConfig} {s s' : Running} {d : Disk} {op : EngineOp} {ev : StorageEvent}

theorem grows_offer (db : ExtentStore) (b : String) (r : Row) :
    Registers.Grows Row.key db.blocks (db.offer b r).blocks :=
  Registers.grows_put _ _ _ _

/-- The rows change with the commits alone. -/
theorem grows_performAll {blocks : String → Option Row} {effects : List DiskEffect}
    (h : ∀ db, .commit db ∈ effects → Registers.Grows Row.key blocks db.blocks)
    (hd : Registers.Grows Row.key blocks d.db.blocks) :
    Registers.Grows Row.key blocks (d.performAll effects).db.blocks := by
  unfold Disk.performAll
  induction effects generalizing d with
  | nil => exact hd
  | cons effect effects ih =>
      refine ih (fun db hdb => h db (List.mem_cons_of_mem _ hdb)) ?_
      cases effect with
      | commit db => exact h db List.mem_cons_self
      | appendLine entry => exact hd
      | replaceOplog file => exact hd
      | saveManifest m => exact hd

/-- A call other than a purge lets all rows grow, wherever it is cut short. -/
theorem grows_call (s : Running) (hop : op ≠ .purgeAllBlocks) (k : ℕ) :
    Registers.Grows Row.key s.disk.db.blocks
      (s.disk.performAll ((s.call op).2.take k)).db.blocks := by
  refine grows_performAll (fun db hdb => ?_) (.refl _ _)
  have hmem := List.mem_of_mem_take hdb
  have hcalls := s.call_cases op
  generalize s.call op = out at hcalls hmem
  obtain ⟨e', effects⟩ := out
  cases hcalls with
  | quiet hm hcoh => cases hmem
  | @stored _ m cache hm hok hcoh =>
      obtain rfl : db = s.engine.stored s.disk.db m := by simpa using hmem
      exact grows_offer _ _ _
  | rejected hm hno => simp at hmem
  | purged => exact absurd rfl hop
  | checkpointed throughLsn =>
      obtain rfl : db = s.disk.db.setReplayCursor (s.engine.checkpointLsn throughLsn) := by
        simpa [StorageEngine.checkpoint] using hmem
      exact .refl _ _

/-- So does an opening, wherever it is cut short. -/
theorem grows_opening (cfg : EngineConfig) (d : Disk) (k : ℕ) : Registers.Grows Row.key d.db.blocks
    (d.performAll ((cfg.openingEffects d).take k)).db.blocks := by
  refine grows_performAll (fun db hdb => ?_) (.refl _ _)
  have hmem := List.mem_of_mem_take hdb
  unfold EngineConfig.openingEffects at hmem
  rcases StorageEngine.opened_cases cfg.nodeId cfg.cacheMaxEntries d
    (P := fun a => Registers.Grows Row.key d.db.blocks a.db.blocks)
    (fun a e a' ha happ => by
      rcases (StorageEngine.applyEntry_eq_ok happ).1 with hdb | ⟨r, hdb⟩
      · exact hdb ▸ ha
      · exact hdb ▸ ha.trans (grows_offer _ _ _)) (.refl _ _) with
    ⟨e, err, hopen⟩ | ⟨e, a, c, m, hopen, hgrows, -⟩
  · rw [hopen] at hmem
    cases hmem
  · rw [hopen] at hmem
    obtain rfl : db = a.db.setReplayCursor c := by simpa using hmem
    exact hgrows

theorem grows_interrupted (cfg : EngineConfig) (d : Disk) (openings : List ℕ) :
    Registers.Grows Row.key d.db.blocks (cfg.interrupted d openings).db.blocks := by
  unfold EngineConfig.interrupted
  induction openings generalizing d with
  | nil => exact .refl _ _
  | cons k openings ih => exact (grows_opening cfg d k).trans (ih _)

theorem grows_boot (h : cfg.boot d = some s) :
    Registers.Grows Row.key d.db.blocks s.disk.db.blocks := by
  obtain ⟨-, rfl⟩ := EngineConfig.boot_eq_some h
  have hall := grows_opening cfg d (cfg.openingEffects d).length
  rwa [List.take_length] at hall

/-- A crash, and openings that are cut short, let all rows grow. -/
theorem grows_crash (cfg : EngineConfig) (s : Running) {inFlight : Option (EngineOp × ℕ)}
    {openings : List ℕ} (h : StorageEvent.purges (.crash inFlight openings) = false) :
    Registers.Grows Row.key s.disk.db.blocks
      (cfg.interrupted (s.crashDisk inFlight) openings).db.blocks := by
  refine Registers.Grows.trans ?_ (grows_interrupted cfg _ openings)
  rcases inFlight with _ | ⟨op, k⟩
  · exact .refl _ _
  · refine grows_call s ?_ k
    rintro rfl
    cases h

/-- Every event but a purge lets all rows grow. -/
theorem grows_step (hev : ev.purges = false) (hs : cfg.step s ev = some s') :
    Registers.Grows Row.key s.disk.db.blocks s'.disk.db.blocks := by
  cases ev with
  | call op =>
      obtain rfl := Option.some.inj hs
      have hop : op ≠ .purgeAllBlocks := by
        rintro rfl
        cases hev
      have hall := grows_call s hop (s.call op).2.length
      rwa [List.take_length] at hall
  | restart => exact grows_boot (d := s.disk.perform (.saveManifest s.engine.manifest)) hs
  | crash inFlight openings => exact (grows_crash cfg s hev).trans (grows_boot hs)

end steps

/-! ## Runs -/

/-- What is kept by every event but a purge. -/
theorem grows_run {cfg : EngineConfig} {s s' : Running} {evs : List StorageEvent}
    (hev : ∀ ev ∈ evs, ev.purges = false) (hrun : Found.run cfg.step s evs = some s') :
    Registers.Grows Row.key s.disk.db.blocks s'.disk.db.blocks := by
  have hreach : Reaches cfg.step (fun _ ev => ev.purges = false) s evs s' :=
    Reaches.of_run (fun _ ev h => hev ev h) hrun
  exact hreach.induction (I := fun s' => Registers.Grows Row.key s.disk.db.blocks s'.disk.db.blocks)
    (fun _ _ _ hI hC hs => hI.trans (grows_step hC hs)) (.refl _ _)

/-- **Rows only move forward.** Between any two states of a run without a purge in between, and on to
the disk that a crash leaves, every row is followed by one with the same or a greater pair of version
and tombstone flag, its data changes only with it, and a block that was deleted is read again only with
a greater version. -/
theorem rows_forward (cfg : EngineConfig) (evs evs' : List StorageEvent) (s s' : Running)
    (hrun : cfg.run evs = some s) (hrun' : Found.run cfg.step s evs' = some s')
    (hpurge : ∀ ev ∈ evs', ev.purges = false) :
    Forward s.disk.db.blocks s'.disk.db.blocks ∧
      (∀ inFlight openings, StorageEvent.purges (.crash inFlight openings) = false →
        Forward s.disk.db.blocks (cfg.interrupted (s'.crashDisk inFlight) openings).db.blocks) ∧
      ∀ b r record, s.disk.db.blocks b = some r → r.deleted = true →
        (s'.engine.readBlock s'.disk b).result = .ok (some record) → r.version < record.version := by
  have hgrows := grows_run hpurge hrun'
  refine ⟨.of_grows hgrows, fun inFlight openings hcrash => ?_, fun b r record hr hdel hread => ?_⟩
  · exact .of_grows (hgrows.trans (grows_crash cfg s' hcrash))
  · have hcached : s'.Cached := runWhile_induction
      (fun _ _ _ hc _ hs => EngineConfig.cached_of_step hc hs) (EngineConfig.cached_of_run hrun) hrun'
    rw [hcached.readBlock] at hread
    obtain ⟨r', hr', hfollows⟩ := Forward.of_grows hgrows b r hr
    unfold Disk.readRow at hread
    simp only [hr'] at hread
    split at hread
    · cases hread
    · rename_i hlive
      cases hread
      exact hfollows.revived hdel (by simpa using hlive)

/-- A deleted block is written again with the versions `2` and `3`, and the node crashes. -/
def rewritten : List StorageEvent :=
  [.call (.writeLocal "a" "two" (.idempotent 2) (some "node2") (some 7)),
    .call (.writeLocal "a" "three" (.resolve none) none none), .crash none []]

theorem rows_forward_rewritten :
    ∃ s s', node1.run [.call (.writeLocal "a" "one" (.resolve none) none none),
        .call (.deleteLocal "a" none none none false)] = some s ∧
      Found.run node1.step s rewritten = some s' ∧ Forward s.disk.db.blocks s'.disk.db.blocks := by
  have hrun : ((node1.run [.call (.writeLocal "a" "one" (.resolve none) none none),
      .call (.deleteLocal "a" none none none false)]).bind fun s =>
        Found.run node1.step s rewritten).isSome = true := by
    decide +kernel
  obtain ⟨s', hs'⟩ := Option.isSome_iff_exists.mp hrun
  obtain ⟨s, hs, hs'⟩ := Option.bind_eq_some_iff.mp hs'
  exact ⟨s, s', hs, hs', (rows_forward node1 _ rewritten s s' hs hs' (by decide)).1⟩

end NanoFabric.Node
