import NanoFabric.Found.Runs
import NanoFabric.Node.EngineSpec

/-!
# Crash recovery of the storage engine

Runs of one engine on its data directory: calls, clean restarts, and crashes between any two durable
effects of a call, followed by any number of openings that are cut short in the same way.

* `Recoverable` — the invariant: the store has absorbed every record that a replay would apply.
* `Reopens` — what an opening of the directory leaves in the table, however often it is cut short.
* `crash_recovery` — in every run whose calls meet `Running.safeCall`, a crash loses and invents
  nothing but the write or delete in flight.
* `crash_recovery_counterexample` — a purge is not logged, so the oplog brings the blocks back.
-/

namespace NanoFabric.Node

open NanoFabric.Found

/-! ## Runs -/

/-- What happens to a node's data directory. A crash interrupts at most one call, after some number
of its durable effects, and then some openings, each after some number of its own. -/
inductive StorageEvent
  | call (op : EngineOp)
  | restart
  | crash (inFlight : Option (EngineOp × ℕ)) (openings : List ℕ)

/-- The disk that a crash leaves. -/
def Running.crashDisk (s : Running) : Option (EngineOp × ℕ) → Disk
  | none => s.disk
  | some (op, k) => s.disk.performAll ((s.call op).2.take k)

namespace EngineConfig

variable (cfg : EngineConfig)

/-- The effects of opening the engine on a directory. -/
def openingEffects (d : Disk) : List DiskEffect :=
  (StorageEngine.opened cfg.nodeId cfg.cacheMaxEntries d).effects

/-- The disk after openings that die after the given numbers of effects. -/
def interrupted (d : Disk) (openings : List ℕ) : Disk :=
  openings.foldl (fun d k => d.performAll ((cfg.openingEffects d).take k)) d

/-- One event; `none` when the engine does not open again. `close` saves the manifest. -/
def step (s : Running) : StorageEvent → Option Running
  | .call op => some (s.run op)
  | .restart => cfg.boot (s.disk.perform (.saveManifest s.engine.manifest))
  | .crash inFlight openings => cfg.boot (cfg.interrupted (s.crashDisk inFlight) openings)

/-- The run of a node from an empty directory in which every step can happen and meets `C`. -/
def runWhile (C : Running → StorageEvent → Bool) (evs : List StorageEvent) : Option Running :=
  (cfg.boot .empty).bind fun s => Found.runWhile cfg.step C s evs

/-- The run of a node from an empty directory. -/
def run (evs : List StorageEvent) : Option Running := cfg.runWhile (fun _ _ => true) evs

end EngineConfig

/-! ## The property and its condition -/

/-- What clients can tell of a block. -/
def Disk.visible (d : Disk) (blockId : String) : Option (Option String × ℤ × Bool) :=
  (d.db.blocks blockId).map Row.visible

/-- Every block is as it was when the process died, or the write or delete in flight has taken
effect. -/
def Recovers (s : Running) (inFlight : Option (EngineOp × ℕ)) (s' : Running) : Prop :=
  (∀ b, s'.disk.visible b = (s.crashDisk inFlight).visible b) ∨
    ∃ op k, inFlight = some (op, k) ∧ op.target.isSome ∧
      ∀ b, s'.disk.visible b = (s.run op).disk.visible b

/-- The condition on a call. What a write or a delete logs fits SQLite's integers; a purge finds no
record that a replay would apply; and a checkpoint that moves the replay cursor back uncovers only
records that the store has absorbed. -/
def Running.safeCall (s : Running) (op : EngineOp) : Bool :=
  match op with
  | .purgeAllBlocks => decide (∀ e ∈ s.disk.oplog,
      e.isCheckpoint = true ∨ e.lsn ≤ s.disk.db.replayCursor)
  | .checkpoint throughLsn => decide (∀ e ∈ s.disk.oplog, e.lsn ≤ s.disk.db.replayCursor →
      s.engine.checkpointLsn throughLsn < e.lsn → StorageEngine.Settled s.disk.db e)
  | op =>
      match op.mutation s.disk.db with
      | some m => decide (s.engine.Storable m ∧ Bindable s.engine.oplog.nextLsn)
      | none => true

/-- The condition on an event. -/
def safeEvent (s : Running) : StorageEvent → Bool
  | .call op => s.safeCall op
  | .restart => true
  | .crash none _ => true
  | .crash (some (op, _)) _ => s.safeCall op

/-! ## The invariant -/

/-- The file's records have positive LSNs, and SQLite can bind their integers. -/
structure Replayable (d : Disk) : Prop where
  pos : ∀ e ∈ d.oplog, 0 < e.lsn
  bind : ∀ e ∈ d.oplog, StorageEngine.Replayable e

/-- The store has absorbed every record that a replay would apply. -/
structure Recoverable (d : Disk) : Prop extends Replayable d where
  settled : ∀ e ∈ d.oplog, d.db.replayCursor < e.lsn → StorageEngine.Settled d.db e

/-- Opening the directory succeeds, commits a table that meets `P`, and leaves nothing to replay. -/
def Reopens (d : Disk) (P : (String → Option Row) → Prop) : Prop :=
  ∀ nodeId cacheMaxEntries, ∃ (e : StorageEngine) (m : Manifest) (blocks : String → Option Row)
    (c : ℤ), StorageEngine.opened nodeId cacheMaxEntries d =
        ⟨e, [.commit ⟨blocks, c⟩, .saveManifest m], .ok ()⟩ ∧
      P blocks ∧ (∀ x ∈ d.oplog, x.lsn ≤ c) ∧ e.nodeId = nodeId ∧ e.oplog = .ofFile nodeId d.oplog

section opening

variable {d : Disk} {P Q : (String → Option Row) → Prop}

theorem Reopens.mono (h : Reopens d P) (hPQ : ∀ b, P b → Q b) : Reopens d Q := by
  intro nodeId cacheMaxEntries
  obtain ⟨e, m, blocks, c, hopen, hP, hrest⟩ := h nodeId cacheMaxEntries
  exact ⟨e, m, blocks, c, hopen, hPQ _ hP, hrest⟩

/-- What the replay loop leaves is what the opening commits. -/
theorem reopens_of_foldlM (h : ∀ a : StorageEngine.Applied, a.db = d.db →
    ∃ a' c, d.oplog.foldlM StorageEngine.replayEntry (a, d.db.replayCursor) = .ok (a', c) ∧
      P a'.db.blocks ∧ ∀ x ∈ d.oplog, x.lsn ≤ c) : Reopens d P := by
  intro nodeId cacheMaxEntries
  obtain ⟨a', c, hfold, hP, hcov⟩ :=
    h ⟨d.db, ⟨cacheMaxEntries, []⟩, d.lastCheckpointLsn⟩ rfl
  let e : StorageEngine :=
    ⟨nodeId, .ofFile nodeId d.oplog, a'.cache, a'.lastCheckpointLsn⟩
  refine ⟨e, e.manifest, a'.db.blocks, c, ?_, hP, hcov, rfl, rfl⟩
  unfold StorageEngine.opened StorageEngine.replayOplog
  simp only [hfold]
  rfl

theorem Recoverable.reopens (h : Recoverable d) : Reopens d (· = d.db.blocks) := by
  apply reopens_of_foldlM
  intro a ha
  obtain ⟨a', c, hfold, hdb, ⟨-, hcov⟩, -⟩ := StorageEngine.foldlM_replayEntry_of_settled (a := a)
    h.pos h.bind (fun e he hlt => ha ▸ h.settled e he hlt)
  exact ⟨a', c, hfold, by rw [hdb, ha], hcov⟩

/-- One more record than the store has absorbed is skipped or applied. -/
theorem Recoverable.reopens_append {e : OplogEntry} {r : Row} (h : Recoverable d)
    (hr : e.row = some r) (hpos : 0 < e.lsn) (hb : Bindable e.version ∧ Bindable e.lsn) :
    Reopens { d with oplog := d.oplog ++ [e] }
      fun blocks => blocks = d.db.blocks ∨ blocks = (d.db.offer e.blockId r).blocks := by
  apply reopens_of_foldlM
  intro a ha
  obtain ⟨a₁, c₁, hfold, hdb, ⟨-, hcov⟩, -⟩ := StorageEngine.foldlM_replayEntry_of_settled
    (a := a) h.pos h.bind (fun e he hlt => ha ▸ h.settled e he hlt)
  have hsplit : ∀ {a' : StorageEngine.Applied} {c' : ℤ},
      StorageEngine.replayEntry (a₁, c₁) e = .ok (a', c') →
      (d.oplog ++ [e]).foldlM StorageEngine.replayEntry (a, d.db.replayCursor) =
        .ok (a', c') := by
    intro a' c' hlast
    rw [List.foldlM_append, hfold]
    change List.foldlM StorageEngine.replayEntry (a₁, c₁) [e] = _
    rw [List.foldlM_cons, hlast]
    rfl
  rcases le_or_gt e.lsn c₁ with hskip | hlt
  · refine ⟨a₁, c₁, hsplit (StorageEngine.replayEntry_skip hpos hskip), .inl ?_, ?_⟩
    · rw [hdb, ha]
    · simpa [or_imp, forall_and] using And.intro hcov hskip
  · obtain ⟨cache, happ, -⟩ := StorageEngine.applyEntry_of_bindable (a := a₁) hr hb
    refine ⟨_, e.lsn, hsplit (StorageEngine.replayEntry_apply hpos hlt happ), .inr ?_, ?_⟩
    · rw [hdb, ha]
    · intro x hx
      rcases List.mem_append.mp hx with hx | hx
      · exact (hcov x hx).trans hlt.le
      · exact (List.mem_singleton.mp hx) ▸ le_rfl

/-- Once nothing is left to replay, the directory is recoverable. -/
theorem Replayable.recoverable (h : Replayable d) (hcov : ∀ x ∈ d.oplog, x.lsn ≤ d.db.replayCursor) :
    Recoverable d :=
  ⟨h, fun e he hlt => absurd hlt (not_lt.mpr (hcov e he))⟩

/-- An opening that dies has changed nothing, or has committed all there was to replay. -/
theorem Reopens.take (hd : Replayable d) (h : Reopens d P) (cfg : EngineConfig) (k : ℕ) :
    Replayable (d.performAll ((cfg.openingEffects d).take k)) ∧
      Reopens (d.performAll ((cfg.openingEffects d).take k)) P := by
  obtain ⟨e, m, blocks, c, hopen, hP, hcov, -⟩ := h cfg.nodeId cfg.cacheMaxEntries
  unfold EngineConfig.openingEffects
  rw [hopen]
  rcases k with _ | k
  · exact ⟨hd, h⟩
  · have hdone : Recoverable { d with db := ⟨blocks, c⟩ } :=
      Replayable.recoverable ⟨hd.pos, hd.bind⟩ hcov
    have hre : Reopens { d with db := ⟨blocks, c⟩ } P := hdone.reopens.mono fun b hb => hb ▸ hP
    rcases k with _ | k
    · exact ⟨hdone.toReplayable, hre⟩
    · have hdone' : Recoverable { d with db := ⟨blocks, c⟩, manifest := some m } :=
        Replayable.recoverable ⟨hd.pos, hd.bind⟩ hcov
      have hre' : Reopens { d with db := ⟨blocks, c⟩, manifest := some m } P :=
        hdone'.reopens.mono fun b hb => hb ▸ hP
      simpa [Disk.performAll, Disk.perform] using And.intro hdone'.toReplayable hre'

theorem Reopens.interrupted (hd : Replayable d) (h : Reopens d P) (cfg : EngineConfig)
    (openings : List ℕ) :
    Replayable (cfg.interrupted d openings) ∧ Reopens (cfg.interrupted d openings) P := by
  unfold EngineConfig.interrupted
  induction openings generalizing d with
  | nil => exact ⟨hd, h⟩
  | cons k openings ih =>
      obtain ⟨hd', h'⟩ := h.take hd cfg k
      exact ih hd' h'

end opening

/-! ## Coherence of the open oplog with its file -/

/-- Between two calls the open oplog stands where a scan of its file would put it. -/
def Running.Coherent (s : Running) : Prop :=
  s.engine.oplog = .ofFile s.engine.nodeId s.disk.oplog

/-- An opening that succeeds gives a running engine on a recoverable directory. -/
theorem Reopens.boot {d : Disk} {P : (String → Option Row) → Prop} (hd : Replayable d)
    (h : Reopens d P) (cfg : EngineConfig) :
    ∃ s, cfg.boot d = some s ∧ Recoverable s.disk ∧ s.Coherent ∧ P s.disk.db.blocks := by
  obtain ⟨e, m, blocks, c, hopen, hP, hcov, hnode, hlog⟩ := h cfg.nodeId cfg.cacheMaxEntries
  refine ⟨⟨e, { d with db := ⟨blocks, c⟩, manifest := some m }⟩, ?_, ?_, ?_, hP⟩
  · unfold EngineConfig.boot
    simp only [hopen]
    rfl
  · exact Replayable.recoverable ⟨hd.pos, hd.bind⟩ hcov
  · unfold Running.Coherent
    rw [hlog, hnode]

theorem Oplog.scanHighWaterMark_append (file : List OplogEntry) (e : OplogEntry) :
    Oplog.scanHighWaterMark (file ++ [e]) = max (Oplog.scanHighWaterMark file) e.lsn := by
  rw [scanHighWaterMark_eq, scanHighWaterMark_eq, List.foldl_append]
  rfl

theorem Oplog.append_ofFile (nodeId : String) (file : List OplogEntry) (op : LoggedOp)
    (blockId : String) (version : ℤ) :
    ((Oplog.ofFile nodeId file).append op blockId version).2 =
      .ofFile nodeId (file ++ [((Oplog.ofFile nodeId file).append op blockId version).1]) := by
  unfold ofFile append
  simp only [scanHighWaterMark_append]
  rw [max_eq_right (by omega)]

namespace Running

variable {s : Running} {op : EngineOp}

theorem Coherent.nextLsn_pos (h : s.Coherent) : 0 < s.engine.oplog.nextLsn := by
  rw [show s.engine.oplog = _ from h]
  have := Oplog.scanHighWaterMark_nonneg s.disk.oplog
  simp only [Oplog.ofFile]
  omega

theorem Coherent.run (h : s.Coherent) (op : EngineOp) : (s.run op).Coherent := by
  unfold Running.run
  have happ : ∀ m : Mutation, (s.engine.appended m).oplog =
      .ofFile s.engine.nodeId (s.disk.oplog ++ [s.engine.entryOf m]) := by
    intro m
    unfold StorageEngine.appended StorageEngine.entryOf
    rw [show s.engine.oplog = _ from h]
    exact Oplog.append_ofFile ..
  generalize hcall : s.call op = out
  obtain ⟨e', effects⟩ := out
  have hcases : s.Calls op e' effects := by
    have := s.call_cases op
    rwa [hcall] at this
  cases hcases with
  | quiet hm hcoh => exact h
  | stored hm hok hcoh => exact happ _
  | rejected hm hno => exact happ _
  | purged => exact h
  | checkpointed throughLsn =>
      unfold Coherent
      simp only [StorageEngine.checkpoint]
      rw [show s.engine.oplog = _ from h]
      rfl

end Running

/-! ## What one call keeps -/

section calls

variable {s : Running} {op : EngineOp} {d : Disk} {m : Mutation} {e : OplogEntry}

theorem StorageEngine.Settled.offer {db : ExtentStore} (h : StorageEngine.Settled db e)
    (blockId : String) (r : Row) : StorageEngine.Settled (db.offer blockId r) e :=
  fun r' hr' => Registers.absorbs_put (h r' hr')

/-- Rows that only differ in their origin leave the same to be seen. -/
theorem visible_offer_congr {db : ExtentStore} {blockId : String} {r r' : Row}
    (hkey : r.key = r'.key) (hvis : r.visible = r'.visible) (b : String) :
    ((db.offer blockId r).blocks b).map Row.visible =
      ((db.offer blockId r').blocks b).map Row.visible := by
  unfold ExtentStore.offer
  by_cases hb : b = blockId
  · subst hb
    simp only [Registers.put_same]
    unfold Register.put
    cases db.blocks b with
    | none => exact congrArg some hvis
    | some w =>
        simp only [hkey]
        by_cases hlt : w.key < r'.key
        · rw [if_pos hlt, if_pos hlt]
          exact congrArg some hvis
        · rw [if_neg hlt, if_neg hlt]
  · simp only [Registers.put_of_ne hb]

theorem Running.safeCall_mutation (hsafe : s.safeCall op = true)
    (hm : op.mutation s.disk.db = some m) :
    s.engine.Storable m ∧ Bindable s.engine.oplog.nextLsn := by
  cases op with
  | writeLocal blockId data mode originNodeId originLsn =>
      simpa [Running.safeCall, hm] using hsafe
  | deleteLocal blockId version originNodeId originLsn allowIdempotent =>
      simpa [Running.safeCall, hm] using hsafe
  | purgeAllBlocks => cases hm
  | checkpoint throughLsn => cases hm
  | readBlock blockId => cases hm

theorem EngineOp.target_of_mutation {db : ExtentStore} (hm : op.mutation db = some m) :
    op.target.isSome := by
  cases op with
  | writeLocal blockId data mode originNodeId originLsn => rfl
  | deleteLocal blockId version originNodeId originLsn allowIdempotent => rfl
  | purgeAllBlocks => cases hm
  | checkpoint throughLsn => cases hm
  | readBlock blockId => cases hm

theorem StorageEngine.entryOf_row (eng : StorageEngine) (m : Mutation) :
    (eng.entryOf m).row = some (m.row eng.oplog.nodeId eng.oplog.nextLsn) :=
  OplogEntry.row_mutation ..

theorem Replayable.append (h : Replayable d) (hpos : 0 < e.lsn)
    (hb : StorageEngine.Replayable e) : Replayable { d with oplog := d.oplog ++ [e] } := by
  constructor
  · intro x hx
    rcases List.mem_append.mp hx with hx | hx
    · exact h.pos x hx
    · exact (List.mem_singleton.mp hx) ▸ hpos
  · intro x hx
    rcases List.mem_append.mp hx with hx | hx
    · exact h.bind x hx
    · exact (List.mem_singleton.mp hx) ▸ hb

theorem Replayable.subset {d' : Disk} (h : Replayable d) (hsub : ∀ x ∈ d'.oplog, x ∈ d.oplog) :
    Replayable d' :=
  ⟨fun x hx => h.pos x (hsub x hx), fun x hx => h.bind x (hsub x hx)⟩

theorem StorageEngine.settled_of_isCheckpoint {db : ExtentStore} (he : e.isCheckpoint = true) :
    StorageEngine.Settled db e := by
  intro r hr
  rw [OplogEntry.row_eq_none.mpr he] at hr
  cases hr

/-- A stored mutation is absorbed, and so is all that was. -/
theorem Recoverable.stored (h : Recoverable s.disk) (hc : s.Coherent)
    (hok : s.engine.Storable m) (hlsn : Bindable s.engine.oplog.nextLsn) (man : Option Manifest) :
    Recoverable ⟨s.disk.oplog ++ [s.engine.entryOf m], s.engine.stored s.disk.db m, man⟩ := by
  have hlog : Replayable { s.disk with oplog := s.disk.oplog ++ [s.engine.entryOf m] } :=
    h.toReplayable.append hc.nextLsn_pos fun _ => ⟨hok.1, hlsn⟩
  refine ⟨⟨hlog.pos, hlog.bind⟩, fun x hx hlt => ?_⟩
  rcases List.mem_append.mp hx with hx | hx
  · exact (h.settled x hx hlt).offer _ _
  · obtain rfl := List.mem_singleton.mp hx
    intro r hr
    obtain rfl := Option.some.inj ((s.engine.entryOf_row m).symm.trans hr)
    have habs := Register.absorbs_put Row.key (s.disk.db.blocks m.blockId)
      (m.row (s.engine.effectiveOrigin m.originNodeId)
        (m.originLsn.getD s.engine.oplog.nextLsn))
    rw [← Registers.put_same] at habs
    exact habs.of_le (le_of_eq Mutation.row_key)

/-- After a purge there is nothing left to replay but checkpoints. -/
theorem Recoverable.purged (h : Recoverable s.disk)
    (hsafe : s.safeCall .purgeAllBlocks = true) (man : Option Manifest) :
    Recoverable ⟨s.disk.oplog, { s.disk.db with blocks := fun _ => none }, man⟩ := by
  refine ⟨⟨h.pos, h.bind⟩, fun x hx hlt => ?_⟩
  have hx' := of_decide_eq_true hsafe x hx
  exact StorageEngine.settled_of_isCheckpoint (hx'.resolve_right (not_le.mpr hlt))

theorem Recoverable.checkpointLogged (h : Recoverable s.disk) (hc : s.Coherent) (lsn : ℤ) :
    Recoverable { s.disk with oplog := s.disk.oplog ++
      [(s.engine.oplog.append (.checkpoint lsn) "" 0).1] } := by
  refine ⟨h.toReplayable.append hc.nextLsn_pos fun hne => absurd rfl hne, fun x hx hlt => ?_⟩
  rcases List.mem_append.mp hx with hx | hx
  · exact h.settled x hx hlt
  · obtain rfl := List.mem_singleton.mp hx
    exact StorageEngine.settled_of_isCheckpoint rfl

theorem Recoverable.compacted (h : Recoverable d) (lsn : ℤ) :
    Recoverable { d with oplog := Oplog.compact lsn d.oplog } :=
  ⟨h.toReplayable.subset fun _ hx => (Oplog.mem_compact.mp hx).1,
    fun x hx hlt => h.settled x (Oplog.mem_compact.mp hx).1 hlt⟩

/-- A checkpoint that moves the cursor back uncovers only what the store has absorbed. -/
theorem Recoverable.cursorMoved (h : Recoverable d) (lsn : ℤ)
    (hback : ∀ x ∈ d.oplog, x.lsn ≤ d.db.replayCursor → lsn < x.lsn →
      StorageEngine.Settled d.db x) (man : Option Manifest) :
    Recoverable ⟨d.oplog, d.db.setReplayCursor lsn, man⟩ := by
  refine ⟨⟨h.pos, h.bind⟩, fun x hx hlt => ?_⟩
  rcases le_or_gt x.lsn d.db.replayCursor with hle | hgt
  · exact hback x hx hle hlt
  · exact h.settled x hx hgt

/-- The disks on the way through a checkpoint are recoverable. -/
theorem Recoverable.checkpointed (h : Recoverable s.disk) (hc : s.Coherent)
    {throughLsn : Option ℤ} (hsafe : s.safeCall (.checkpoint throughLsn) = true) (k : ℕ) :
    Recoverable (s.disk.performAll ((s.engine.checkpoint s.disk throughLsn).effects.take k)) := by
  have hlogged := h.checkpointLogged hc (s.engine.checkpointLsn throughLsn)
  have hcompacted := hlogged.compacted (s.engine.checkpointLsn throughLsn)
  have hmoved := hcompacted.cursorMoved (s.engine.checkpointLsn throughLsn)
    (fun x hx hle hlt => by
      obtain ⟨hx, hck, -⟩ := Oplog.mem_compact.mp hx
      rcases List.mem_append.mp hx with hx | hx
      · exact of_decide_eq_true hsafe x hx hle hlt
      · rw [List.mem_singleton.mp hx] at hck
        cases hck)
  rcases k with _ | _ | _ | _ | k
  · exact h
  · exact hlogged
  · exact hcompacted
  · exact hmoved s.disk.manifest
  · simpa [StorageEngine.checkpoint, Disk.performAll, Disk.perform] using hmoved _

/-- The table after the crash, seen by a client. -/
def Shows (blocks : String → Option Row) (d : Disk) : Prop :=
  ∀ b, (blocks b).map Row.visible = d.visible b

theorem Recoverable.reopens_shows (h : Recoverable d) : Reopens d (Shows · d) :=
  h.reopens.mono fun _ hb _ => by rw [hb]; rfl

/-- **One call.** Wherever it is cut short, the directory reopens to what the process left or to
what the completed write or delete would have left. -/
theorem Recoverable.call_cut (h : Recoverable s.disk) (hc : s.Coherent)
    (hsafe : s.safeCall op = true) {eng : StorageEngine} {effects : List DiskEffect}
    (hcases : s.Calls op eng effects) (k : ℕ) :
    Replayable (s.disk.performAll (effects.take k)) ∧
      Reopens (s.disk.performAll (effects.take k)) fun blocks =>
        Shows blocks (s.disk.performAll (effects.take k)) ∨
          (op.target.isSome ∧ Shows blocks (s.disk.performAll effects)) := by
  have hshow : ∀ {d : Disk} {Q : (String → Option Row) → Prop}, Recoverable d →
      Replayable d ∧ Reopens d fun blocks => Shows blocks d ∨ Q blocks :=
    fun hrec => ⟨hrec.toReplayable, hrec.reopens_shows.mono fun _ => .inl⟩
  cases hcases with
  | quiet hm hcoh =>
      apply hshow
      simpa [Disk.performAll] using h
  | rejected hm hno => exact absurd (Running.safeCall_mutation hsafe hm).1 hno
  | purged =>
      apply hshow
      rcases k with _ | _ | k
      · exact h
      · exact h.purged hsafe s.disk.manifest
      · simpa [StorageEngine.purgeAllBlocks, Disk.performAll, Disk.perform] using h.purged hsafe _
  | checkpointed throughLsn =>
      apply hshow
      exact h.checkpointed hc hsafe k
  | @stored op m cache hm hok hcoh =>
      have hlsn := (Running.safeCall_mutation hsafe hm).2
      rcases k with _ | _ | _ | k
      · exact hshow h
      · -- the record is durable and the row is not
        refine ⟨h.toReplayable.append hc.nextLsn_pos fun _ => ⟨hok.1, hlsn⟩, ?_⟩
        have hre := h.reopens_append (s.engine.entryOf_row m) hc.nextLsn_pos ⟨hok.1, hlsn⟩
        refine hre.mono fun blocks hb => ?_
        rcases hb with rfl | rfl
        · exact .inl fun b => rfl
        · refine .inr ⟨EngineOp.target_of_mutation hm, fun b => ?_⟩
          exact visible_offer_congr Mutation.row_key Mutation.row_visible b
      · exact hshow (h.stored hc hok hlsn s.disk.manifest)
      · apply hshow
        simpa [Disk.performAll, Disk.perform] using h.stored hc hok hlsn _

/-- A call that meets the condition keeps the directory recoverable. -/
theorem Recoverable.run (h : Recoverable s.disk) (hc : s.Coherent)
    (hsafe : s.safeCall op = true) : Recoverable (s.run op).disk := by
  unfold Running.run
  have hcases := s.call_cases op
  generalize s.call op = out at hcases
  obtain ⟨e', effects⟩ := out
  cases hcases with
  | quiet hm hcoh => exact h
  | stored hm hok hcoh => exact h.stored hc hok (Running.safeCall_mutation hsafe hm).2 _
  | rejected hm hno => exact absurd (Running.safeCall_mutation hsafe hm).1 hno
  | purged => exact h.purged hsafe _
  | checkpointed throughLsn => exact h.checkpointed hc hsafe 4

end calls

/-! ## Runs -/

/-- Between two events the engine and its directory are fit for a crash. -/
structure Sound (s : Running) : Prop where
  recoverable : Recoverable s.disk
  coherent : s.Coherent

theorem Recoverable.empty : Recoverable .empty :=
  ⟨⟨by simp [Disk.empty], by simp [Disk.empty]⟩, by simp [Disk.empty]⟩

theorem Recoverable.setManifest {d : Disk} (h : Recoverable d) (man : Option Manifest) :
    Recoverable { d with manifest := man } :=
  ⟨⟨h.pos, h.bind⟩, h.settled⟩

theorem Sound.crash {s : Running} (h : Sound s) (cfg : EngineConfig)
    {inFlight : Option (EngineOp × ℕ)} {openings : List ℕ}
    (hsafe : safeEvent s (.crash inFlight openings) = true) :
    ∃ s', cfg.step s (.crash inFlight openings) = some s' ∧ Sound s' ∧ Recovers s inFlight s' := by
  obtain ⟨hd, hre⟩ : Replayable (s.crashDisk inFlight) ∧ Reopens (s.crashDisk inFlight)
      fun blocks => Shows blocks (s.crashDisk inFlight) ∨
        ∃ op k, inFlight = some (op, k) ∧ op.target.isSome ∧ Shows blocks (s.run op).disk := by
    rcases inFlight with _ | ⟨op, k⟩
    · exact ⟨h.recoverable.toReplayable, h.recoverable.reopens_shows.mono fun _ => .inl⟩
    · obtain ⟨hd, hre⟩ := h.recoverable.call_cut h.coherent hsafe (s.call_cases op) k
      exact ⟨hd, hre.mono fun _ hb => hb.imp_right fun hb => ⟨op, k, rfl, hb⟩⟩
  obtain ⟨hd', hre'⟩ := hre.interrupted hd cfg openings
  obtain ⟨s', hboot, hrec, hcoh, hP⟩ := hre'.boot hd' cfg
  exact ⟨s', hboot, ⟨hrec, hcoh⟩, hP⟩

theorem Sound.step {s s' : Running} (h : Sound s) (cfg : EngineConfig) {ev : StorageEvent}
    (hsafe : safeEvent s ev = true) (hs : cfg.step s ev = some s') : Sound s' := by
  cases ev with
  | call op =>
      cases hs
      exact ⟨h.recoverable.run h.coherent hsafe, h.coherent.run op⟩
  | restart =>
      have hrec : Recoverable (s.disk.perform (.saveManifest s.engine.manifest)) :=
        h.recoverable.setManifest _
      obtain ⟨s₁, hboot, hrec', hcoh, -⟩ := hrec.reopens.boot hrec.toReplayable cfg
      obtain rfl := Option.some.inj (hboot.symm.trans hs)
      exact ⟨hrec', hcoh⟩
  | crash inFlight openings =>
      obtain ⟨s₁, hstep, hsound, -⟩ := h.crash cfg hsafe
      obtain rfl := Option.some.inj (hstep.symm.trans hs)
      exact hsound

theorem sound_of_runWhile {cfg : EngineConfig} {evs : List StorageEvent} {s : Running}
    (hrun : cfg.runWhile safeEvent evs = some s) : Sound s := by
  obtain ⟨s₀, hboot, hrun⟩ := Option.bind_eq_some_iff.mp hrun
  obtain ⟨s₁, hboot₁, hrec, hcoh, -⟩ :=
    Recoverable.empty.reopens.boot Recoverable.empty.toReplayable cfg
  obtain rfl := Option.some.inj (hboot₁.symm.trans hboot)
  exact runWhile_induction (fun _ _ _ h hC hs => h.step cfg hC hs) ⟨hrec, hcoh⟩ hrun

/-- **Crash recovery.** In every run whose calls meet the condition, a process that dies between any
two durable effects comes back: the engine opens, and every block is as it was at the crash, except
that the write or delete in flight may have taken effect. -/
theorem crash_recovery (cfg : EngineConfig) (evs : List StorageEvent) (s : Running)
    (inFlight : Option (EngineOp × ℕ)) (openings : List ℕ)
    (hrun : cfg.runWhile safeEvent evs = some s)
    (hsafe : safeEvent s (.crash inFlight openings) = true) :
    ∃ s', cfg.step s (.crash inFlight openings) = some s' ∧ Recovers s inFlight s' := by
  obtain ⟨s', hstep, -, hrec⟩ := (sound_of_runWhile hrun).crash cfg hsafe
  exact ⟨s', hstep, hrec⟩

/-- A node with the default cache. -/
def node1 : EngineConfig := ⟨"node1", 10000⟩

/-- A block is written, replaced and deleted, the oplog is compacted, and another is written. -/
def fiveCalls : List StorageEvent :=
  [.call (.writeLocal "a" "one" (.resolve none) none none),
    .call (.writeLocal "a" "two" (.idempotent 4) (some "node2") (some 9)),
    .call (.deleteLocal "a" none none none false), .call (.checkpoint none),
    .call (.writeLocal "b" "three" (.resolve none) none none)]

theorem crash_recovery_fiveCalls :
    ∃ s s', node1.runWhile safeEvent fiveCalls = some s ∧
      node1.step s (.crash (some (.writeLocal "b" "four" (.resolve none) none none, 1)) [1]) =
        some s' ∧
      Recovers s (some (.writeLocal "b" "four" (.resolve none) none none, 1)) s' := by
  have hrun : (node1.runWhile safeEvent fiveCalls).map (fun s => safeEvent s
      (.crash (some (.writeLocal "b" "four" (.resolve none) none none, 1)) [1])) = some true := by
    decide +kernel
  obtain ⟨s, hs, hsafe⟩ := Option.map_eq_some_iff.mp hrun
  obtain ⟨s', hstep, hrec⟩ := crash_recovery node1 fiveCalls s _ _ hs hsafe
  exact ⟨s, s', hs, hstep, hrec⟩

/-- A block is written and all blocks are purged: the oplog still has the write. -/
def purgedWrite : List StorageEvent :=
  [.call (.writeLocal "a" "one" (.resolve none) none none), .call .purgeAllBlocks]

theorem crash_recovery_counterexample :
    ¬ ∀ s s', node1.run purgedWrite = some s → node1.step s (.crash none []) = some s' →
      Recovers s none s' := by
  intro h
  have hrun : (node1.run purgedWrite).bind (fun s => (node1.step s (.crash none [])).map
      fun s' => (s.disk.visible "a", s'.disk.visible "a")) =
      some (none, some (some "one", 1, false)) := by
    decide +kernel
  obtain ⟨s, hs, hstep⟩ := Option.bind_eq_some_iff.mp hrun
  obtain ⟨s', hs', hvis⟩ := Option.map_eq_some_iff.mp hstep
  obtain ⟨hbefore, hafter⟩ := Prod.mk.inj hvis
  rcases h s s' hs hs' with hsame | ⟨op, k, hflight, -⟩
  · have heq := hsame "a"
    rw [hafter] at heq
    exact absurd (heq.trans hbefore) (by simp)
  · cases hflight

end NanoFabric.Node
