import NanoFabric.Node.Recovery

/-!
# The order of LSNs

Sessions of one engine: calls and clean close/reopen cycles. `issued` lists the LSNs that
`Oplog.append` returned, with the replay cursor it found.

* `boot_spec` — what any opening that succeeds leaves.
* `issued_fresh` — as long as no call appends after a checkpoint, LSNs grow and exceed the cursor.
* `exists_reused` — the first append after a checkpoint reuses an LSN, since compaction drops the
  checkpoint's own record.
* `lsn_fresh_iff` — the two together.
-/

namespace NanoFabric.Node

open NanoFabric.Found

/-- A call, or `close` and a new engine on the same directory. -/
inductive SessionEvent
  | call (op : EngineOp)
  | reopen

/-- An LSN that `append` returned, and the replay cursor at that time. -/
structure Issued where
  lsn : ℤ
  cursor : ℤ
deriving DecidableEq, Repr

/-- The LSNs of the lines that a call appends. -/
def issuedBy (s : Running) (effects : List DiskEffect) : List Issued :=
  effects.filterMap fun
    | .appendLine entry => some ⟨entry.lsn, s.disk.db.replayCursor⟩
    | _ => none

namespace EngineConfig

variable (cfg : EngineConfig)

/-- The LSNs issued from a state on, until the engine does not open. -/
def issued (s : Running) : List SessionEvent → List Issued
  | [] => []
  | .call op :: evs => issuedBy s (s.call op).2 ++ issued (s.run op) evs
  | .reopen :: evs =>
      match cfg.step s .restart with
      | some s' => issued s' evs
      | none => []

/-- The LSNs a node issues from an empty directory. -/
def issuedLsns (evs : List SessionEvent) : List Issued :=
  match cfg.boot .empty with
  | some s => cfg.issued s evs
  | none => []

end EngineConfig

/-- LSNs are never reused, and a replay skips none that was appended. -/
def Fresh (lsns : List Issued) : Prop :=
  lsns.Pairwise (fun x y => x.lsn < y.lsn) ∧ ∀ x ∈ lsns, x.cursor < x.lsn

namespace EngineConfig

variable (cfg : EngineConfig)

/-- No call from here on appends. -/
def AppendFree (s : Running) : List SessionEvent → Prop
  | [] => True
  | .call op :: evs => op.appends s.disk.db = false ∧ AppendFree (s.run op) evs
  | .reopen :: evs =>
      match cfg.step s .restart with
      | some s' => AppendFree s' evs
      | none => True

/-- No call appends after a checkpoint. -/
def CheckpointLast (s : Running) : List SessionEvent → Prop
  | [] => True
  | .call (.checkpoint throughLsn) :: evs => cfg.AppendFree (s.run (.checkpoint throughLsn)) evs
  | .call op :: evs => CheckpointLast (s.run op) evs
  | .reopen :: evs =>
      match cfg.step s .restart with
      | some s' => CheckpointLast s' evs
      | none => True

/-- In the session no call appends after a checkpoint. -/
def SessionCheckpointLast (evs : List SessionEvent) : Prop :=
  match cfg.boot .empty with
  | some s => cfg.CheckpointLast s evs
  | none => True

end EngineConfig

/-! ## Openings -/

/-- The replay loop does not raise its cursor above the LSNs it sees. -/
theorem foldlM_replayEntry_le {file : List OplogEntry} {a a' : StorageEngine.Applied}
    {c c' n : ℤ} (h : file.foldlM StorageEngine.replayEntry (a, c) = .ok (a', c')) (hc : c ≤ n)
    (hfile : ∀ e ∈ file, e.lsn ≤ n) : c' ≤ n := by
  induction file generalizing a c with
  | nil =>
      cases h
      exact hc
  | cons e file ih =>
      rw [List.foldlM_cons] at h
      rcases hfirst : StorageEngine.replayEntry (a, c) e with err | ⟨a₁, c₁⟩
      · rw [hfirst] at h
        cases h
      · rw [hfirst] at h
        refine ih h ?_ fun x hx => hfile x (List.mem_cons_of_mem _ hx)
        -- the cursor moves to the record's LSN or stays
        simp only [StorageEngine.replayEntry] at hfirst
        split at hfirst
        · cases hfirst
          exact hc
        · split at hfirst
          · cases hfirst
          · cases hfirst
            split
            · exact hfile e List.mem_cons_self
            · exact hc

/-- What an opening that succeeds leaves: the same file, an oplog that agrees with it, and a replay
cursor that is not above both the old one and the file. -/
theorem EngineConfig.boot_spec {cfg : EngineConfig} {d : Disk} {s : Running}
    (h : cfg.boot d = some s) :
    s.disk.oplog = d.oplog ∧ s.Coherent ∧
      ∀ n, d.db.replayCursor ≤ n → (∀ e ∈ d.oplog, e.lsn ≤ n) → s.disk.db.replayCursor ≤ n := by
  unfold EngineConfig.boot StorageEngine.opened StorageEngine.replayOplog at h
  rcases hfold : d.oplog.foldlM StorageEngine.replayEntry
      (⟨d.db, ⟨cfg.cacheMaxEntries, []⟩, d.lastCheckpointLsn⟩, d.db.replayCursor) with
    err | ⟨a', c'⟩
  · simp only [hfold] at h
    cases h
  · simp only [hfold] at h
    cases h
    exact ⟨rfl, rfl, fun n hc hfile => foldlM_replayEntry_le hfold hc hfile⟩

/-! ## What a call issues -/

section calls

variable {s : Running} {op : EngineOp}

/-- A call that does not append leaves the file as it is. -/
theorem Running.quiet_of_not_appends (h : op.appends s.disk.db = false) :
    issuedBy s (s.call op).2 = [] ∧ (s.run op).disk.oplog = s.disk.oplog ∧
      (s.run op).disk.db.replayCursor = s.disk.db.replayCursor := by
  unfold Running.run
  have hcases := s.call_cases op
  generalize s.call op = out at hcases
  obtain ⟨e', effects⟩ := out
  cases hcases with
  | quiet hm hcoh => exact ⟨rfl, rfl, rfl⟩
  | stored hm hok hcoh => rw [EngineOp.appends_of_mutation hm] at h; cases h
  | rejected hm hno => rw [EngineOp.appends_of_mutation hm] at h; cases h
  | purged => exact ⟨rfl, rfl, rfl⟩
  | checkpointed throughLsn => cases h

/-- A call that appends issues the next LSN. -/
theorem Running.issuedBy_of_appends (h : op.appends s.disk.db = true) :
    issuedBy s (s.call op).2 = [⟨s.engine.oplog.nextLsn, s.disk.db.replayCursor⟩] := by
  have hcases := s.call_cases op
  generalize s.call op = out at hcases
  obtain ⟨e', effects⟩ := out
  cases hcases with
  | quiet hm hcoh =>
      rw [hm] at h
      cases h
  | stored hm hok hcoh => rfl
  | rejected hm hno => rfl
  | purged => cases h
  | checkpointed throughLsn => rfl

/-- The file after an append of a write or a delete, stored or rejected. -/
theorem Running.file_of_mutation {m : Mutation} (hm : op.mutation s.disk.db = some m) :
    (s.run op).disk.oplog = s.disk.oplog ++ [s.engine.entryOf m] ∧
      (s.run op).disk.db.replayCursor = s.disk.db.replayCursor := by
  unfold Running.run
  have hcases := s.call_cases op
  generalize s.call op = out at hcases
  obtain ⟨e', effects⟩ := out
  cases hcases with
  | quiet hq hcoh =>
      rw [EngineOp.appends_of_mutation hm] at hq
      cases hq
  | stored hm' hok hcoh =>
      obtain rfl := Option.some.inj (hm.symm.trans hm')
      exact ⟨rfl, rfl⟩
  | rejected hm' hno =>
      obtain rfl := Option.some.inj (hm.symm.trans hm')
      exact ⟨rfl, rfl⟩
  | purged => cases hm
  | checkpointed throughLsn => cases hm

end calls

/-! ## Before the first checkpoint -/

/-- The high-water mark of the file. -/
def Running.highWater (s : Running) : ℤ := Oplog.scanHighWaterMark s.disk.oplog

/-- No checkpoint has happened: the file still has every LSN that was issued. -/
structure Running.Unchecked (s : Running) : Prop where
  coherent : s.Coherent
  cursor : s.disk.db.replayCursor ≤ s.highWater

theorem Running.Coherent.nextLsn_eq {s : Running} (h : s.Coherent) :
    s.engine.oplog.nextLsn = s.highWater + 1 := by
  rw [show s.engine.oplog = _ from h]
  rfl

section sessions

variable {cfg : EngineConfig} {s s' : Running} {op : EngineOp}

theorem highWater_congr (h : s'.disk.oplog = s.disk.oplog) : s'.highWater = s.highWater :=
  congrArg Oplog.scanHighWaterMark h

theorem Running.Unchecked.run (h : s.Unchecked) (hop : ∀ t, op ≠ .checkpoint t) :
    (s.run op).Unchecked ∧ s.highWater ≤ (s.run op).highWater ∧
      (op.appends s.disk.db = true → s.engine.oplog.nextLsn ≤ (s.run op).highWater) := by
  have hnext := h.coherent.nextLsn_eq
  rcases happ : op.appends s.disk.db with _ | _
  · obtain ⟨-, hfile, hcur⟩ := Running.quiet_of_not_appends happ
    have hhigh : (s.run op).highWater = s.highWater := highWater_congr hfile
    refine ⟨⟨h.coherent.run op, ?_⟩, hhigh.ge, by simp⟩
    rw [hcur, hhigh]
    exact h.cursor
  · obtain ⟨m, hm⟩ : ∃ m, op.mutation s.disk.db = some m := by
      unfold EngineOp.appends at happ
      split at happ
      · exact absurd rfl (hop _)
      · exact Option.isSome_iff_exists.mp happ
    obtain ⟨hfile, hcur⟩ := Running.file_of_mutation hm
    have hhigh : (s.run op).highWater = s.highWater + 1 := by
      unfold Running.highWater
      rw [hfile, Oplog.scanHighWaterMark_append]
      refine (max_eq_right ?_).trans hnext
      exact (show s.highWater ≤ s.engine.oplog.nextLsn by omega)
    have hcursor := h.cursor
    exact ⟨⟨h.coherent.run op, by omega⟩, by omega, fun _ => by omega⟩

theorem Running.Coherent.restart (hs : cfg.step s .restart = some s') :
    s'.Coherent ∧ s'.highWater = s.highWater ∧
      (s.disk.db.replayCursor ≤ s.highWater → s'.disk.db.replayCursor ≤ s'.highWater) := by
  obtain ⟨hfile, hcoh, hcur⟩ := EngineConfig.boot_spec hs
  have hhigh : s'.highWater = s.highWater := highWater_congr hfile
  refine ⟨hcoh, hhigh, fun hle => ?_⟩
  rw [hhigh]
  exact hcur _ hle fun e he => Oplog.le_scanHighWaterMark he

theorem issued_of_appendFree {evs : List SessionEvent} (h : cfg.AppendFree s evs) :
    cfg.issued s evs = [] := by
  induction evs generalizing s with
  | nil => rfl
  | cons ev evs ih =>
      cases ev with
      | call op =>
          simp only [EngineConfig.issued, (Running.quiet_of_not_appends h.1).1, List.nil_append]
          exact ih h.2
      | reopen =>
          simp only [EngineConfig.AppendFree] at h
          simp only [EngineConfig.issued]
          split
          · rename_i s' hs'
            rw [hs'] at h
            exact ih h
          · rfl

/-- The step of `EngineConfig.CheckpointLast` for a call that is no checkpoint. -/
theorem checkpointLast_call {evs : List SessionEvent} (hop : ∀ t, op ≠ .checkpoint t) :
    cfg.CheckpointLast s (.call op :: evs) ↔ cfg.CheckpointLast (s.run op) evs := by
  cases op with
  | checkpoint t => exact absurd rfl (hop t)
  | _ => exact Iff.rfl

/-- While no checkpoint has happened, LSNs grow and stay above the cursor. -/
theorem issued_fresh {evs : List SessionEvent} (h : s.Unchecked) (hlast : cfg.CheckpointLast s evs) :
    Fresh (cfg.issued s evs) ∧ ∀ x ∈ cfg.issued s evs, s.highWater < x.lsn := by
  induction evs generalizing s with
  | nil => exact ⟨⟨.nil, by simp [EngineConfig.issued]⟩, by simp [EngineConfig.issued]⟩
  | cons ev evs ih =>
      have hnext := h.coherent.nextLsn_eq
      have hcursor := h.cursor
      cases ev with
      | reopen =>
          simp only [EngineConfig.CheckpointLast] at hlast
          simp only [EngineConfig.issued]
          split
          · rename_i s' hs'
            rw [hs'] at hlast
            obtain ⟨hcoh, hhigh, hcur⟩ := Running.Coherent.restart hs'
            rw [← hhigh]
            exact ih ⟨hcoh, hcur hcursor⟩ hlast
          · exact ⟨⟨.nil, by simp⟩, by simp⟩
      | call op =>
          simp only [EngineConfig.issued]
          by_cases hck : ∃ t, op = .checkpoint t
          · -- the checkpoint's own LSN is the last
            obtain ⟨t, rfl⟩ := hck
            rw [issued_of_appendFree hlast, Running.issuedBy_of_appends rfl]
            simp only [List.append_nil, Fresh, List.pairwise_singleton, List.mem_singleton,
              forall_eq, true_and]
            omega
          · have hop : ∀ t, op ≠ .checkpoint t := fun t ht => hck ⟨t, ht⟩
            obtain ⟨hrun, hmono, hissue⟩ := h.run hop
            obtain ⟨⟨hpair, hcur⟩, hhigh⟩ := ih hrun ((checkpointLast_call hop).mp hlast)
            rcases happ : op.appends s.disk.db with _ | _
            · rw [(Running.quiet_of_not_appends happ).1]
              exact ⟨⟨hpair, hcur⟩, fun x hx => hmono.trans_lt (hhigh x hx)⟩
            · have hle := hissue happ
              rw [Running.issuedBy_of_appends happ]
              refine ⟨⟨List.pairwise_cons.mpr ⟨fun x hx => ?_, hpair⟩, ?_⟩, ?_⟩
              · exact hle.trans_lt (hhigh x hx)
              · intro x hx
                rcases List.mem_cons.mp hx with rfl | hx
                · change s.disk.db.replayCursor < s.engine.oplog.nextLsn
                  omega
                · exact hcur x hx
              · intro x hx
                rcases List.mem_cons.mp hx with rfl | hx
                · change s.highWater < s.engine.oplog.nextLsn
                  omega
                · exact hmono.trans_lt (hhigh x hx)

/-! ## After a checkpoint -/

/-- Compaction drops the checkpoint's own record, so the LSN it took is free again. -/
theorem Running.Coherent.checkpoint (h : s.Coherent) (t : Option ℤ) :
    (s.run (.checkpoint t)).highWater < s.engine.oplog.nextLsn := by
  rw [h.nextLsn_eq, Int.lt_add_one_iff]
  refine Oplog.scanHighWaterMark_le.mpr ⟨Oplog.scanHighWaterMark_nonneg _, fun e he => ?_⟩
  obtain ⟨hmem, hck, -⟩ := Oplog.mem_compact.mp he
  rcases List.mem_append.mp hmem with hmem | hmem
  · exact Oplog.le_scanHighWaterMark hmem
  · rw [List.mem_singleton.mp hmem] at hck
    cases hck

/-- An append in the rest of the session reuses an LSN above the file's high-water mark. -/
theorem exists_reused {evs : List SessionEvent} {n : ℤ} (h : s.Coherent) (hn : s.highWater < n)
    (happ : ¬ cfg.AppendFree s evs) : ∃ x ∈ cfg.issued s evs, x.lsn ≤ n := by
  induction evs generalizing s with
  | nil => exact absurd trivial happ
  | cons ev evs ih =>
      have hnext := h.nextLsn_eq
      cases ev with
      | reopen =>
          simp only [EngineConfig.AppendFree] at happ
          simp only [EngineConfig.issued]
          split
          · rename_i s' hs'
            rw [hs'] at happ
            obtain ⟨hcoh, hhigh, -⟩ := Running.Coherent.restart hs'
            exact ih hcoh (hhigh ▸ hn) happ
          · rename_i hs'
            rw [hs'] at happ
            exact absurd trivial happ
      | call op =>
          simp only [EngineConfig.issued]
          rcases hop : op.appends s.disk.db with _ | _
          · obtain ⟨-, hfile, -⟩ := Running.quiet_of_not_appends hop
            have hrest : ¬ cfg.AppendFree (s.run op) evs := fun hfree => happ ⟨hop, hfree⟩
            obtain ⟨x, hx, hle⟩ := ih (h.run op) (highWater_congr hfile ▸ hn) hrest
            exact ⟨x, List.mem_append_right _ hx, hle⟩
          · rw [Running.issuedBy_of_appends hop]
            refine ⟨_, List.mem_append_left _ (List.mem_singleton_self _), ?_⟩
            change s.engine.oplog.nextLsn ≤ n
            omega

/-- If LSNs stay fresh, no call appends after a checkpoint. -/
theorem checkpointLast_of_fresh {evs : List SessionEvent} (h : s.Coherent)
    (hfresh : Fresh (cfg.issued s evs)) : cfg.CheckpointLast s evs := by
  induction evs generalizing s with
  | nil => trivial
  | cons ev evs ih =>
      cases ev with
      | reopen =>
          simp only [EngineConfig.issued] at hfresh
          simp only [EngineConfig.CheckpointLast]
          split
          · rename_i s' hs'
            rw [hs'] at hfresh
            exact ih (Running.Coherent.restart hs').1 hfresh
          · trivial
      | call op =>
          simp only [EngineConfig.issued] at hfresh
          obtain ⟨hpair, hcur⟩ := hfresh
          by_cases hck : ∃ t, op = .checkpoint t
          · obtain ⟨t, rfl⟩ := hck
            change cfg.AppendFree (s.run (.checkpoint t)) evs
            by_contra hfree
            obtain ⟨x, hx, hle⟩ := exists_reused (h.run _) (h.checkpoint t) hfree
            rw [Running.issuedBy_of_appends rfl, List.singleton_append,
              List.pairwise_cons] at hpair
            exact absurd (hpair.1 x hx) (not_lt.mpr hle)
          · refine (checkpointLast_call fun t ht => hck ⟨t, ht⟩).mpr (ih (h.run op) ⟨?_, ?_⟩)
            · exact (List.pairwise_append.mp hpair).2.1
            · exact fun x hx => hcur x (List.mem_append_right _ hx)

end sessions

/-- **Freshness of LSNs.** In a session of calls and clean close/reopen cycles every LSN that
`append` returns exceeds all earlier ones and the replay cursor, exactly if no call appends after a
checkpoint. -/
theorem lsn_fresh_iff (cfg : EngineConfig) (evs : List SessionEvent) :
    Fresh (cfg.issuedLsns evs) ↔ cfg.SessionCheckpointLast evs := by
  unfold EngineConfig.issuedLsns EngineConfig.SessionCheckpointLast
  rcases hboot : cfg.boot .empty with _ | s
  · exact ⟨fun _ => trivial, fun _ => ⟨.nil, by simp⟩⟩
  · obtain ⟨hfile, hcoh, hcur⟩ := EngineConfig.boot_spec hboot
    have hunchecked : s.Unchecked :=
      ⟨hcoh, hcur _ (Oplog.scanHighWaterMark_nonneg _) (by simp [Disk.empty])⟩
    constructor
    · exact checkpointLast_of_fresh hcoh
    · intro hlast
      exact (issued_fresh hunchecked hlast).1

/-- Two writes around a checkpoint. -/
def checkpointedSession : List SessionEvent :=
  [.call (.writeLocal "a" "one" (.resolve none) none none), .call (.checkpoint none),
    .call (.writeLocal "a" "two" (.resolve none) none none)]

theorem lsn_fresh_counterexample : ¬ Fresh (node1.issuedLsns checkpointedSession) := by
  have hlsns : node1.issuedLsns checkpointedSession = [⟨1, 0⟩, ⟨2, 0⟩, ⟨1, 1⟩] := by
    decide +kernel
  rw [hlsns]
  intro h
  exact lt_irrefl _ (h.2 ⟨1, 1⟩ (by simp))

end NanoFabric.Node
