import NanoFabric.Storage.Captures
import NanoFabric.Storage.EngineAdapter

/-!
# What a snapshot holds

A snapshot that was returned as `READY` is to hold what the reads of its creation returned, until it
is deleted. Contents are shared by block and version, so this rests on no version having two
contents: `sharesSame` says so of the contents that are about to be shared.

* `ReadsOnly.step` — while only same contents are shared, a snapshot has entries for what was read.
* `snapshot_faithful` — so it holds just that.
* `snapshot_faithful_counterexample` — a purge lets versions start again.
-/

namespace NanoFabric.Storage

open NanoFabric.Found
open NanoFabric.Node (EngineOp)

namespace Protection

open SnapshotStore

variable {W ρ χ : Type} {R : Wiring W ρ χ} {s s' : Protection W}

/-- Every snapshot that was returned as `READY`, and is still there, holds what was read for it. -/
def Faithful (s : Protection W) : Prop :=
  ∀ sid acc, s.accounts.get? sid = some acc → acc.finished = true →
    (s.store.getSnapshot sid).isSome → ∀ block, block ∈ s.store.getSnapshotBlocks sid ↔
      block ∈ acc.reads ∧ block.deleted = false

/-- The contents that are shared as the block and version just read, if there are any, are those
that were read. -/
def sharesSame (s : Protection W) : ProtectionEvent ρ χ → Bool
  | .share _ =>
      match s.creation with
      | some ⟨_, _, _, .captured block _⟩ =>
          (s.store.sharedContent block.blockId block.version).all (· = block)
      | _ => true
  | _ => true

/-- What a creation is about to add. -/
def pending (store : SnapshotStore) : CreatePhase → Option SnapshotBlock
  | .captured block _ => some block
  | .shared blockId versionId _ =>
      (store.blockVersions.get? versionId).map (BlockVersion.content blockId)
  | _ => none

/-- The entries of a snapshot, and the one about to be added, are what was read for it. -/
structure ReadsOnly (s : Protection W) : Prop where
  entries : ∀ sid acc b block, s.accounts.get? sid = some acc → s.store.entry sid b = some block →
    block ∈ acc.reads
  pending : ∀ c acc block, s.creation = some c → s.accounts.get? c.snapshotId = some acc →
    pending s.store c.phase = some block → block ∈ acc.reads

theorem ReadsOnly.init (w : W) : ReadsOnly (Protection.init w) where
  entries _ _ _ _ h := by cases h
  pending _ _ _ h := by cases h

/-- Steps that touch the records of snapshots, the blocks and the restores only, or end a creation
without a snapshot. -/
theorem ReadsOnly.of_sameBlocks (h : ReadsOnly s) (hstore : SameBlocks s.store s'.store)
    (hcreation : s'.creation = s.creation ∨ s'.creation = none)
    (haccounts : s'.accounts = s.accounts) : ReadsOnly s' where
  entries sid acc b block hacc hentry := by
    rw [hstore.entry] at hentry
    exact h.entries sid acc b block (haccounts ▸ hacc) hentry
  pending c acc block hc hacc hpending := by
    rcases hcreation with hsame | hnone
    · refine h.pending c acc block (hsame ▸ hc) (haccounts ▸ hacc) ?_
      unfold Protection.pending at hpending ⊢
      rwa [hstore.blockVersions] at hpending
    · rw [hnone] at hc
      cases hc

theorem ReadsOnly.create {sid : String} {now version : ℤ} {placements : Dict String (List String)}
    (hinv : Invariant s) (h : ReadsOnly s)
    (hstep : s.create R sid now version placements = some s') : ReadsOnly s' := by
  obtain rfl | ⟨-, hfresh, store, hstore, rfl⟩ := create_eq_some hstep
  · exact h
  obtain ⟨hversions, hblocks, -⟩ := createSnapshotRecord_ok hstore
  have hentry : ∀ sid b, store.entry sid b = s.store.entry sid b := fun sid b => by
    unfold SnapshotStore.entry
    rw [hversions, hblocks]
  constructor
  · intro sid' acc b block hacc hblock
    rw [hentry] at hblock
    simp only [Dict.get?_set] at hacc
    split at hacc
    · rename_i heq
      rw [heq, hinv.fresh sid hfresh b] at hblock
      cases hblock
    · exact h.entries sid' acc b block hacc hblock
  · intro c acc block hc hacc hpending
    obtain rfl := Option.some.inj hc
    cases hpending

theorem ReadsOnly.read {r : ρ} (h : ReadsOnly s) (hstep : s.read R r = some s') :
    ReadsOnly s' := by
  obtain ⟨sid, count, size, b, unread, hc, ⟨-, rfl⟩ | ⟨view, size', -, rfl⟩⟩ := read_eq_some hstep
  · refine ⟨h.entries, fun c acc block hc' hacc hpending => ?_⟩
    obtain rfl := Option.some.inj hc'
    cases hpending
  · have hget : ∀ sid' acc', (s.accounts.modify sid fun acc =>
        { acc with reads := acc.reads ++ [view.captured b] }).get? sid' = some acc' →
        ∃ acc, s.accounts.get? sid' = some acc ∧ acc.reads ⊆ acc'.reads ∧
          (sid' = sid → view.captured b ∈ acc'.reads) := by
      intro sid' acc' hacc'
      rw [Dict.get?_modify] at hacc'
      obtain ⟨acc, hacc, rfl⟩ := Option.map_eq_some_iff.mp hacc'
      refine ⟨acc, hacc, ?_⟩
      by_cases hsid : sid' = sid
      · rw [if_pos hsid]
        exact ⟨List.subset_append_left _ _, fun _ => List.mem_append_right _ List.mem_cons_self⟩
      · rw [if_neg hsid]
        exact ⟨List.Subset.refl _, fun heq => absurd heq hsid⟩
    constructor
    · intro sid' acc' b' block hacc' hblock
      obtain ⟨acc, hacc, hsub, -⟩ := hget sid' acc' hacc'
      exact hsub (h.entries sid' acc b' block hacc hblock)
    · intro c acc' block hc' hacc' hpending
      obtain rfl := Option.some.inj hc'
      obtain rfl : view.captured b = block := Option.some.inj hpending
      obtain ⟨-, -, -, hmem⟩ := hget sid acc' hacc'
      exact hmem rfl

/-- The contents that are shared are the block's own. -/
theorem ReadsOnly.share {newId : String} (hinv : Invariant s) (h : ReadsOnly s)
    (hsame : s.sharesSame (.share newId : ProtectionEvent ρ χ) = true) (hstep : s.share newId = some s') :
    ReadsOnly s' := by
  obtain ⟨sid, count, size, block, unread, hc, ⟨error, rfl⟩ | ⟨store, w, hshare, rfl⟩⟩ :=
    share_eq_some hstep
  · exact h.of_sameBlocks (sameBlocks_finalizeSnapshot _ _ _ _ _ _) (Or.inr rfl) rfl
  have hcounted := hinv.counted
  unfold held at hcounted
  rw [hc] at hcounted
  obtain ⟨-, -, -, hentry, hcontent⟩ := getOrCreateBlockVersion_ok hcounted hshare
  have hown : (s.store.sharedContent block.blockId block.version).getD
      ⟨block.blockId, block.version, block.data, block.deleted⟩ = block := by
    rcases hshared : s.store.sharedContent block.blockId block.version with _ | content
    · rfl
    · unfold sharesSame at hsame
      simp only [hc, hshared, Option.all_some, decide_eq_true_eq] at hsame
      exact hsame
  constructor
  · intro sid' acc b block' hacc hblock'
    exact h.entries sid' acc b block' hacc ((hentry sid' b).symm.trans hblock')
  · intro c acc block' hc' hacc hpending
    obtain rfl := Option.some.inj hc'
    have heq : some block = some block' := by
      rw [hown] at hcontent
      exact hcontent.symm.trans hpending
    obtain rfl := Option.some.inj heq
    exact h.pending _ acc block hc hacc rfl

theorem ReadsOnly.add (h : ReadsOnly s) (hstep : s.add = some s') : ReadsOnly s' := by
  obtain ⟨sid, count, size, b, w, unread, hc, rfl⟩ := add_eq_some hstep
  constructor
  · intro sid' acc b' block hacc hblock
    rw [entry_addSnapshotBlock] at hblock
    split at hblock
    · rename_i heq
      rw [Prod.mk.injEq] at heq
      obtain ⟨rfl, rfl⟩ := heq
      exact h.pending _ acc block hc hacc hblock
    · exact h.entries sid' acc b' block hacc hblock
  · intro c acc block hc' hacc hpending
    obtain rfl := Option.some.inj hc'
    cases hpending

theorem ReadsOnly.finish (h : ReadsOnly s) (hstep : s.finish = some s') : ReadsOnly s' := by
  obtain ⟨sid, count, size, -, rfl⟩ := finish_eq_some hstep
  constructor
  · intro sid' acc' b block hacc' hblock
    rw [(sameBlocks_finalizeSnapshot _ _ _ _ _ _).entry] at hblock
    rw [Dict.get?_modify] at hacc'
    obtain ⟨acc, hacc, rfl⟩ := Option.map_eq_some_iff.mp hacc'
    have hmem := h.entries sid' acc b block hacc hblock
    split <;> exact hmem
  · intro c acc block hc
    cases hc

theorem ReadsOnly.delete {sid : String} (hinv : Invariant s) (h : ReadsOnly s)
    (hstep : s.delete sid = some s') : ReadsOnly s' := by
  obtain ⟨hnone, rfl | ⟨store, size, hdel, rfl⟩⟩ := delete_eq_some hstep
  · exact h
  obtain ⟨-, -, hentry⟩ := hinv.counted.deleteSnapshot hdel
  constructor
  · intro sid' acc b block hacc hblock
    rw [hentry] at hblock
    split at hblock
    · cases hblock
    · exact h.entries sid' acc b block hacc hblock
  · intro c acc block hc
    rw [hnone] at hc
    cases hc

/-- What a creation holds is not reclaimed. -/
theorem ReadsOnly.reclaim (hinv : Invariant s) (h : ReadsOnly s) :
    ReadsOnly { s with store := s.store.reclaimOrphanBlocks } := by
  obtain ⟨-, hentry⟩ := hinv.counted.reclaimOrphanBlocks
  constructor
  · intro sid' acc b block hacc hblock
    exact h.entries sid' acc b block hacc ((hentry sid' b).symm.trans hblock)
  · intro c acc block hc hacc hpending
    refine h.pending c acc block hc hacc ?_
    unfold Protection.pending at hpending ⊢
    split at hpending
    · exact hpending
    · obtain ⟨row, hrow, rfl⟩ := Option.map_eq_some_iff.mp hpending
      unfold SnapshotStore.reclaimOrphanBlocks collected at hrow
      simp only [Dict.get?_filter, Option.filter_eq_some_iff] at hrow
      rw [hrow.1]
      rfl
    · cases hpending

/-- While only same contents are shared, a snapshot has entries for what was read. -/
theorem ReadsOnly.step {ev : ProtectionEvent ρ χ} (hinv : Invariant s) (h : ReadsOnly s)
    (hsame : s.sharesSame ev = true) (hstep : Protection.step R s ev = some s') : ReadsOnly s' := by
  cases ev with
  | change c =>
      obtain rfl := Option.some.inj hstep
      exact h.of_sameBlocks (.refl _) (Or.inl rfl) rfl
  | create sid now version placements => exact h.create hinv hstep
  | list =>
      obtain ⟨sid, count, size, -, rfl⟩ := list_eq_some hstep
      refine ⟨h.entries, fun c acc block hc' hacc hpending => ?_⟩
      obtain rfl := Option.some.inj hc'
      cases hpending
  | read r => exact h.read hstep
  | share newId => exact h.share hinv hsame hstep
  | add => exact h.add hstep
  | finish => exact h.finish hstep
  | raise error recorded =>
      obtain ⟨c, -, rfl⟩ := Option.map_eq_some_iff.mp hstep
      split
      · exact h.of_sameBlocks (sameBlocks_finalizeSnapshot _ _ _ _ _ _) (Or.inr rfl) rfl
      · exact h.of_sameBlocks (.refl _) (Or.inr rfl) rfl
  | delete sid => exact h.delete hinv hstep
  | reclaim =>
      obtain rfl := Option.some.inj hstep
      exact h.reclaim hinv
  | recover =>
      obtain rfl := Option.some.inj hstep
      exact h.of_sameBlocks (sameBlocks_recoverInterruptedSnapshots _) (Or.inl rfl) rfl
  | crash =>
      obtain rfl := Option.some.inj hstep
      exact h.of_sameBlocks (.refl _) (Or.inr rfl) rfl
  | restore sid =>
      obtain rfl := Option.some.inj hstep
      rcases s.restore_cases sid with heq | ⟨snapshot, -, -, heq⟩
      · rwa [heq]
      · rw [heq]
        exact h.of_sameBlocks (.refl _) (Or.inl rfl) rfl
  | mark i =>
      obtain ⟨sid, live, -, rfl⟩ := mark_eq_some hstep
      exact h.of_sameBlocks (sameBlocks_updateStatus _ _ _) (Or.inl rfl) rfl
  | load i =>
      obtain ⟨sid, live, -, rfl⟩ := load_eq_some hstep
      exact h.of_sameBlocks (.refl _) (Or.inl rfl) rfl
  | sweep i =>
      obtain ⟨sid, live, blocks, -, rfl⟩ := sweep_eq_some hstep
      exact h.of_sameBlocks (.refl _) (Or.inl rfl) rfl
  | endRestore i =>
      obtain ⟨r, -, rfl⟩ := endRestore_eq_some hstep
      exact h.of_sameBlocks (sameBlocks_updateStatus _ _ _) (Or.inl rfl) rfl

/-- A snapshot whose entries are all read, and that has an entry for all that was read, is faithful:
no block was read twice. -/
theorem ReadsOnly.faithful (hinv : Invariant s) (h : ReadsOnly s) : s.Faithful := by
  intro sid acc hacc hfin hpresent block
  rw [mem_getSnapshotBlocks]
  constructor
  · intro hentry
    have hmem := h.entries sid acc _ block hacc hentry
    exact ⟨hmem, hinv.live sid acc hacc block hmem⟩
  · rintro ⟨hmem, -⟩
    obtain ⟨e, hentry⟩ := hinv.finished sid acc hacc hfin hpresent block hmem
    have he := h.entries sid acc _ e hacc hentry
    obtain rfl : e = block := List.inj_on_of_nodup_map (hinv.nodup sid acc hacc) he hmem
      (blockId_of_entry hentry)
    exact hentry

/-! ## Snapshots of an engine -/

/-- **In every run in which only same contents are shared, a snapshot that was returned as `READY`
holds what was read for it until it is deleted.** -/
theorem snapshot_faithful {e : LocalEngine} (evs : List (ProtectionEvent Unit EngineOp))
    {s : Protection LocalEngine}
    (h : runWhile (step LocalEngine.adapter) sharesSame (init e) evs = some s) : s.Faithful := by
  have hinv : Invariant s ∧ ReadsOnly s := by
    apply runWhile_induction (I := fun s => Invariant s ∧ ReadsOnly s) _ _ h
    · exact fun s ev s' hs hC hstep => ⟨hs.1.step hstep, hs.2.step hs.1 hC hstep⟩
    · exact ⟨Invariant.init e, ReadsOnly.init e⟩
  exact hinv.2.faithful hinv.1

/-- What was read for a snapshot that was returned as `READY` and is still there. -/
def returned (s : Protection W) (sid : String) : List SnapshotBlock :=
  match s.accounts.get? sid, s.store.getSnapshot sid with
  | some acc, some _ => if acc.finished then acc.reads else []
  | _, _ => []

theorem Faithful.mem_of_returned (h : s.Faithful) {sid : String} {block : SnapshotBlock}
    (hblock : block ∈ s.returned sid) :
    block ∈ s.store.getSnapshotBlocks sid ∨ block.deleted = true := by
  unfold returned at hblock
  split at hblock
  · rename_i acc row hacc hrow
    split at hblock
    · rename_i hfin
      rcases hdel : block.deleted with _ | _
      · exact Or.inl ((h sid acc hacc hfin (by rw [hrow]; rfl) block).mpr ⟨hblock, hdel⟩)
      · exact Or.inr rfl
    · exact absurd hblock List.not_mem_nil
  · exact absurd hblock List.not_mem_nil

/-- A write of the block `"b1"`. -/
def writeBlock (data : String) (version : ℤ) : ProtectionEvent Unit EngineOp :=
  .change (.writeLocal "b1" data (.resolve (some version)) none none)

/-- A snapshot of an engine with one block. -/
def oneBlockSnapshot (snapshotId versionId : String) : List (ProtectionEvent Unit EngineOp) :=
  [.create snapshotId 1000 1 Dict.empty, .list, .read (), .share versionId, .add, .finish]

/-- Two snapshots, the second one after another write, and the first one deleted. -/
def twoSnapshots : List (ProtectionEvent Unit EngineOp) :=
  writeBlock "old" 1 :: oneBlockSnapshot "s1" "v1" ++ writeBlock "new" 2 ::
    oneBlockSnapshot "s2" "v2" ++ [.delete "s1"]

/-- Two snapshots of one version, with a purge between them. -/
def purgeBetween : List (ProtectionEvent Unit EngineOp) :=
  writeBlock "old" 1 :: oneBlockSnapshot "s1" "v1" ++ .change .purgeAllBlocks ::
    writeBlock "new" 1 :: oneBlockSnapshot "s2" "v2"

theorem snapshot_faithful_twoSnapshots : ∃ s,
    runWhile (step LocalEngine.adapter) sharesSame (init (.empty "node1")) twoSnapshots = some s ∧
    s.store.getSnapshotBlocks "s2" = [⟨"b1", 2, some "new", false⟩] ∧ s.Faithful := by
  have hrun : (runWhile (step LocalEngine.adapter) sharesSame (init (.empty "node1"))
      twoSnapshots).map (fun s => s.store.getSnapshotBlocks "s2") =
      some [⟨"b1", 2, some "new", false⟩] := by decide +kernel
  obtain ⟨s, hs, hblocks⟩ := Option.map_eq_some_iff.mp hrun
  exact ⟨s, hs, hblocks, snapshot_faithful twoSnapshots hs⟩

/-- The second snapshot is given the contents of the first. -/
theorem snapshot_faithful_counterexample : ¬ ∀ (e : LocalEngine)
    (evs : List (ProtectionEvent Unit EngineOp)) (s : Protection LocalEngine),
    run (step LocalEngine.adapter) (init e) evs = some s → s.Faithful := by
  intro h
  have hrun : (run (step LocalEngine.adapter) (init (.empty "node1")) purgeBetween).map
      (fun s => (s.store.getSnapshotBlocks "s2", s.returned "s2")) =
      some ([⟨"b1", 1, some "old", false⟩], [⟨"b1", 1, some "new", false⟩]) := by decide +kernel
  obtain ⟨s, hs, hblocks⟩ := Option.map_eq_some_iff.mp hrun
  obtain ⟨hstored, hread⟩ := Prod.mk.inj hblocks
  have hreturned : ⟨"b1", 1, some "new", false⟩ ∈ s.returned "s2" := hread ▸ List.mem_cons_self
  have hmem := (h (.empty "node1") purgeBetween s hs).mem_of_returned hreturned
  rw [hstored] at hmem
  revert hmem
  decide

end Protection

end NanoFabric.Storage
