import NanoFabric.Found.Ranking
import NanoFabric.Storage.SnapshotFidelity

/-!
# Retention, and the snapshots that stay

`RetentionManager` of `storage/retention_manager.py`: the snapshots that are ready are listed from the
newest, and those after the first few are deleted, one call of the manager each. Other calls may come
between these deletions, so that each of them is a step of its own.

* `SnapshotStore.expired` — the snapshots that a call deletes.
* `SnapshotStore.mem_take_ready` — the snapshots that come first, by their times.
* `SnapshotStore.getSnapshotBlocks_congr` — the blocks of a snapshot are fixed by its entries.
* `Protection.entry_step` — a step changes the entries of the snapshot that it is about, and of no
  other one.
* `Protection.othersUndamaged` — the statement over all runs.
-/

namespace NanoFabric.Storage

open NanoFabric.Found

/-- `items[start:]`, where a negative start counts from the end. -/
def sliceFrom {α : Type} (start : ℤ) (items : List α) : List α :=
  if start < 0 then items.drop (items.length + start).toNat else items.drop start.toNat

namespace SnapshotStore

/-! ## What is expired -/

/-- The newest first; those of one millisecond stay in the order of their rows. -/
def newestFirst (item item' : String × SnapshotRecord) : Prop := item'.2.timestamp ≤ item.2.timestamp

instance : DecidableRel newestFirst := fun _ _ => by
  unfold newestFirst
  infer_instance

/-- Source: `storage/snapshot_store.py`, `list_snapshots`. -/
def listSnapshots (s : SnapshotStore) : List (String × SnapshotRecord) :=
  s.snapshots.entries.insertionSort newestFirst

/-- The snapshots that are ready, as the retention manager sorts them.
Source: `storage/retention_manager.py`, `enforce_retention`. -/
def ready (s : SnapshotStore) : List (String × SnapshotRecord) :=
  (s.listSnapshots.filter fun item => item.2.status = .ready).insertionSort newestFirst

/-- The snapshots that a retention of so many deletes, in the order of the deletions.
Source: `storage/retention_manager.py`, `enforce_retention`. -/
def expired (s : SnapshotStore) (keepLastN : ℤ) : List String :=
  (sliceFrom keepLastN s.ready).map Prod.fst

variable {s s' : SnapshotStore} {sid : String}

theorem ready_perm (s : SnapshotStore) :
    s.ready.Perm (s.snapshots.entries.filter fun item => item.2.status = .ready) :=
  (List.perm_insertionSort _ _).trans ((List.perm_insertionSort _ _).filter _)

theorem mem_ready : sid ∈ s.ready.map Prod.fst ↔
    ∃ row, s.getSnapshot sid = some row ∧ row.status = .ready := by
  rw [List.mem_map]
  constructor
  · rintro ⟨⟨sid', row⟩, hmem, rfl⟩
    rw [s.ready_perm.mem_iff, List.mem_filter, decide_eq_true_eq] at hmem
    exact ⟨row, Dict.mem_entries.mp hmem.1, hmem.2⟩
  · rintro ⟨row, hrow, hstatus⟩
    refine ⟨(sid, row), ?_, rfl⟩
    rw [s.ready_perm.mem_iff, List.mem_filter, decide_eq_true_eq]
    exact ⟨Dict.mem_entries.mpr hrow, hstatus⟩

theorem nodup_ready (s : SnapshotStore) : (s.ready.map Prod.fst).Nodup := by
  rw [(s.ready_perm.map Prod.fst).nodup_iff]
  exact s.snapshots.nodup.sublist (List.filter_sublist.map _)

/-- What a retention deletes is ready and not among those that come first. -/
theorem mem_expired {n : ℕ} : sid ∈ s.expired n ↔
    sid ∈ s.ready.map Prod.fst ∧ sid ∉ (s.ready.take n).map Prod.fst := by
  have hslice : s.expired n = (s.ready.map Prod.fst).drop n := by
    unfold expired sliceFrom
    rw [if_neg (by omega), Int.toNat_natCast, List.map_drop]
  have hnodup := s.nodup_ready
  rw [hslice, List.map_take]
  rw [← List.take_append_drop n (s.ready.map Prod.fst), List.nodup_append] at hnodup
  constructor
  · exact fun hdrop => ⟨List.mem_of_mem_drop hdrop, fun htake => hnodup.2.2 _ htake _ hdrop rfl⟩
  · rintro ⟨hmem, hnot⟩
    rw [← List.take_append_drop n (s.ready.map Prod.fst), List.mem_append] at hmem
    exact hmem.resolve_left hnot

/-- How many of the snapshots that are ready come before one of the time, whose row is between the two
parts of the table: those of a later time, and those of its time that were made before it. -/
def ahead (before after : List (String × SnapshotRecord)) (time : ℤ) : ℕ :=
  before.countP (fun item => item.2.status = .ready ∧ time ≤ item.2.timestamp) +
    after.countP (fun item => item.2.status = .ready ∧ time < item.2.timestamp)

/-- A snapshot that is ready is among the first `n` just when fewer than `n` come before it. -/
theorem mem_take_ready {before after : List (String × SnapshotRecord)} {row : SnapshotRecord} {n : ℕ}
    (hentries : s.snapshots.entries = before ++ (sid, row) :: after) (hready : row.status = .ready) :
    sid ∈ (s.ready.take n).map Prod.fst ↔ ahead before after row.timestamp < n := by
  have hlisted : s.ready = ((before ++ (sid, row) :: after).insertionSort
      (Descending fun item => item.2.timestamp)).filter fun item => item.2.status = .ready := by
    rw [← hentries]
    exact insertionSort_filter_insertionSort _ _ _
  have hrow : s.snapshots.get? sid = some row :=
    Dict.mem_entries.mp (hentries ▸ List.mem_append_right _ List.mem_cons_self)
  have hmem : sid ∈ (s.ready.take n).map Prod.fst ↔ (sid, row) ∈ s.ready.take n := by
    refine ⟨fun h => ?_, fun h => List.mem_map_of_mem h⟩
    obtain ⟨⟨sid', row'⟩, htake, rfl⟩ := List.mem_map.mp h
    have hentry := s.ready_perm.mem_iff.mp (List.mem_of_mem_take htake)
    obtain rfl := Option.some.inj
      (hrow.symm.trans (Dict.mem_entries.mp (List.mem_filter.mp hentry).1))
    exact htake
  have hnodup : (before ++ (sid, row) :: after).Nodup := hentries ▸ s.snapshots.nodup.of_map
  have hplace := mem_take_insertionSort_filter (n := n) (fun item => item.2.timestamp)
    (p := fun item : String × SnapshotRecord => item.2.status = .ready) (decide_eq_true hready) hnodup
  simp only [decide_eq_true_eq] at hplace
  rw [hmem, hlisted, hplace]
  rfl

/-! ## Snapshots with the same entries -/

/-- The blocks of a snapshot come sorted, so that its entries fix them. -/
theorem getSnapshotBlocks_congr (h : ∀ b, s'.entry sid b = s.entry sid b) :
    s'.getSnapshotBlocks sid = s.getSnapshotBlocks sid := by
  have htotal : Std.Total fun block block' : SnapshotBlock => block.blockId ≤ block'.blockId :=
    ⟨fun block block' => le_total block.blockId block'.blockId⟩
  have htrans : IsTrans SnapshotBlock fun block block' => block.blockId ≤ block'.blockId :=
    ⟨fun _ _ _ => le_trans⟩
  have hmem : ∀ block, block ∈ s'.getSnapshotBlocks sid ↔ block ∈ s.getSnapshotBlocks sid := by
    intro block
    rw [mem_getSnapshotBlocks, mem_getSnapshotBlocks, h]
  have hperm : (s'.getSnapshotBlocks sid).Perm (s.getSnapshotBlocks sid) :=
    (List.perm_ext_iff_of_nodup (nodup_getSnapshotBlocks s' sid).of_map
      (nodup_getSnapshotBlocks s sid).of_map).mpr hmem
  refine List.Perm.eq_of_pairwise ?_ (List.pairwise_insertionSort _ _)
    (List.pairwise_insertionSort _ _) hperm
  intro block block' hblock hblock' hle hle'
  rw [hmem] at hblock
  exact List.inj_on_of_nodup_map (nodup_getSnapshotBlocks s sid) hblock hblock'
    (le_antisymm hle hle')

/-- Operations on the records of snapshots leave the blocks of all of them. -/
theorem SameBlocks.getSnapshotBlocks (h : SameBlocks s s') (sid : String) :
    s'.getSnapshotBlocks sid = s.getSnapshotBlocks sid :=
  getSnapshotBlocks_congr (h.entry sid)

end SnapshotStore

namespace Protection

open SnapshotStore

variable {W ρ χ : Type} {R : Wiring W ρ χ} {s s' : Protection W}

/-! ## Steps and the snapshots that they are about -/

/-- The step is about the blocks of the snapshot: it deletes the snapshot, or it adds a block to it
while it is being created. -/
def Touches (s : Protection W) (sid : String) : ProtectionEvent ρ χ → Prop
  | .delete sid' => sid' = sid
  | .add => ∃ c, s.creation = some c ∧ c.snapshotId = sid
  | _ => False

/-- A step leaves the entries of every snapshot that it is not about. -/
theorem entry_step {ev : ProtectionEvent ρ χ} {sid : String} (h : Invariant s)
    (hstep : Protection.step R s ev = some s') (htouch : ¬ s.Touches sid ev) (b : String) :
    s'.store.entry sid b = s.store.entry sid b := by
  cases ev with
  | change c =>
      obtain rfl := Option.some.inj hstep
      rfl
  | create sid' now version placements =>
      obtain rfl | ⟨-, -, store, hstore, rfl⟩ := create_eq_some hstep
      · rfl
      · obtain ⟨hversions, hblocks, -⟩ := createSnapshotRecord_ok hstore
        unfold SnapshotStore.entry
        rw [hversions, hblocks]
  | list =>
      obtain ⟨sid', count, size, -, rfl⟩ := list_eq_some hstep
      rfl
  | read r =>
      obtain ⟨sid', count, size, b', unread, -, hread⟩ := read_eq_some hstep
      obtain ⟨-, rfl⟩ | ⟨view, size', -, rfl⟩ := hread <;> rfl
  | share newId =>
      obtain ⟨sid', count, size, block, unread, -, hshare⟩ := share_eq_some hstep
      obtain ⟨error, rfl⟩ | ⟨store, w, hok, rfl⟩ := hshare
      · exact (sameBlocks_finalizeSnapshot _ _ _ _ _ _).entry sid b
      · obtain ⟨-, -, -, hentry, -⟩ := getOrCreateBlockVersion_ok h.counted hok
        exact hentry sid b
  | add =>
      obtain ⟨sid', count, size, b', w, unread, hc, rfl⟩ := add_eq_some hstep
      have hne : sid ≠ sid' := fun hsid => htouch ⟨_, hc, hsid.symm⟩
      rw [entry_addSnapshotBlock, if_neg fun hkey => hne (congrArg Prod.fst hkey)]
  | finish =>
      obtain ⟨sid', count, size, -, rfl⟩ := finish_eq_some hstep
      exact (sameBlocks_finalizeSnapshot _ _ _ _ _ _).entry sid b
  | raise error recorded =>
      obtain ⟨c, -, rfl⟩ := Option.map_eq_some_iff.mp hstep
      split
      · exact (sameBlocks_finalizeSnapshot _ _ _ _ _ _).entry sid b
      · rfl
  | delete sid' =>
      obtain ⟨-, rfl | ⟨store, size, hdel, rfl⟩⟩ := delete_eq_some hstep
      · rfl
      · obtain ⟨-, -, hentry⟩ := h.counted.deleteSnapshot hdel
        rw [hentry, if_neg (Ne.symm htouch)]
  | reclaim =>
      obtain rfl := Option.some.inj hstep
      exact h.counted.reclaimOrphanBlocks.2 sid b
  | recover =>
      obtain rfl := Option.some.inj hstep
      exact (sameBlocks_recoverInterruptedSnapshots _).entry sid b
  | crash =>
      obtain rfl := Option.some.inj hstep
      rfl
  | restore sid' =>
      obtain rfl := Option.some.inj hstep
      rcases s.restore_cases sid' with heq | ⟨snapshot, -, -, heq⟩ <;> rw [heq]
  | mark i =>
      obtain ⟨sid', live, -, rfl⟩ := mark_eq_some hstep
      exact (sameBlocks_updateStatus _ _ _).entry sid b
  | load i =>
      obtain ⟨sid', live, -, rfl⟩ := load_eq_some hstep
      rfl
  | sweep i =>
      obtain ⟨sid', live, blocks, -, rfl⟩ := sweep_eq_some hstep
      rfl
  | endRestore i =>
      obtain ⟨r, -, rfl⟩ := endRestore_eq_some hstep
      exact (sameBlocks_updateStatus _ _ _).entry sid b

/-- A step leaves the blocks of every snapshot that it is not about. -/
theorem getSnapshotBlocks_step {ev : ProtectionEvent ρ χ} {sid : String} (h : Invariant s)
    (hstep : Protection.step R s ev = some s') (htouch : ¬ s.Touches sid ev) :
    s'.store.getSnapshotBlocks sid = s.store.getSnapshotBlocks sid :=
  getSnapshotBlocks_congr (entry_step h hstep htouch)

/-- Every run keeps the invariant. -/
theorem Invariant.run {evs : List (ProtectionEvent ρ χ)} (h : Invariant s)
    (hrun : Found.run (Protection.step R) s evs = some s') : Invariant s' :=
  runWhile_induction (fun _ _ _ hI _ hstep => hI.step hstep) h hrun

/-! ## Retention -/

/-- The deletions of a call with nothing between them, if no creation holds the lock.
Source: `storage/retention_manager.py`, `enforce_retention`. -/
def enforceRetention (R : Wiring W ρ χ) (s : Protection W) (keepLastN : ℤ) :
    Option (Protection W) :=
  run (Protection.step R) s ((s.store.expired keepLastN).map .delete)

/-- Deletions leave the blocks of every snapshot that is not among those deleted. -/
theorem getSnapshotBlocks_run_delete {sids : List String} {sid : String} (h : Invariant s)
    (hsid : sid ∉ sids) (hrun : run (Protection.step R) s (sids.map .delete) = some s') :
    s'.store.getSnapshotBlocks sid = s.store.getSnapshotBlocks sid := by
  induction sids generalizing s with
  | nil => exact Option.some.inj hrun ▸ rfl
  | cons sid' sids ih =>
      obtain ⟨-, s₁, hs₁, hrun⟩ := runWhile_cons.mp hrun
      obtain ⟨hne, hsid⟩ := not_or.mp (mt List.mem_cons.mpr hsid)
      rw [ih (h.step hs₁) hsid hrun]
      exact getSnapshotBlocks_step h hs₁ (Ne.symm hne)

/-- A deletion takes its snapshot away and leaves the others. -/
theorem getSnapshot_delete {sid : String} (hstep : s.delete sid = some s') (sid' : String) :
    s'.store.getSnapshot sid' = if sid' = sid then none else s.store.getSnapshot sid' := by
  unfold delete at hstep
  split_ifs at hstep
  split at hstep
  · rename_i hdel
    obtain rfl := Option.some.inj hstep
    have hnone : s.store.getSnapshot sid = none := Option.map_eq_none_iff.mp hdel
    split
    · rename_i hsid
      rw [hsid, hnone]
    · rfl
  · rename_i store size hdel
    obtain rfl := Option.some.inj hstep
    obtain ⟨row, -, hdel⟩ := Option.map_eq_some_iff.mp hdel
    simp only [Prod.mk.injEq] at hdel
    obtain ⟨rfl, -⟩ := hdel
    exact Dict.get?_erase

theorem getSnapshot_run_delete {sids : List String}
    (hrun : run (Protection.step R) s (sids.map .delete) = some s') (sid : String) :
    s'.store.getSnapshot sid = if sid ∈ sids then none else s.store.getSnapshot sid := by
  induction sids generalizing s with
  | nil => exact Option.some.inj hrun ▸ rfl
  | cons sid' sids ih =>
      obtain ⟨-, s₁, hs₁, hrun⟩ := runWhile_cons.mp hrun
      rw [ih hrun, getSnapshot_delete hs₁]
      by_cases hsid : sid = sid' <;> by_cases hmem : sid ∈ sids <;> simp [hsid, hmem]

/-! ## The statement -/

/-- After every run each reference of a snapshot is to contents that are there and are counted at
least as often as they are referred to, a step leaves the blocks of every snapshot that it is not
about, and a retention leaves those of every snapshot that it does not delete. -/
theorem othersUndamaged (R : Wiring W ρ χ) {w : W} {evs : List (ProtectionEvent ρ χ)}
    (hrun : run (Protection.step R) (Protection.init w) evs = some s) :
    (∀ key versionId, s.store.snapshotBlocks.get? key = some versionId →
      ∃ row, s.store.blockVersions.get? versionId = some row) ∧
    (∀ versionId row, s.store.blockVersions.get? versionId = some row →
      (s.store.snapshotBlocks.count versionId : ℤ) ≤ row.refCount) ∧
    (∀ ev s', Protection.step R s ev = some s' → ∀ sid, ¬ s.Touches sid ev →
      s'.store.getSnapshotBlocks sid = s.store.getSnapshotBlocks sid) ∧
    ∀ keepLastN s', s.enforceRetention R keepLastN = some s' →
      ∀ sid, sid ∉ s.store.expired keepLastN →
        s'.store.getSnapshotBlocks sid = s.store.getSnapshotBlocks sid := by
  have hinv : Invariant s := (Invariant.init w).run hrun
  refine ⟨hinv.counted.referenced, fun versionId row hrow => ?_, fun ev s' hstep sid htouch =>
    getSnapshotBlocks_step hinv hstep htouch, fun keepLastN s' hret sid hsid =>
    getSnapshotBlocks_run_delete hinv hsid hret⟩
  have hle := hinv.counted.le versionId row hrow
  have hcount : BlockVersion.counter.count row = row.refCount := rfl
  omega

/-- Two snapshots of one version, with one between them that a crash interrupts once its reference is
counted. -/
def sharedByTwo : List (ProtectionEvent Unit Node.EngineOp) :=
  writeBlock "old" 1 :: oneBlockSnapshot "s1" "v1" ++
    [.create "s2" 1000 1 Dict.empty, .list, .read (), .share "v2", .crash, .recover,
      .delete "s2"] ++ oneBlockSnapshot "s3" "v3"

theorem othersUndamaged_sharedByTwo : ∃ s s',
    run (Protection.step LocalEngine.adapter) (Protection.init (LocalEngine.empty "node1"))
      sharedByTwo = some s ∧
    Protection.step LocalEngine.adapter s (.delete "s1") = some s' ∧
    s'.store.getSnapshotBlocks "s3" = [⟨"b1", 1, some "old", false⟩] := by
  have hrun : (run (Protection.step LocalEngine.adapter)
      (Protection.init (LocalEngine.empty "node1")) sharedByTwo).map (fun s =>
        (s.store.getSnapshotBlocks "s3",
          (Protection.step LocalEngine.adapter s (.delete "s1")).isSome)) =
      some ([⟨"b1", 1, some "old", false⟩], true) := by decide +kernel
  obtain ⟨s, hs, hpair⟩ := Option.map_eq_some_iff.mp hrun
  obtain ⟨hblocks, hdelete⟩ := Prod.mk.inj hpair
  obtain ⟨s', hs'⟩ := Option.isSome_iff_exists.mp hdelete
  refine ⟨s, s', hs, hs', ?_⟩
  obtain ⟨-, -, hstep, -⟩ := othersUndamaged LocalEngine.adapter hs
  rw [hstep (.delete "s1") s' hs' "s3" (show ¬ "s1" = "s3" by decide)]
  exact hblocks

end Protection

end NanoFabric.Storage
