import NanoFabric.Storage.Captures
import NanoFabric.Storage.ClusterBridge

/-!
# Which snapshots are complete

A snapshot that is `READY`, or that a restore agrees to apply, is to have an entry for every block
that was live when it was created, so that a restore deletes none of these.

* `Covers.step` — while reads do not miss live blocks, restores take no snapshot whose creation broke
  off, and no snapshot is deleted while a restore is about to read it, this is kept.
* `snapshots_complete` — so it holds in every such run.
* `snapshots_complete_counterexample` — a read that no node answers is skipped.
-/

namespace NanoFabric.Storage

open NanoFabric.Found

namespace Protection

open SnapshotStore

variable {W ρ χ : Type} {R : Wiring W ρ χ} {s s' : Protection W}

/-! ## The property and the condition -/

/-- A snapshot has an entry for each of these blocks. -/
def HasEntries (store : SnapshotStore) (sid : String) (live : List String) : Prop :=
  ∀ b ∈ live, ∃ block ∈ store.getSnapshotBlocks sid, block.blockId = b

/-- What is `READY` or being restored is complete, and no restore deletes a block that was live. -/
structure Complete (s : Protection W) : Prop where
  ready : ∀ sid row, s.store.getSnapshot sid = some row → row.status = .ready →
    ∃ acc, s.accounts.get? sid = some acc ∧ HasEntries s.store sid acc.live
  agreed : ∀ r ∈ s.restores, r.phase = .agreed ∨ r.phase = .marked →
    ∃ acc, s.accounts.get? r.snapshotId = some acc ∧ r.live = acc.live ∧
      HasEntries s.store r.snapshotId acc.live
  kept : ∀ r ∈ s.restores, ∀ b ∈ r.stale, b ∉ r.live

/-- The blocks that were live when a snapshot was created. -/
def liveAt (s : Protection W) (sid : String) : List String :=
  ((s.accounts.get? sid).map Account.live).getD []

/-- Whether the creation of a snapshot returned it. -/
def finishedAt (s : Protection W) (sid : String) : Bool :=
  ((s.accounts.get? sid).map Account.finished).getD false

theorem liveAt_eq {sid : String} {acc : Account} (h : s.accounts.get? sid = some acc) :
    s.liveAt sid = acc.live := by
  unfold liveAt
  rw [h]
  rfl

theorem finishedAt_eq_true {sid : String} (h : s.finishedAt sid = true) :
    ∃ acc, s.accounts.get? sid = some acc ∧ acc.finished = true := by
  unfold finishedAt at h
  rcases hacc : s.accounts.get? sid with _ | acc
  · rw [hacc] at h
    cases h
  · rw [hacc] at h
    exact ⟨acc, rfl, h⟩

/-- Live blocks are listed and read, a snapshot that is `FAILED` is restored only if its creation had
returned it, and no snapshot is deleted between the check of a restore and its read of the blocks. -/
def keepsComplete (R : Wiring W ρ χ) (s : Protection W) : ProtectionEvent ρ χ → Bool
  | .list =>
      match s.creation with
      | some c => (s.liveAt c.snapshotId).all (· ∈ R.listBlocks s.world)
      | none => true
  | .read r =>
      match s.creation with
      | some ⟨sid, _, _, .capturing (b :: _)⟩ =>
          b ∉ s.liveAt sid || (R.readBlock s.world r b).2.isSome
      | _ => true
  | .restore sid =>
      match s.store.getSnapshot sid with
      | some snapshot => snapshot.status ≠ .failed || s.finishedAt sid
      | none => true
  | .delete sid => s.restores.all fun r =>
      r.snapshotId ≠ sid || (r.phase ≠ .agreed && r.phase ≠ .marked)
  | _ => true

/-! ## The invariant -/

/-- What a restore has found. -/
def RestoreCovers (store : SnapshotStore) (accounts : Dict String Account) (r : Restore) : Prop :=
  ∃ acc, accounts.get? r.snapshotId = some acc ∧ acc.finished = true ∧ r.live = acc.live ∧
    match r.phase with
    | .loaded blocks => ∀ b ∈ r.live, b ∈ blocks.map SnapshotBlock.blockId
    | .swept stale => ∀ b ∈ stale, b ∉ r.live
    | _ => (store.getSnapshot r.snapshotId).isSome

/-- A live block is read by the end of a creation, and only finished snapshots are `READY` or taken
by a restore. -/
structure Covers (s : Protection W) : Prop where
  creating : ∀ c acc, s.creation = some c → s.accounts.get? c.snapshotId = some acc →
    c.phase = .started ∨
      ∀ b ∈ acc.live, b ∈ acc.reads.map SnapshotBlock.blockId ∨ b ∈ c.phase.unread
  finished : ∀ sid acc, s.accounts.get? sid = some acc → acc.finished = true →
    ∀ b ∈ acc.live, b ∈ acc.reads.map SnapshotBlock.blockId
  ready : ∀ sid row, s.store.getSnapshot sid = some row → row.status = .ready →
    ∃ acc, s.accounts.get? sid = some acc ∧ acc.finished = true
  restores : ∀ r ∈ s.restores, RestoreCovers s.store s.accounts r

theorem Covers.init (w : W) : Covers (Protection.init w) where
  creating _ _ h := by cases h
  finished _ _ h := by cases h
  ready _ _ h := by cases h
  restores _ h := absurd h List.not_mem_nil

/-- A finished snapshot has an entry for every live block. -/
theorem Covers.hasEntries (hinv : Invariant s) (h : Covers s) {sid : String} {acc : Account}
    (hacc : s.accounts.get? sid = some acc) (hfin : acc.finished = true)
    (hpresent : (s.store.getSnapshot sid).isSome) : HasEntries s.store sid acc.live := by
  intro b hb
  obtain ⟨block, hblock, rfl⟩ := List.mem_map.mp (h.finished sid acc hacc hfin b hb)
  exact exists_mem_getSnapshotBlocks.mpr (hinv.finished sid acc hacc hfin hpresent block hblock)

theorem Covers.complete (hinv : Invariant s) (h : Covers s) : Complete s where
  ready sid row hrow hstatus := by
    obtain ⟨acc, hacc, hfin⟩ := h.ready sid row hrow hstatus
    exact ⟨acc, hacc, h.hasEntries hinv hacc hfin (by rw [hrow]; rfl)⟩
  agreed r hr hphase := by
    obtain ⟨acc, hacc, hfin, hlive, hcase⟩ := h.restores r hr
    refine ⟨acc, hacc, hlive, h.hasEntries hinv hacc hfin ?_⟩
    rcases hphase with hphase | hphase
    · rw [hphase] at hcase
      exact hcase
    · rw [hphase] at hcase
      exact hcase
  kept r hr b hb := by
    obtain ⟨acc, -, -, -, hcase⟩ := h.restores r hr
    unfold Restore.stale at hb
    rcases hphase : r.phase with _ | _ | blocks | stale
    · rw [hphase] at hb
      exact absurd hb List.not_mem_nil
    · rw [hphase] at hb
      exact absurd hb List.not_mem_nil
    · rw [hphase] at hb
      exact absurd hb List.not_mem_nil
    · rw [hphase] at hb hcase
      exact hcase b hb

/-! ## Steps -/

/-- The accounts of other creations and of finished snapshots stay as they are. -/
def AccountsKept (accounts accounts' : Dict String Account) : Prop :=
  ∀ sid acc, accounts.get? sid = some acc → acc.finished = true → accounts'.get? sid = some acc

theorem RestoreCovers.mono {store store' : SnapshotStore} {accounts accounts' : Dict String Account}
    {r : Restore} (h : RestoreCovers store accounts r) (hacc : AccountsKept accounts accounts')
    (hpresent : r.phase = .agreed ∨ r.phase = .marked → (store.getSnapshot r.snapshotId).isSome →
      (store'.getSnapshot r.snapshotId).isSome) : RestoreCovers store' accounts' r := by
  obtain ⟨acc, hget, hfin, hlive, hcase⟩ := h
  refine ⟨acc, hacc _ acc hget hfin, hfin, hlive, ?_⟩
  rcases hphase : r.phase with _ | _ | blocks | stale
  · rw [hphase] at hcase
    exact hpresent (Or.inl hphase) hcase
  · rw [hphase] at hcase
    exact hpresent (Or.inr hphase) hcase
  · rw [hphase] at hcase
    exact hcase
  · rw [hphase] at hcase
    exact hcase

/-- Steps after which no more snapshots are `READY`, none is gone, and the creation is as before or
over. -/
theorem Covers.of_sameBlocks (h : Covers s) (hstore : SameBlocks s.store s'.store)
    (hready : ∀ sid row, s'.store.getSnapshot sid = some row → row.status = .ready →
      (∃ row, s.store.getSnapshot sid = some row ∧ row.status = .ready) ∨
        ∃ acc, s.accounts.get? sid = some acc ∧ acc.finished = true)
    (hcreation : s'.creation = s.creation ∨ s'.creation = none)
    (haccounts : s'.accounts = s.accounts)
    (hrestores : ∀ r ∈ s'.restores, r ∈ s.restores ∨ RestoreCovers s'.store s.accounts r) :
    Covers s' where
  creating c acc hc hacc := by
    rcases hcreation with hsame | hnone
    · exact h.creating c acc (hsame ▸ hc) (haccounts ▸ hacc)
    · rw [hnone] at hc
      cases hc
  finished sid acc hacc := h.finished sid acc (haccounts ▸ hacc)
  ready sid row hrow hstatus := by
    rw [haccounts]
    rcases hready sid row hrow hstatus with ⟨row', hrow', hstatus'⟩ | hfin
    · exact h.ready sid row' hrow' hstatus'
    · exact hfin
  restores r hr := by
    rw [haccounts]
    rcases hrestores r hr with hmem | hcovers
    · refine (h.restores r hmem).mono (fun _ _ hacc _ => hacc) fun _ hpresent => ?_
      rwa [hstore.present]
    · exact hcovers

theorem Covers.create {sid : String} {now version : ℤ} {placements : Dict String (List String)}
    (h : Covers s) (hstep : s.create R sid now version placements = some s') : Covers s' := by
  obtain rfl | ⟨-, hfresh, store, hstore, rfl⟩ := create_eq_some hstep
  · exact h
  obtain ⟨-, -, hget⟩ := createSnapshotRecord_ok hstore
  have hkept : AccountsKept s.accounts (s.accounts.set sid ⟨R.live s.world, [], false⟩) := by
    intro sid' acc hacc _
    rw [Dict.get?_set_of_ne, hacc]
    rintro rfl
    rw [hfresh] at hacc
    cases hacc
  refine ⟨fun c acc hc hacc => ?_, fun sid' acc hacc hfin => ?_, fun sid' row hrow hstatus => ?_,
    fun r hr => ?_⟩
  · obtain rfl := Option.some.inj hc
    exact Or.inl rfl
  · simp only [Dict.get?_set] at hacc
    split at hacc
    · obtain rfl := Option.some.inj hacc
      cases hfin
    · exact h.finished sid' acc hacc hfin
  · simp only [hget] at hrow
    split at hrow
    · obtain rfl := Option.some.inj hrow
      cases hstatus
    · obtain ⟨acc, hacc, hfin⟩ := h.ready sid' row hrow hstatus
      exact ⟨acc, hkept sid' acc hacc hfin, hfin⟩
  · refine (h.restores r hr).mono hkept fun _ hpresent => ?_
    rw [hget]
    split
    · rfl
    · exact hpresent

theorem Covers.list (h : Covers s)
    (hC : keepsComplete R s (.list : ProtectionEvent ρ χ) = true) (hstep : s.list R = some s') :
    Covers s' := by
  obtain ⟨sid, count, size, hc, rfl⟩ := list_eq_some hstep
  refine ⟨fun c acc hc' hacc => ?_, h.finished, h.ready, h.restores⟩
  obtain rfl := Option.some.inj hc'
  refine Or.inr fun b hb => Or.inr ?_
  unfold keepsComplete at hC
  simp only [hc] at hC
  rw [← liveAt_eq hacc] at hb
  exact of_decide_eq_true (List.all_eq_true.mp hC b hb)

/-- A live block that is not read yet stays to be read, or is read. -/
theorem Covers.read {r : ρ} (hinv : Invariant s) (h : Covers s)
    (hC : keepsComplete R s (.read r : ProtectionEvent ρ χ) = true)
    (hstep : s.read R r = some s') : Covers s' := by
  obtain ⟨sid, count, size, b, unread, hc, hread⟩ := read_eq_some hstep
  obtain ⟨acc, hacc, hcreating⟩ := hinv.creating _ hc
  have hlive : b ∈ acc.live → (R.readBlock s.world r b).2.isSome = true := by
    intro hb
    unfold keepsComplete at hC
    simp only [hc, liveAt_eq hacc] at hC
    rcases Bool.or_eq_true_iff.mp hC with hnot | hsome
    · exact absurd hb (of_decide_eq_true hnot)
    · exact hsome
  have hcases := (h.creating _ acc hc hacc).resolve_left (by simp)
  obtain ⟨hnone, rfl⟩ | ⟨view, size', hview, rfl⟩ := hread
  · refine ⟨fun c acc' hc' hacc' => ?_, h.finished, h.ready, h.restores⟩
    obtain rfl := Option.some.inj hc'
    obtain rfl := Option.some.inj (hacc.symm.trans hacc')
    refine Or.inr fun b' hb' => ?_
    rcases hcases b' hb' with hmem | hmem
    · exact Or.inl hmem
    · rcases List.mem_cons.mp hmem with rfl | hmem
      · have hsome := hlive hb'
        rw [hnone] at hsome
        cases hsome
      · exact Or.inr hmem
  · have hkept : AccountsKept s.accounts (s.accounts.modify sid fun acc =>
        { acc with reads := acc.reads ++ [view.captured b] }) := by
      intro sid' acc' hacc' hfin
      rw [Dict.get?_modify, hacc', Option.map_some, if_neg]
      rintro rfl
      obtain rfl := Option.some.inj (hacc.symm.trans hacc')
      exact absurd (hcreating.unfinished.symm.trans hfin) (by decide)
    refine ⟨fun c acc' hc' hacc' => ?_, fun sid' acc' hacc' hfin => ?_,
      fun sid' row hrow hstatus => ?_, fun r hr => (h.restores r hr).mono hkept fun _ => id⟩
    · obtain rfl := Option.some.inj hc'
      rw [Dict.get?_modify, hacc, Option.map_some, if_pos rfl] at hacc'
      obtain rfl := Option.some.inj hacc'
      refine Or.inr fun b' hb' => ?_
      rw [List.map_append]
      rcases hcases b' hb' with hmem | hmem
      · exact Or.inl (List.mem_append_left _ hmem)
      · rcases List.mem_cons.mp hmem with rfl | hmem
        · exact Or.inl (List.mem_append_right _ List.mem_cons_self)
        · exact Or.inr hmem
    · rw [Dict.get?_modify] at hacc'
      obtain ⟨acc₀, hacc₀, rfl⟩ := Option.map_eq_some_iff.mp hacc'
      by_cases hsid : sid' = sid
      · rw [if_pos hsid] at hfin
        rw [hsid, hacc] at hacc₀
        obtain rfl := Option.some.inj hacc₀
        exact absurd (hcreating.unfinished.symm.trans hfin) (by decide)
      · rw [if_neg hsid] at hfin ⊢
        exact h.finished sid' acc₀ hacc₀ hfin
    · obtain ⟨acc', hacc', hfin⟩ := h.ready sid' row hrow hstatus
      exact ⟨acc', hkept sid' acc' hacc' hfin, hfin⟩

/-- The status after the records of all snapshots but those marked are kept. -/
theorem ready_of_finalizeSnapshot_failed {store : SnapshotStore} {sid sid' error : String}
    {row : SnapshotRecord}
    (hrow : (store.finalizeSnapshot sid 0 0 .failed (some error)).getSnapshot sid' = some row)
    (hstatus : row.status = .ready) : store.getSnapshot sid' = some row := by
  unfold getSnapshot finalizeSnapshot at hrow
  rw [Dict.get?_modify] at hrow
  obtain ⟨row', hrow', rfl⟩ := Option.map_eq_some_iff.mp hrow
  split at hstatus
  · cases hstatus
  · rename_i hne
    rw [if_neg hne]
    exact hrow'

theorem Covers.abandon {sid error : String} (h : Covers s) : Covers (s.abandon sid error) := by
  refine h.of_sameBlocks (sameBlocks_finalizeSnapshot _ _ _ _ _ _) (fun sid' row hrow hstatus => ?_)
    (Or.inr rfl) rfl fun r hr => Or.inl hr
  exact Or.inl ⟨row, ready_of_finalizeSnapshot_failed hrow hstatus, hstatus⟩

theorem Covers.share {newId : String} (hinv : Invariant s) (h : Covers s)
    (hstep : s.share newId = some s') : Covers s' := by
  obtain ⟨sid, count, size, block, unread, hc, ⟨error, rfl⟩ | ⟨store, w, hshare, rfl⟩⟩ :=
    share_eq_some hstep
  · exact h.abandon
  have hcounted := hinv.counted
  unfold held at hcounted
  rw [hc] at hcounted
  obtain ⟨-, hsnaps, -, -, -⟩ := getOrCreateBlockVersion_ok hcounted hshare
  have hsame : ∀ sid, store.getSnapshot sid = s.store.getSnapshot sid := fun sid => by
    unfold getSnapshot
    rw [hsnaps]
  refine ⟨fun c acc hc' hacc => ?_, h.finished, fun sid' row hrow hstatus => ?_, fun r hr => ?_⟩
  · obtain rfl := Option.some.inj hc'
    exact Or.inr ((h.creating _ acc hc hacc).resolve_left (by simp))
  · exact h.ready sid' row ((hsame sid').symm.trans hrow) hstatus
  · exact (h.restores r hr).mono (fun _ _ hacc _ => hacc) fun _ hp => (hsame _).symm ▸ hp

theorem Covers.add (h : Covers s) (hstep : s.add = some s') : Covers s' := by
  obtain ⟨sid, count, size, b, w, unread, hc, rfl⟩ := add_eq_some hstep
  refine ⟨fun c acc hc' hacc => ?_, h.finished, h.ready, h.restores⟩
  obtain rfl := Option.some.inj hc'
  exact Or.inr ((h.creating _ acc hc hacc).resolve_left (by simp))

/-- When nothing is left to be read, all live blocks have been. -/
theorem Covers.finish (hinv : Invariant s) (h : Covers s) (hstep : s.finish = some s') :
    Covers s' := by
  obtain ⟨sid, count, size, hc, rfl⟩ := finish_eq_some hstep
  obtain ⟨acc₀, hacc₀, -⟩ := hinv.creating _ hc
  have hget : ∀ sid', (s.accounts.modify sid fun acc => { acc with finished := true }).get? sid' =
      (s.accounts.get? sid').map fun acc => if sid' = sid then { acc with finished := true } else acc :=
    fun sid' => Dict.get?_modify _ _ _ _
  have hkept : AccountsKept s.accounts
      (s.accounts.modify sid fun acc => { acc with finished := true }) := by
    intro sid' acc hacc hfin
    rw [hget, hacc, Option.map_some]
    split
    · rw [← hfin]
    · rfl
  refine ⟨fun c acc hc' => (by cases hc'), fun sid' acc' hacc' hfin => ?_,
    fun sid' row hrow hstatus => ?_, fun r hr => (h.restores r hr).mono hkept fun _ hp => ?_⟩
  · rw [hget] at hacc'
    obtain ⟨acc, hacc, rfl⟩ := Option.map_eq_some_iff.mp hacc'
    by_cases hsid : sid' = sid
    · obtain rfl := hsid
      rw [if_pos rfl]
      intro b hb
      rcases (h.creating _ acc hc hacc).resolve_left (by simp) b hb with hmem | hmem
      · exact hmem
      · exact absurd hmem List.not_mem_nil
    · rw [if_neg hsid] at hfin ⊢
      exact h.finished sid' acc hacc hfin
  · by_cases hsid : sid' = sid
    · refine ⟨{ acc₀ with finished := true }, ?_, rfl⟩
      rw [hget, hsid, hacc₀, Option.map_some, if_pos rfl]
    · unfold getSnapshot finalizeSnapshot at hrow
      rw [Dict.get?_modify] at hrow
      obtain ⟨row', hrow', rfl⟩ := Option.map_eq_some_iff.mp hrow
      rw [if_neg hsid] at hstatus
      obtain ⟨acc, hacc, hfin⟩ := h.ready sid' row' hrow' hstatus
      exact ⟨acc, hkept sid' acc hacc hfin, hfin⟩
  · rwa [(sameBlocks_finalizeSnapshot _ _ _ _ _ _).present]

/-- A restore that is about to read its snapshot still finds it. -/
theorem Covers.delete {sid : String} (hinv : Invariant s) (h : Covers s)
    (hC : keepsComplete R s (.delete sid : ProtectionEvent ρ χ) = true)
    (hstep : s.delete sid = some s') : Covers s' := by
  obtain ⟨hnone, rfl | ⟨store, size, hdel, rfl⟩⟩ := delete_eq_some hstep
  · exact h
  obtain ⟨-, hsnaps, -⟩ := hinv.counted.deleteSnapshot hdel
  have hget : ∀ sid', store.getSnapshot sid' = if sid' = sid then none else s.store.getSnapshot sid' :=
    fun sid' => by
      unfold getSnapshot
      rw [hsnaps, Dict.get?_erase]
  refine ⟨h.creating, h.finished, fun sid' row hrow hstatus => ?_, fun r hr => ?_⟩
  · rw [hget] at hrow
    split at hrow
    · cases hrow
    · exact h.ready sid' row hrow hstatus
  · refine (h.restores r hr).mono (fun _ _ hacc _ => hacc) fun hphase hpresent => ?_
    rw [hget, if_neg]
    · exact hpresent
    · intro heq
      rcases Bool.or_eq_true_iff.mp (List.all_eq_true.mp hC r hr) with hne | hne
      · exact of_decide_eq_true hne heq
      · obtain ⟨hagreed, hmarked⟩ := Bool.and_eq_true_iff.mp hne
        rcases hphase with hphase | hphase
        · exact of_decide_eq_true hagreed hphase
        · exact of_decide_eq_true hmarked hphase

theorem ready_of_recoverInterruptedSnapshots {store : SnapshotStore} {sid : String}
    {row : SnapshotRecord} (hrow : store.recoverInterruptedSnapshots.getSnapshot sid = some row)
    (hstatus : row.status = .ready) : store.getSnapshot sid = some row := by
  unfold getSnapshot recoverInterruptedSnapshots at hrow
  rw [Dict.get?_mapVals] at hrow
  obtain ⟨row', hrow', rfl⟩ := Option.map_eq_some_iff.mp hrow
  split at hstatus
  · cases hstatus
  · rename_i hnot
    rw [if_neg hnot]
    exact hrow'

/-- Marking a snapshot makes no other one `READY`. -/
theorem ready_of_updateStatus {store : SnapshotStore} {sid sid' : String} {status : SnapshotStatus}
    {row : SnapshotRecord} (hrow : (store.updateStatus sid status).getSnapshot sid' = some row)
    (hstatus : row.status = .ready) :
    store.getSnapshot sid' = some row ∨ sid' = sid ∧ status = .ready := by
  unfold getSnapshot updateStatus at hrow
  rw [Dict.get?_modify] at hrow
  obtain ⟨row', hrow', rfl⟩ := Option.map_eq_some_iff.mp hrow
  by_cases hsid : sid' = sid
  · rw [if_pos hsid] at hstatus
    exact Or.inr ⟨hsid, hstatus⟩
  · rw [if_neg hsid]
    exact Or.inl hrow'

/-! ### Restores -/

theorem Covers.restore (sid : String) (h : Covers s)
    (hC : keepsComplete R s (.restore sid : ProtectionEvent ρ χ) = true) :
    Covers (s.restore sid) := by
  rcases s.restore_cases sid with heq | ⟨snapshot, hsnap, hstatus, heq⟩
  · rwa [heq]
  rw [heq]
  refine h.of_sameBlocks (.refl _) (fun sid row hrow hready => Or.inl ⟨row, hrow, hready⟩)
    (Or.inl rfl) rfl fun r hr => ?_
  rcases List.mem_append.mp hr with hr | hr
  · exact Or.inl hr
  obtain rfl := List.mem_singleton.mp hr
  have hfin : ∃ acc, s.accounts.get? sid = some acc ∧ acc.finished = true := by
    rcases List.mem_cons.mp hstatus with hready | hfailed
    · exact h.ready sid snapshot hsnap hready
    · unfold keepsComplete at hC
      simp only [hsnap, List.mem_singleton.mp hfailed] at hC
      exact finishedAt_eq_true (by simpa using hC)
  obtain ⟨acc, hacc, hfin⟩ := hfin
  exact Or.inr ⟨acc, hacc, hfin, liveAt_eq hacc, by rw [hsnap]; rfl⟩

/-- A restore moves on. -/
theorem Covers.set {r r' : Restore} {i : ℕ} {store : SnapshotStore} (h : Covers s)
    (hi : s.restores[i]? = some r) (hstore : SameBlocks s.store store)
    (hready : ∀ sid row, store.getSnapshot sid = some row → row.status = .ready →
      s.store.getSnapshot sid = some row)
    (hr' : RestoreCovers s.store s.accounts r → RestoreCovers store s.accounts r') :
    Covers { s with store := store, restores := s.restores.set i r' } := by
  refine h.of_sameBlocks hstore (fun sid row hrow hstatus => ?_) (Or.inl rfl) rfl fun r'' hmem => ?_
  · exact Or.inl ⟨row, hready sid row hrow hstatus, hstatus⟩
  · rcases List.mem_or_eq_of_mem_set hmem with hmem | rfl
    · exact Or.inl hmem
    · exact Or.inr (hr' (h.restores r (List.mem_of_getElem? hi)))

theorem Covers.mark {i : ℕ} (h : Covers s) (hstep : s.mark i = some s') : Covers s' := by
  obtain ⟨sid, live, hi, rfl⟩ := mark_eq_some hstep
  refine h.set hi (sameBlocks_updateStatus _ _ _) (fun sid' row hrow hstatus => ?_) ?_
  · rcases ready_of_updateStatus hrow hstatus with hsame | ⟨-, hne⟩
    · exact hsame
    · cases hne
  · rintro ⟨acc, hacc, hfin, hlive, hpresent⟩
    refine ⟨acc, hacc, hfin, hlive, ?_⟩
    exact ((sameBlocks_updateStatus s.store sid .restoring).present sid).trans hpresent

theorem Covers.load {i : ℕ} (hinv : Invariant s) (h : Covers s) (hstep : s.load i = some s') :
    Covers s' := by
  obtain ⟨sid, live, hi, rfl⟩ := load_eq_some hstep
  refine h.set hi (.refl _) (fun _ _ hrow _ => hrow) ?_
  rintro ⟨acc, hacc, hfin, hlive, hpresent⟩
  refine ⟨acc, hacc, hfin, hlive, fun b hb => ?_⟩
  rw [show live = acc.live from hlive] at hb
  obtain ⟨block, hblock, rfl⟩ := h.hasEntries hinv hacc hfin hpresent b hb
  exact List.mem_map_of_mem hblock

/-- What a restore deletes has no entry, so it was not live. -/
theorem Covers.sweep {i : ℕ} (h : Covers s) (hstep : s.sweep R i = some s') : Covers s' := by
  obtain ⟨sid, live, blocks, hi, rfl⟩ := sweep_eq_some hstep
  refine h.set hi (.refl _) (fun _ _ hrow _ => hrow) ?_
  rintro ⟨acc, hacc, hfin, hlive, hblocks⟩
  refine ⟨acc, hacc, hfin, hlive, fun b hb hlive' => ?_⟩
  exact of_decide_eq_true (List.mem_filter.mp hb).2 (hblocks b hlive')

theorem Covers.endRestore {i : ℕ} (h : Covers s) (hstep : s.endRestore i = some s') : Covers s' := by
  obtain ⟨r, hr, rfl⟩ := endRestore_eq_some hstep
  refine h.of_sameBlocks (sameBlocks_updateStatus _ _ _) (fun sid row hrow hstatus => ?_)
    (Or.inl rfl) rfl fun r' hr' => Or.inl ((List.eraseIdx_sublist _ _).subset hr')
  rcases ready_of_updateStatus hrow hstatus with hsame | ⟨rfl, -⟩
  · exact Or.inl ⟨row, hsame, hstatus⟩
  · obtain ⟨acc, hacc, hfin, -⟩ := h.restores r (List.mem_of_getElem? hr)
    exact Or.inr ⟨acc, hacc, hfin⟩

/-- Every step that meets the condition keeps the invariant. -/
theorem Covers.step {ev : ProtectionEvent ρ χ} (hinv : Invariant s) (h : Covers s)
    (hC : keepsComplete R s ev = true) (hstep : Protection.step R s ev = some s') : Covers s' := by
  have hsame : ∀ sid row, s.store.getSnapshot sid = some row → row.status = .ready →
      (∃ row, s.store.getSnapshot sid = some row ∧ row.status = .ready) ∨
        ∃ acc, s.accounts.get? sid = some acc ∧ acc.finished = true :=
    fun _ row hrow hstatus => Or.inl ⟨row, hrow, hstatus⟩
  cases ev with
  | change c =>
      obtain rfl := Option.some.inj hstep
      exact h.of_sameBlocks (.refl _) hsame (Or.inl rfl) rfl fun _ => Or.inl
  | create sid now version placements => exact h.create hstep
  | list => exact h.list hC hstep
  | read r => exact h.read hinv hC hstep
  | share newId => exact h.share hinv hstep
  | add => exact h.add hstep
  | finish => exact h.finish hinv hstep
  | raise error recorded =>
      obtain ⟨c, -, rfl⟩ := Option.map_eq_some_iff.mp hstep
      split
      · exact h.abandon
      · exact h.of_sameBlocks (.refl _) hsame (Or.inr rfl) rfl fun _ => Or.inl
  | delete sid => exact h.delete hinv hC hstep
  | reclaim =>
      obtain rfl := Option.some.inj hstep
      exact ⟨h.creating, h.finished, h.ready, h.restores⟩
  | recover =>
      obtain rfl := Option.some.inj hstep
      refine h.of_sameBlocks (sameBlocks_recoverInterruptedSnapshots _)
        (fun sid row hrow hstatus => ?_) (Or.inl rfl) rfl fun _ => Or.inl
      exact Or.inl ⟨row, ready_of_recoverInterruptedSnapshots hrow hstatus, hstatus⟩
  | crash =>
      obtain rfl := Option.some.inj hstep
      exact h.of_sameBlocks (.refl _) hsame (Or.inr rfl) rfl fun r hr => absurd hr List.not_mem_nil
  | restore sid =>
      obtain rfl := Option.some.inj hstep
      exact h.restore sid hC
  | mark i => exact h.mark hstep
  | load i => exact h.load hinv hstep
  | sweep i => exact h.sweep hstep
  | endRestore i => exact h.endRestore hstep

/-! ## Snapshots of a cluster -/

/-- **In every run in which reads do not miss live blocks and restores take finished snapshots that
stay until they are read, what is `READY` or restored has an entry for every block that was live at
its creation, and no restore deletes one of these.** -/
theorem snapshots_complete {c : Cluster} (evs : List (ProtectionEvent (List String) Cluster))
    {s : Protection Cluster}
    (h : runWhile (step Cluster.bridge) (keepsComplete Cluster.bridge) (init c) evs = some s) :
    s.Complete := by
  have hinv : Invariant s ∧ Covers s := by
    apply runWhile_induction (I := fun s => Invariant s ∧ Covers s) _ _ h
    · exact fun s ev s' hs hC hstep => ⟨hs.1.step hstep, hs.2.step hs.1 hC hstep⟩
    · exact ⟨Invariant.init c, Covers.init c⟩
  exact hinv.2.complete hinv.1

/-- A cluster whose one node holds its one block. -/
def oneNode : Cluster where
  membership := .register .empty "node1" "127.0.0.1:8001" 1000
  placement := { Metadata.Placement.empty with
    registry := .registerBlock .empty "b1" 1 ["node1"] }
  nodes _ := (LocalEngine.empty "node1").call (.writeLocal "b1" "data" (.resolve (some 1)) none none)
  urls := .plain

/-- A snapshot of the cluster, retained when another creation breaks off, and restored. -/
def snapshotAndRestore : List (ProtectionEvent (List String) Cluster) :=
  [.create "s1" 1000 1 Dict.empty, .list, .read [], .share "v1", .add, .finish,
    .create "s2" 2000 1 Dict.empty, .list, .crash, .recover,
    .restore "s1", .mark 0, .load 0, .sweep 0, .endRestore 0]

/-- A snapshot while the node does not answer. -/
def silentSnapshot : List (ProtectionEvent (List String) Cluster) :=
  [.create "s1" 1000 1 Dict.empty, .list, .read ["node1"], .finish]

/-- The status of the first snapshot, and its blocks. -/
def firstSnapshot (s : Protection Cluster) : Option SnapshotStatus × List SnapshotBlock :=
  ((s.store.getSnapshot "s1").map SnapshotRecord.status, s.store.getSnapshotBlocks "s1")

theorem snapshots_complete_snapshotAndRestore : ∃ s,
    runWhile (step Cluster.bridge) (keepsComplete Cluster.bridge) (init oneNode)
      snapshotAndRestore = some s ∧
    s.firstSnapshot = (some .ready, [⟨"b1", 1, some "data", false⟩]) ∧ s.Complete := by
  have hrun : (runWhile (step Cluster.bridge) (keepsComplete Cluster.bridge) (init oneNode)
      snapshotAndRestore).map firstSnapshot =
      some (some .ready, [⟨"b1", 1, some "data", false⟩]) := by decide +kernel
  obtain ⟨s, hs, hfirst⟩ := Option.map_eq_some_iff.mp hrun
  exact ⟨s, hs, hfirst, snapshots_complete snapshotAndRestore hs⟩

/-- The block is skipped, and the snapshot is `READY`. -/
theorem snapshots_complete_counterexample : ¬ ∀ (c : Cluster)
    (evs : List (ProtectionEvent (List String) Cluster)) (s : Protection Cluster),
    run (step Cluster.bridge) (init c) evs = some s → s.Complete := by
  intro h
  have hrun : (run (step Cluster.bridge) (init oneNode) silentSnapshot).map
      (fun s => (s.firstSnapshot, s.liveAt "s1")) = some ((some .ready, []), ["b1"]) := by
    decide +kernel
  obtain ⟨s, hs, hfirst⟩ := Option.map_eq_some_iff.mp hrun
  obtain ⟨hfirst, hlive⟩ := Prod.mk.inj hfirst
  obtain ⟨hstatus, hblocks⟩ := Prod.mk.inj hfirst
  obtain ⟨row, hrow, hready⟩ := Option.map_eq_some_iff.mp hstatus
  obtain ⟨acc, hacc, hentries⟩ := (h oneNode silentSnapshot s hs).ready "s1" row hrow hready
  obtain ⟨block, hblock, -⟩ := hentries "b1" (liveAt_eq hacc ▸ hlive ▸ List.mem_cons_self)
  rw [hblocks] at hblock
  exact absurd hblock List.not_mem_nil

end Protection

end NanoFabric.Storage
