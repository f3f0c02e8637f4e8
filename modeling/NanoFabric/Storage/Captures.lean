import NanoFabric.Storage.SnapshotManager

/-!
# What is captured is in the store

The invariant that every run keeps, whatever the reads return and wherever the process dies.

* `SnapshotStore.SameBlocks` — the operations on the records of snapshots leave their blocks alone.
* `Protection.Creating` — a creation has an entry, or is about to add one, for every block read.
* `Protection.Invariant.step` — the counts cover the references, and a finished snapshot keeps an
  entry for every block read for it.
-/

namespace NanoFabric.Storage

open NanoFabric.Found

/-! ## The records of snapshots -/

namespace SnapshotStore

variable {s s' s'' : SnapshotStore} {held : List String}

/-- The same snapshots, with the same blocks. -/
structure SameBlocks (s s' : SnapshotStore) : Prop where
  blockVersions : s'.blockVersions = s.blockVersions
  snapshotBlocks : s'.snapshotBlocks = s.snapshotBlocks
  present : ∀ sid, (s'.getSnapshot sid).isSome = (s.getSnapshot sid).isSome

theorem SameBlocks.refl (s : SnapshotStore) : SameBlocks s s := ⟨rfl, rfl, fun _ => rfl⟩

theorem SameBlocks.entry (h : SameBlocks s s') (sid b : String) : s'.entry sid b = s.entry sid b := by
  unfold SnapshotStore.entry
  rw [h.blockVersions, h.snapshotBlocks]

theorem SameBlocks.counted (h : SameBlocks s s') (hc : Counted s held) : Counted s' held := by
  unfold Counted
  rw [h.blockVersions, h.snapshotBlocks]
  exact hc

theorem sameBlocks_updateStatus (s : SnapshotStore) (sid : String) (status : SnapshotStatus) :
    SameBlocks s (s.updateStatus sid status) := by
  refine ⟨rfl, rfl, fun sid' => ?_⟩
  unfold getSnapshot updateStatus
  rw [Dict.get?_modify, Option.isSome_map]

theorem sameBlocks_finalizeSnapshot (s : SnapshotStore) (sid : String) (count size : ℕ)
    (status : SnapshotStatus) (error : Option String) :
    SameBlocks s (s.finalizeSnapshot sid count size status error) := by
  refine ⟨rfl, rfl, fun sid' => ?_⟩
  unfold getSnapshot finalizeSnapshot
  rw [Dict.get?_modify, Option.isSome_map]

theorem sameBlocks_recoverInterruptedSnapshots (s : SnapshotStore) :
    SameBlocks s s.recoverInterruptedSnapshots := by
  refine ⟨rfl, rfl, fun sid' => ?_⟩
  unfold getSnapshot recoverInterruptedSnapshots
  rw [Dict.get?_mapVals, Option.isSome_map]

/-- A new record has no blocks yet. -/
theorem createSnapshotRecord_ok {sid : String} {now version : ℤ}
    {placements : Dict String (List String)}
    (hok : s.createSnapshotRecord sid now version placements = .ok s') :
    s'.blockVersions = s.blockVersions ∧ s'.snapshotBlocks = s.snapshotBlocks ∧
      ∀ sid', s'.getSnapshot sid' =
        if sid' = sid then some ⟨now, 0, version, .creating, 0, placements, none⟩
        else s.getSnapshot sid' := by
  unfold createSnapshotRecord at hok
  split_ifs at hok
  obtain rfl := Except.ok.inj hok
  refine ⟨rfl, rfl, fun sid' => ?_⟩
  unfold getSnapshot
  exact Dict.get?_set

end SnapshotStore

/-! ## Creations -/

namespace CreatePhase

/-- The blocks that are listed and not read yet. -/
def unread : CreatePhase → List String
  | started => []
  | capturing unread => unread
  | captured _ unread => unread
  | shared _ _ unread => unread

/-- The block that was read and has no entry yet. -/
def pendingId : CreatePhase → Option String
  | captured block _ => some block.blockId
  | shared blockId _ _ => some blockId
  | _ => none

/-- The version ids that are counted and not referred to yet. -/
def held : CreatePhase → List String
  | shared _ versionId _ => [versionId]
  | _ => []

end CreatePhase

namespace Protection

open SnapshotStore

variable {W ρ χ : Type} {R : Wiring W ρ χ} {s s' : Protection W}

/-- A creation that has an entry, or is about to add one, for every block read. -/
structure Creating (store : SnapshotStore) (c : Creation) (acc : Account) : Prop where
  unfinished : acc.finished = false
  present : (store.getSnapshot c.snapshotId).isSome
  nodup : c.phase.unread.Nodup
  unread : ∀ block ∈ acc.reads, block.blockId ∉ c.phase.unread
  started : c.phase = .started → acc.reads = []
  entries : ∀ block ∈ acc.reads, (∃ e, store.entry c.snapshotId block.blockId = some e) ∨
    c.phase.pendingId = some block.blockId

/-- What a creation under way holds. -/
def held (s : Protection W) : List String :=
  match s.creation with
  | some c => c.phase.held
  | none => []

/-- The invariant of all runs. -/
structure Invariant (s : Protection W) : Prop where
  counted : s.store.Counted s.held
  /-- An id that no creation has drawn has no entries. -/
  fresh : ∀ sid, s.accounts.get? sid = none → ∀ b, s.store.entry sid b = none
  creating : ∀ c, s.creation = some c →
    ∃ acc, s.accounts.get? c.snapshotId = some acc ∧ Creating s.store c acc
  finished : ∀ sid acc, s.accounts.get? sid = some acc → acc.finished = true →
    (s.store.getSnapshot sid).isSome → ∀ block ∈ acc.reads,
      ∃ e, s.store.entry sid block.blockId = some e
  nodup : ∀ sid acc, s.accounts.get? sid = some acc → (acc.reads.map SnapshotBlock.blockId).Nodup
  live : ∀ sid acc, s.accounts.get? sid = some acc → ∀ block ∈ acc.reads, block.deleted = false

theorem Invariant.init (w : W) : Invariant (Protection.init w) where
  counted := counted_empty
  fresh _ _ _ := rfl
  creating _ h := by cases h
  finished _ _ h := by cases h
  nodup _ _ h := by cases h
  live _ _ h := by cases h

/-- A creation as a store with the same entries sees it. -/
theorem Creating.of_store {store store' : SnapshotStore} {c : Creation} {acc : Account}
    (h : Creating store c acc) (hentry : ∀ b, store'.entry c.snapshotId b = store.entry c.snapshotId b)
    (hpresent : (store'.getSnapshot c.snapshotId).isSome = (store.getSnapshot c.snapshotId).isSome) :
    Creating store' c acc where
  unfinished := h.unfinished
  present := hpresent ▸ h.present
  nodup := h.nodup
  unread := h.unread
  started := h.started
  entries block hblock := by
    rw [hentry]
    exact h.entries block hblock

/-- Steps that touch the records of snapshots, the blocks and the restores only. -/
theorem Invariant.of_sameBlocks (h : Invariant s) (hstore : SameBlocks s.store s'.store)
    (hcreation : s'.creation = s.creation) (haccounts : s'.accounts = s.accounts) :
    Invariant s' where
  counted := by
    unfold held
    rw [hcreation]
    exact hstore.counted h.counted
  fresh sid hsid b := by
    rw [hstore.entry]
    exact h.fresh sid (haccounts ▸ hsid) b
  creating c hc := by
    obtain ⟨acc, hacc, hcreating⟩ := h.creating c (hcreation ▸ hc)
    refine ⟨acc, haccounts ▸ hacc, hcreating.of_store (fun b => hstore.entry _ b) ?_⟩
    exact hstore.present _
  finished sid acc hacc hfin hpresent block hblock := by
    rw [hstore.entry]
    rw [hstore.present] at hpresent
    exact h.finished sid acc (haccounts ▸ hacc) hfin hpresent block hblock
  nodup sid acc hacc := h.nodup sid acc (haccounts ▸ hacc)
  live sid acc hacc := h.live sid acc (haccounts ▸ hacc)

/-- Steps that end a creation without a snapshot. -/
theorem Invariant.of_abandoned (h : Invariant s) (hstore : SameBlocks s.store s'.store)
    (hcreation : s'.creation = none) (haccounts : s'.accounts = s.accounts) : Invariant s' where
  counted := by
    unfold held
    rw [hcreation]
    exact RefCounted.release (hstore.counted h.counted) (List.nil_sublist _)
  fresh sid hsid b := by
    rw [hstore.entry]
    exact h.fresh sid (haccounts ▸ hsid) b
  creating c hc := by
    rw [hcreation] at hc
    cases hc
  finished sid acc hacc hfin hpresent block hblock := by
    rw [hstore.entry]
    rw [hstore.present] at hpresent
    exact h.finished sid acc (haccounts ▸ hacc) hfin hpresent block hblock
  nodup sid acc hacc := h.nodup sid acc (haccounts ▸ hacc)
  live sid acc hacc := h.live sid acc (haccounts ▸ hacc)

/-! ## What each step of a creation does -/

theorem create_eq_some {sid : String} {now version : ℤ} {placements : Dict String (List String)}
    (h : s.create R sid now version placements = some s') : s' = s ∨
      s.creation = none ∧ s.accounts.get? sid = none ∧ ∃ store,
        s.store.createSnapshotRecord sid now version placements = .ok store ∧
        s' = { s with
          store
          creation := some ⟨sid, 0, 0, .started⟩
          accounts := s.accounts.set sid ⟨R.live s.world, [], false⟩ } := by
  unfold create at h
  split_ifs at h with hnew
  split at h
  · exact Or.inl (Option.some.inj h).symm
  · rename_i store hstore
    exact Or.inr ⟨hnew.1, hnew.2, store, hstore, (Option.some.inj h).symm⟩

theorem list_eq_some (h : s.list R = some s') : ∃ sid count size,
    s.creation = some ⟨sid, count, size, .started⟩ ∧
    s' = { s with creation := some ⟨sid, (R.listBlocks s.world).length, size,
      .capturing (R.listBlocks s.world)⟩ } := by
  unfold list at h
  split at h
  · rename_i sid count size hc
    exact ⟨sid, count, size, hc, (Option.some.inj h).symm⟩
  · cases h

theorem read_eq_some {r : ρ} (h : s.read R r = some s') : ∃ sid count size b unread,
    s.creation = some ⟨sid, count, size, .capturing (b :: unread)⟩ ∧
    ((R.readBlock s.world r b).2 = none ∧ s' = { s with
        world := (R.readBlock s.world r b).1
        creation := some ⟨sid, count, size, .capturing unread⟩ } ∨
      ∃ view size', (R.readBlock s.world r b).2 = some view ∧ s' = { s with
        world := (R.readBlock s.world r b).1
        creation := some ⟨sid, count, size', .captured (view.captured b) unread⟩
        accounts := s.accounts.modify sid fun acc =>
          { acc with reads := acc.reads ++ [view.captured b] } }) := by
  unfold read at h
  split at h
  · rename_i sid count size b unread hc
    refine ⟨sid, count, size, b, unread, hc, ?_⟩
    split at h
    · rename_i world hread
      exact Or.inl ⟨by rw [hread], by rw [hread]; exact (Option.some.inj h).symm⟩
    · rename_i world view hread
      exact Or.inr ⟨view, _, by rw [hread], by rw [hread]; exact (Option.some.inj h).symm⟩
  · cases h

theorem share_eq_some {newId : String} (h : s.share newId = some s') :
    ∃ sid count size block unread,
      s.creation = some ⟨sid, count, size, .captured block unread⟩ ∧
      ((∃ error, s' = s.abandon sid error) ∨ ∃ store w,
        s.store.getOrCreateBlockVersion block.blockId block.version block.data block.deleted newId =
          .ok (store, w) ∧
        s' = { s with
          store, creation := some ⟨sid, count, size, .shared block.blockId w unread⟩ }) := by
  unfold share at h
  split at h
  · rename_i sid count size block unread hc
    refine ⟨sid, count, size, block, unread, hc, ?_⟩
    split at h
    · exact Or.inl ⟨_, (Option.some.inj h).symm⟩
    · rename_i store w hshare
      exact Or.inr ⟨store, w, hshare, (Option.some.inj h).symm⟩
  · cases h

theorem add_eq_some (h : s.add = some s') : ∃ sid count size b w unread,
    s.creation = some ⟨sid, count, size, .shared b w unread⟩ ∧
    s' = { s with
      store := s.store.addSnapshotBlock sid b w
      creation := some ⟨sid, count, size, .capturing unread⟩ } := by
  unfold add at h
  split at h
  · rename_i sid count size b w unread hc
    exact ⟨sid, count, size, b, w, unread, hc, (Option.some.inj h).symm⟩
  · cases h

theorem finish_eq_some (h : s.finish = some s') : ∃ sid count size,
    s.creation = some ⟨sid, count, size, .capturing []⟩ ∧
    s' = { s with
      store := s.store.finalizeSnapshot sid count size .ready none
      creation := none
      accounts := s.accounts.modify sid fun acc => { acc with finished := true } } := by
  unfold finish at h
  split at h
  · rename_i sid count size hc
    exact ⟨sid, count, size, hc, (Option.some.inj h).symm⟩
  · cases h

theorem delete_eq_some {sid : String} (h : s.delete sid = some s') : s.creation = none ∧
    (s' = s ∨ ∃ store size, s.store.deleteSnapshot sid = some (store, size) ∧
      s' = { s with store }) := by
  unfold delete at h
  split_ifs at h with hnone
  refine ⟨hnone, ?_⟩
  split at h
  · exact Or.inl (Option.some.inj h).symm
  · rename_i store size hdel
    exact Or.inr ⟨store, size, hdel, (Option.some.inj h).symm⟩

/-! ## What each step of a restore does -/

theorem restore_cases (s : Protection W) (sid : String) : s.restore sid = s ∨
    ∃ snapshot, s.store.getSnapshot sid = some snapshot ∧ snapshot.status ∈ [.ready, .failed] ∧
      s.restore sid = { s with restores := s.restores ++
        [⟨sid, ((s.accounts.get? sid).map Account.live).getD [], .agreed⟩] } := by
  unfold restore
  rcases hsnap : s.store.getSnapshot sid with _ | snapshot
  · exact Or.inl rfl
  · by_cases hstatus : snapshot.status ∈ [.ready, .failed]
    · exact Or.inr ⟨snapshot, rfl, hstatus, if_pos hstatus⟩
    · exact Or.inl (if_neg hstatus)

theorem mark_eq_some {i : ℕ} (h : s.mark i = some s') : ∃ sid live,
    s.restores[i]? = some ⟨sid, live, .agreed⟩ ∧
    s' = { s with
      store := s.store.updateStatus sid .restoring
      restores := s.restores.set i ⟨sid, live, .marked⟩ } := by
  unfold mark at h
  split at h
  · rename_i sid live hi
    exact ⟨sid, live, hi, (Option.some.inj h).symm⟩
  · cases h

theorem load_eq_some {i : ℕ} (h : s.load i = some s') : ∃ sid live,
    s.restores[i]? = some ⟨sid, live, .marked⟩ ∧
    s' = { s with
      restores := s.restores.set i ⟨sid, live, .loaded (s.store.getSnapshotBlocks sid)⟩ } := by
  unfold load at h
  split at h
  · rename_i sid live hi
    exact ⟨sid, live, hi, (Option.some.inj h).symm⟩
  · cases h

theorem sweep_eq_some {i : ℕ} (h : s.sweep R i = some s') : ∃ sid live blocks,
    s.restores[i]? = some ⟨sid, live, .loaded blocks⟩ ∧
    s' = { s with restores := s.restores.set i ⟨sid, live,
      .swept ((R.listBlocks s.world).filter (· ∉ blocks.map SnapshotBlock.blockId))⟩ } := by
  unfold sweep at h
  split at h
  · rename_i sid live blocks hi
    exact ⟨sid, live, blocks, hi, (Option.some.inj h).symm⟩
  · cases h

theorem endRestore_eq_some {i : ℕ} (h : s.endRestore i = some s') : ∃ r,
    s.restores[i]? = some r ∧ s' = { s with
      store := s.store.updateStatus r.snapshotId .ready
      restores := s.restores.eraseIdx i } := by
  obtain ⟨r, hr, rfl⟩ := Option.map_eq_some_iff.mp h
  exact ⟨r, hr, rfl⟩

/-! ## The invariant -/

theorem Invariant.create {sid : String} {now version : ℤ} {placements : Dict String (List String)}
    (h : Invariant s) (hstep : s.create R sid now version placements = some s') : Invariant s' := by
  obtain rfl | ⟨hnone, hfresh, store, hstore, rfl⟩ := create_eq_some hstep
  · exact h
  obtain ⟨hversions, hblocks, hget⟩ := createSnapshotRecord_ok hstore
  have hentry : ∀ sid b, store.entry sid b = s.store.entry sid b := fun sid b => by
    unfold SnapshotStore.entry
    rw [hversions, hblocks]
  have hcounted : s.store.Counted [] := by
    have hc := h.counted
    unfold held at hc
    rwa [hnone] at hc
  refine ⟨?_, fun sid' hsid' b => ?_, fun c hc => ?_, fun sid' acc hacc hfin hpresent => ?_,
    fun sid' acc hacc => ?_, fun sid' acc hacc => ?_⟩
  · unfold SnapshotStore.Counted
    rw [hversions, hblocks]
    exact hcounted
  · simp only [Dict.get?_set] at hsid'
    split at hsid'
    · cases hsid'
    · exact (hentry sid' b).trans (h.fresh sid' hsid' b)
  · obtain rfl := Option.some.inj hc
    refine ⟨_, Dict.get?_set_self, rfl, ?_, List.nodup_nil, ?_, fun _ => rfl, ?_⟩
    · exact (congrArg Option.isSome (hget sid)).trans (by rw [if_pos rfl]; rfl)
    · exact fun block hblock => absurd hblock List.not_mem_nil
    · exact fun block hblock => absurd hblock List.not_mem_nil
  · simp only [Dict.get?_set] at hacc
    split at hacc
    · obtain rfl := Option.some.inj hacc
      cases hfin
    · rename_i hne
      rw [hget, if_neg hne] at hpresent
      intro block hblock
      exact (hentry sid' _).symm ▸ h.finished sid' acc hacc hfin hpresent block hblock
  · simp only [Dict.get?_set] at hacc
    split at hacc
    · obtain rfl := Option.some.inj hacc
      exact List.nodup_nil
    · exact h.nodup sid' acc hacc
  · simp only [Dict.get?_set] at hacc
    split at hacc
    · obtain rfl := Option.some.inj hacc
      exact fun block hblock => absurd hblock List.not_mem_nil
    · exact h.live sid' acc hacc

theorem Invariant.list (h : Invariant s) (hstep : s.list R = some s') : Invariant s' := by
  obtain ⟨sid, count, size, hc, rfl⟩ := list_eq_some hstep
  obtain ⟨acc, hacc, hcreating⟩ := h.creating _ hc
  refine ⟨?_, h.fresh, fun c hc' => ?_, h.finished, h.nodup, h.live⟩
  · have hcounted := h.counted
    unfold held at hcounted
    rwa [hc] at hcounted
  · obtain rfl := Option.some.inj hc'
    have hnil := hcreating.started rfl
    refine ⟨acc, hacc, hcreating.unfinished, hcreating.present, R.nodup_listBlocks s.world, ?_,
      fun hstart => (by cases hstart), ?_⟩
    · rw [hnil]
      exact fun block hblock => absurd hblock List.not_mem_nil
    · rw [hnil]
      exact fun block hblock => absurd hblock List.not_mem_nil

/-- A block that is read moves from the unread ones to those read. -/
theorem Invariant.read {r : ρ} (h : Invariant s) (hstep : s.read R r = some s') : Invariant s' := by
  obtain ⟨sid, count, size, b, unread, hc, hread⟩ := read_eq_some hstep
  obtain ⟨acc, hacc, hcreating⟩ := h.creating _ hc
  obtain ⟨hnot, hunread⟩ := List.nodup_cons.mp hcreating.nodup
  have hcounted := h.counted
  unfold held at hcounted
  rw [hc] at hcounted
  obtain ⟨-, rfl⟩ | ⟨view, size', hview, rfl⟩ := hread
  · refine ⟨hcounted, h.fresh, fun c hc' => ?_, h.finished, h.nodup, h.live⟩
    obtain rfl := Option.some.inj hc'
    exact ⟨acc, hacc, hcreating.unfinished, hcreating.present, hunread,
      fun block hblock hmem => hcreating.unread block hblock (List.mem_cons_of_mem b hmem),
      fun hstart => (by cases hstart), hcreating.entries⟩
  · have hget : ∀ sid' acc', (s.accounts.modify sid fun acc =>
        { acc with reads := acc.reads ++ [view.captured b] }).get? sid' = some acc' →
        sid' = sid ∧ acc' = { acc with reads := acc.reads ++ [view.captured b] } ∨
          sid' ≠ sid ∧ s.accounts.get? sid' = some acc' := by
      intro sid' acc' hacc'
      rw [Dict.get?_modify] at hacc'
      by_cases hsid : sid' = sid
      · rw [hsid, hacc, Option.map_some, if_pos rfl] at hacc'
        exact Or.inl ⟨hsid, (Option.some.inj hacc').symm⟩
      · refine Or.inr ⟨hsid, ?_⟩
        obtain ⟨acc₀, hacc₀, rfl⟩ := Option.map_eq_some_iff.mp hacc'
        rw [if_neg hsid, hacc₀]
    refine ⟨hcounted, fun sid' hsid' b' => ?_, fun c hc' => ?_, fun sid' acc' hacc' => ?_,
      fun sid' acc' hacc' => ?_, fun sid' acc' hacc' => ?_⟩
    · rw [Dict.get?_modify, Option.map_eq_none_iff] at hsid'
      exact h.fresh sid' hsid' b'
    · obtain rfl := Option.some.inj hc'
      refine ⟨{ acc with reads := acc.reads ++ [view.captured b] }, ?_, hcreating.unfinished,
        hcreating.present, hunread, ?_, fun hstart => (by cases hstart), ?_⟩
      · rw [Dict.get?_modify, hacc, Option.map_some, if_pos rfl]
      · intro block hblock hmem
        rcases List.mem_append.mp hblock with hblock | hblock
        · exact hcreating.unread block hblock (List.mem_cons_of_mem b hmem)
        · rw [List.mem_singleton.mp hblock] at hmem
          exact hnot hmem
      · intro block hblock
        rcases List.mem_append.mp hblock with hblock | hblock
        · rcases hcreating.entries block hblock with hentry | hpending
          · exact Or.inl hentry
          · cases hpending
        · exact Or.inr (by rw [List.mem_singleton.mp hblock]; rfl)
    · obtain ⟨rfl, rfl⟩ | ⟨-, hacc'⟩ := hget sid' acc' hacc'
      · intro hfin
        exact absurd (hcreating.unfinished.symm.trans hfin) (by decide)
      · exact h.finished sid' acc' hacc'
    · obtain ⟨rfl, rfl⟩ | ⟨-, hacc'⟩ := hget sid' acc' hacc'
      · rw [List.map_append, List.nodup_append]
        refine ⟨h.nodup sid' acc hacc, List.nodup_singleton _, ?_⟩
        rintro x hx y hy rfl
        obtain ⟨block, hblock, rfl⟩ := List.mem_map.mp hx
        refine hcreating.unread block hblock ?_
        rw [List.mem_singleton.mp hy]
        exact List.mem_cons_self
      · exact h.nodup sid' acc' hacc'
    · obtain ⟨rfl, rfl⟩ | ⟨-, hacc'⟩ := hget sid' acc' hacc'
      · intro block hblock
        rcases List.mem_append.mp hblock with hblock | hblock
        · exact h.live sid' acc hacc block hblock
        · rw [List.mem_singleton.mp hblock]
          exact R.live_of_readBlock _ _ _ _ hview
      · exact h.live sid' acc' hacc'

theorem Invariant.abandon {sid error : String} (h : Invariant s) : Invariant (s.abandon sid error) :=
  h.of_abandoned (sameBlocks_finalizeSnapshot _ _ _ _ _ _) rfl rfl

theorem Invariant.share {newId : String} (h : Invariant s) (hstep : s.share newId = some s') :
    Invariant s' := by
  obtain ⟨sid, count, size, block, unread, hc, ⟨error, rfl⟩ | ⟨store, w, hshare, rfl⟩⟩ :=
    share_eq_some hstep
  · exact h.abandon
  obtain ⟨acc, hacc, hcreating⟩ := h.creating _ hc
  have hcounted := h.counted
  unfold held at hcounted
  rw [hc] at hcounted
  obtain ⟨hcounted', hsnaps, -, hentry, -⟩ := getOrCreateBlockVersion_ok hcounted hshare
  have hpresent : ∀ sid, store.getSnapshot sid = s.store.getSnapshot sid := fun sid => by
    unfold getSnapshot
    rw [hsnaps]
  refine ⟨hcounted', fun sid' hsid' b => ?_, fun c hc' => ?_, fun sid' acc' hacc' hfin hp => ?_,
    h.nodup, h.live⟩
  · exact (hentry sid' b).trans (h.fresh sid' hsid' b)
  · obtain rfl := Option.some.inj hc'
    exact ⟨acc, hacc, hcreating.unfinished, (hpresent sid).symm ▸ hcreating.present,
      hcreating.nodup, hcreating.unread, fun hstart => (by cases hstart),
      fun block' hblock' => (hentry sid _).symm ▸ hcreating.entries block' hblock'⟩
  · intro block' hblock'
    exact (hentry sid' _).symm ▸ h.finished sid' acc' hacc' hfin (hpresent sid' ▸ hp) block' hblock'

theorem Invariant.add (h : Invariant s) (hstep : s.add = some s') : Invariant s' := by
  obtain ⟨sid, count, size, b, w, unread, hc, rfl⟩ := add_eq_some hstep
  obtain ⟨acc, hacc, hcreating⟩ := h.creating _ hc
  have hcounted := h.counted
  unfold held at hcounted
  rw [hc] at hcounted
  obtain ⟨row, hrow⟩ := hcounted.holding w List.mem_cons_self
  have hentry : ∀ sid' b' e, s.store.entry sid' b' = some e →
      ∃ e', (s.store.addSnapshotBlock sid b w).entry sid' b' = some e' := by
    intro sid' b' e he
    rw [entry_addSnapshotBlock]
    split
    · exact ⟨_, by rw [hrow]; rfl⟩
    · exact ⟨e, he⟩
  refine ⟨hcounted.addSnapshotBlock, fun sid' hsid' b' => ?_, fun c hc' => ?_,
    fun sid' acc' hacc' hfin hpresent block hblock => ?_, h.nodup, h.live⟩
  · have hne : (sid', b') ≠ (sid, b) := by
      intro heq
      rw [Prod.mk.injEq] at heq
      rw [heq.1, hacc] at hsid'
      cases hsid'
    exact (entry_addSnapshotBlock w).trans ((if_neg hne).trans (h.fresh sid' hsid' b'))
  · obtain rfl := Option.some.inj hc'
    refine ⟨acc, hacc, hcreating.unfinished, hcreating.present, hcreating.nodup, hcreating.unread,
      fun hstart => (by cases hstart), fun block hblock => Or.inl ?_⟩
    rcases hcreating.entries block hblock with ⟨e, he⟩ | hpending
    · exact hentry _ _ e he
    · obtain rfl : b = block.blockId := Option.some.inj hpending
      exact ⟨_, by rw [entry_addSnapshotBlock, if_pos rfl, hrow]; rfl⟩
  · obtain ⟨e, he⟩ := h.finished sid' acc' hacc' hfin hpresent block hblock
    exact hentry _ _ e he

theorem Invariant.finish (h : Invariant s) (hstep : s.finish = some s') : Invariant s' := by
  obtain ⟨sid, count, size, hc, rfl⟩ := finish_eq_some hstep
  obtain ⟨acc, hacc, hcreating⟩ := h.creating _ hc
  have hstore := sameBlocks_finalizeSnapshot s.store sid count size .ready none
  have hcounted := h.counted
  unfold held at hcounted
  rw [hc] at hcounted
  have hget : ∀ sid' acc', (s.accounts.modify sid fun acc => { acc with finished := true }).get? sid' =
      some acc' → ∃ acc₀, s.accounts.get? sid' = some acc₀ ∧ acc'.reads = acc₀.reads ∧
        (acc'.finished = true → sid' = sid ∨ acc₀.finished = true) := by
    intro sid' acc' hacc'
    rw [Dict.get?_modify] at hacc'
    obtain ⟨acc₀, hacc₀, rfl⟩ := Option.map_eq_some_iff.mp hacc'
    refine ⟨acc₀, hacc₀, ?_⟩
    split
    · rename_i hsid
      exact ⟨rfl, fun _ => Or.inl hsid⟩
    · exact ⟨rfl, Or.inr⟩
  refine ⟨hstore.counted hcounted, fun sid' hsid' b => ?_, fun c hc' => (by cases hc'),
    fun sid' acc' hacc' hfin hpresent block hblock => ?_, fun sid' acc' hacc' => ?_,
    fun sid' acc' hacc' => ?_⟩
  · rw [Dict.get?_modify, Option.map_eq_none_iff] at hsid'
    exact (hstore.entry sid' b).trans (h.fresh sid' hsid' b)
  · obtain ⟨acc₀, hacc₀, hreads, hfin'⟩ := hget sid' acc' hacc'
    rw [hreads] at hblock
    rw [hstore.entry]
    rcases hfin' hfin with rfl | hfin₀
    · obtain rfl := Option.some.inj (hacc.symm.trans hacc₀)
      rcases hcreating.entries block hblock with hentry | hpending
      · exact hentry
      · cases hpending
    · rw [hstore.present] at hpresent
      exact h.finished sid' acc₀ hacc₀ hfin₀ hpresent block hblock
  · obtain ⟨acc₀, hacc₀, hreads, -⟩ := hget sid' acc' hacc'
    exact hreads ▸ h.nodup sid' acc₀ hacc₀
  · obtain ⟨acc₀, hacc₀, hreads, -⟩ := hget sid' acc' hacc'
    exact hreads ▸ h.live sid' acc₀ hacc₀

/-- A deletion leaves the entries of all other snapshots. -/
theorem Invariant.delete {sid : String} (h : Invariant s) (hstep : s.delete sid = some s') :
    Invariant s' := by
  obtain ⟨hnone, rfl | ⟨store, size, hdel, rfl⟩⟩ := delete_eq_some hstep
  · exact h
  obtain ⟨hcounted, hsnaps, hentry⟩ := h.counted.deleteSnapshot hdel
  refine ⟨hcounted, fun sid' hsid' b => ?_, fun c hc => ?_,
    fun sid' acc hacc hfin hpresent block hblock => ?_, h.nodup, h.live⟩
  · refine (hentry sid' b).trans ?_
    split
    · rfl
    · exact h.fresh sid' hsid' b
  · rw [hnone] at hc
    cases hc
  · unfold getSnapshot at hpresent
    rw [hsnaps, Dict.get?_erase] at hpresent
    split at hpresent
    · cases hpresent
    · rename_i hne
      rw [hentry, if_neg hne]
      exact h.finished sid' acc hacc hfin hpresent block hblock

theorem Invariant.reclaim (h : Invariant s) :
    Invariant { s with store := s.store.reclaimOrphanBlocks } := by
  obtain ⟨hcounted, hentry⟩ := h.counted.reclaimOrphanBlocks
  refine ⟨hcounted, fun sid' hsid' b => ?_, fun c hc => ?_,
    fun sid' acc hacc hfin hpresent block hblock => ?_, h.nodup, h.live⟩
  · exact (hentry sid' b).trans (h.fresh sid' hsid' b)
  · obtain ⟨acc, hacc, hcreating⟩ := h.creating c hc
    exact ⟨acc, hacc, hcreating.of_store (fun b => hentry _ b) rfl⟩
  · exact (hentry sid' _).symm ▸ h.finished sid' acc hacc hfin hpresent block hblock

/-- Every step keeps the invariant. -/
theorem Invariant.step {ev : ProtectionEvent ρ χ} (h : Invariant s)
    (hstep : Protection.step R s ev = some s') : Invariant s' := by
  cases ev with
  | change c =>
      obtain rfl := Option.some.inj hstep
      exact h.of_sameBlocks (.refl _) rfl rfl
  | create sid now version placements => exact h.create hstep
  | list => exact h.list hstep
  | read r => exact h.read hstep
  | share newId => exact h.share hstep
  | add => exact h.add hstep
  | finish => exact h.finish hstep
  | raise error recorded =>
      obtain ⟨c, -, rfl⟩ := Option.map_eq_some_iff.mp hstep
      split
      · exact h.abandon
      · exact h.of_abandoned (.refl _) rfl rfl
  | delete sid => exact h.delete hstep
  | reclaim =>
      obtain rfl := Option.some.inj hstep
      exact h.reclaim
  | recover =>
      obtain rfl := Option.some.inj hstep
      exact h.of_sameBlocks (sameBlocks_recoverInterruptedSnapshots _) rfl rfl
  | crash =>
      obtain rfl := Option.some.inj hstep
      exact h.of_abandoned (.refl _) rfl rfl
  | restore sid =>
      obtain rfl := Option.some.inj hstep
      rcases s.restore_cases sid with heq | ⟨snapshot, -, -, heq⟩
      · rwa [heq]
      · rw [heq]
        exact h.of_sameBlocks (.refl _) rfl rfl
  | mark i =>
      obtain ⟨sid, live, -, rfl⟩ := mark_eq_some hstep
      exact h.of_sameBlocks (sameBlocks_updateStatus _ _ _) rfl rfl
  | load i =>
      obtain ⟨sid, live, -, rfl⟩ := load_eq_some hstep
      exact h.of_sameBlocks (.refl _) rfl rfl
  | sweep i =>
      obtain ⟨sid, live, blocks, -, rfl⟩ := sweep_eq_some hstep
      exact h.of_sameBlocks (.refl _) rfl rfl
  | endRestore i =>
      obtain ⟨r, -, rfl⟩ := endRestore_eq_some hstep
      exact h.of_sameBlocks (sameBlocks_updateStatus _ _ _) rfl rfl

end Protection

end NanoFabric.Storage
