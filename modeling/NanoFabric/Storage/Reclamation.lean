import NanoFabric.Storage.RetentionManager

/-!
# What can be reclaimed

Once the store has recovered, every snapshot is deleted and the orphans are reclaimed, no contents
should be left, whatever became of the creations before. A reference is counted in one transaction and
added in the next; a creation that is interrupted between the two leaves a count that nothing ever
lowers.

* `Protection.Loses` — a step interrupts a creation that holds a reference.
* `Protection.Placed.step` — references belong to snapshots that are there, and a creation has none
  yet for the blocks to come.
* `Protection.excess_step` — only such a step brings about an excess, and no step takes it away.
* `Protection.reclaimable_iff` — everything can be reclaimed just when no step has lost a reference.
-/

namespace NanoFabric.Storage

open NanoFabric.Found

namespace Protection

open SnapshotStore

variable {W ρ χ : Type} {R : Wiring W ρ χ} {s s' : Protection W}

/-! ## Lost references -/

/-- A creation is cut short, by an exception or by the end of the process. -/
def Interrupts : ProtectionEvent ρ χ → Prop
  | .raise _ _ => True
  | .crash => True
  | _ => False

/-- A creation is cut short after it has counted a reference and before it has added it. -/
def Loses (s : Protection W) (ev : ProtectionEvent ρ χ) : Prop := s.held ≠ [] ∧ Interrupts ev

/-- How far the counts are above the references of the snapshots and of the creation under way. -/
def excess (s : Protection W) (versionId : String) : Option ℤ :=
  Found.excess BlockVersion.counter s.store.snapshotBlocks s.store.blockVersions s.held versionId

/-- Contents that are counted more often than they are referred to. -/
def Leaks (s : Protection W) : Prop := ∃ versionId z, 0 < z ∧ s.excess versionId = some z

/-- No contents are left. -/
def Reclaimed (s : Protection W) : Prop := ∀ versionId, s.store.blockVersions.get? versionId = none

/-! ## References and the creations that add them -/

/-- References belong to snapshots that are there, and the creation under way has none yet for the
blocks to come. -/
structure Placed (s : Protection W) : Prop where
  owned : ∀ sid b w, s.store.snapshotBlocks.get? (sid, b) = some w →
    (s.store.getSnapshot sid).isSome
  unwritten : ∀ c, s.creation = some c → ∀ b,
    c.phase = .started ∨ b ∈ c.phase.unread ∨ c.phase.pendingId = some b →
      s.store.snapshotBlocks.get? (c.snapshotId, b) = none
  apart : ∀ c, s.creation = some c → ∀ b, c.phase.pendingId = some b → b ∉ c.phase.unread

theorem Placed.init (w : W) : Placed (Protection.init w) where
  owned _ _ _ h := by cases h
  unwritten _ h := by cases h
  apart _ h := by cases h

/-- A snapshot without entries has no references. -/
theorem Invariant.snapshotBlocks_eq_none {sid b : String} (h : Invariant s)
    (hentry : s.store.entry sid b = none) : s.store.snapshotBlocks.get? (sid, b) = none := by
  rw [Option.eq_none_iff_forall_ne_some]
  intro w hw
  obtain ⟨row, hrow⟩ := h.counted.referenced _ _ hw
  unfold SnapshotStore.entry at hentry
  rw [hw, Option.bind_some, hrow] at hentry
  cases hentry

/-- Steps that touch the records of snapshots, the blocks and the restores only, or end a creation. -/
theorem Placed.of_sameBlocks (h : Placed s) (hstore : SameBlocks s.store s'.store)
    (hcreation : s'.creation = s.creation ∨ s'.creation = none) : Placed s' where
  owned sid b w hw := by
    rw [hstore.snapshotBlocks] at hw
    rw [hstore.present]
    exact h.owned sid b w hw
  unwritten c hc b hb := by
    rcases hcreation with hsame | hnone
    · rw [hstore.snapshotBlocks]
      exact h.unwritten c (hsame ▸ hc) b hb
    · rw [hnone] at hc
      cases hc
  apart c hc b hb := by
    rcases hcreation with hsame | hnone
    · exact h.apart c (hsame ▸ hc) b hb
    · rw [hnone] at hc
      cases hc

/-- Steps of a creation that leave the references alone. -/
theorem Placed.of_creation (h : Placed s) {c c' : Creation} (hc : s.creation = some c)
    (hc' : s'.creation = some c') (hsid : c'.snapshotId = c.snapshotId)
    (hrefs : s'.store.snapshotBlocks = s.store.snapshotBlocks)
    (hpresent : ∀ sid, s'.store.getSnapshot sid = s.store.getSnapshot sid)
    (hunread : ∀ b, c'.phase = .started ∨ b ∈ c'.phase.unread ∨ c'.phase.pendingId = some b →
      c.phase = .started ∨ b ∈ c.phase.unread ∨ c.phase.pendingId = some b)
    (hapart : ∀ b, c'.phase.pendingId = some b → b ∉ c'.phase.unread) : Placed s' where
  owned sid b w hw := by
    rw [hpresent]
    exact h.owned sid b w (hrefs ▸ hw)
  unwritten c₁ hc₁ b hb := by
    obtain rfl := Option.some.inj (hc'.symm.trans hc₁)
    rw [hrefs, hsid]
    exact h.unwritten c hc b (hunread b hb)
  apart c₁ hc₁ b hb := by
    obtain rfl := Option.some.inj (hc'.symm.trans hc₁)
    exact hapart b hb

theorem Placed.create {sid : String} {now version : ℤ} {placements : Dict String (List String)}
    (hinv : Invariant s) (h : Placed s)
    (hstep : s.create R sid now version placements = some s') : Placed s' := by
  obtain rfl | ⟨-, hfresh, store, hstore, rfl⟩ := create_eq_some hstep
  · exact h
  obtain ⟨-, hblocks, hget⟩ := createSnapshotRecord_ok hstore
  refine ⟨fun sid' b w hw => ?_, fun c hc b _ => ?_, fun c hc b hb => ?_⟩
  · rw [hget]
    split
    · rfl
    · exact h.owned sid' b w (hblocks ▸ hw)
  · obtain rfl := Option.some.inj hc
    simp only [hblocks]
    exact hinv.snapshotBlocks_eq_none (hinv.fresh sid hfresh b)
  · obtain rfl := Option.some.inj hc
    cases hb

/-- The block that is read next is none of those to be read after it. -/
theorem Placed.read {r : ρ} (hinv : Invariant s) (h : Placed s) (hstep : s.read R r = some s') :
    Placed s' := by
  obtain ⟨sid, count, size, b, unread, hc, hread⟩ := read_eq_some hstep
  obtain ⟨acc, -, hcreating⟩ := hinv.creating _ hc
  obtain ⟨hnot, -⟩ := List.nodup_cons.mp hcreating.nodup
  obtain ⟨-, rfl⟩ | ⟨view, size', -, rfl⟩ := hread
  · refine h.of_creation hc rfl rfl rfl (fun _ => rfl) (fun b' hb' => ?_) (fun b' hb' => ?_)
    · rcases hb' with hb' | hb' | hb'
      · cases hb'
      · exact Or.inr (Or.inl (List.mem_cons_of_mem b hb'))
      · cases hb'
    · cases hb'
  · refine h.of_creation hc rfl rfl rfl (fun _ => rfl) (fun b' hb' => ?_) (fun b' hb' => ?_)
    · rcases hb' with hb' | hb' | hb'
      · cases hb'
      · exact Or.inr (Or.inl (List.mem_cons_of_mem b hb'))
      · obtain rfl := Option.some.inj hb'
        exact Or.inr (Or.inl List.mem_cons_self)
    · obtain rfl := Option.some.inj hb'
      exact hnot

theorem Placed.share {newId : String} (hinv : Invariant s) (h : Placed s)
    (hstep : s.share newId = some s') : Placed s' := by
  obtain ⟨sid, count, size, block, unread, hc, ⟨error, rfl⟩ | ⟨store, w, hok, rfl⟩⟩ :=
    share_eq_some hstep
  · exact h.of_sameBlocks (sameBlocks_finalizeSnapshot _ _ _ _ _ _) (Or.inr rfl)
  · obtain ⟨-, hsnaps, hrefs, -, -⟩ := getOrCreateBlockVersion_ok hinv.counted hok
    refine h.of_creation hc rfl rfl hrefs (fun sid' => ?_) (fun b hb => ?_)
      (fun b hb => h.apart _ hc b hb)
    · unfold getSnapshot
      rw [hsnaps]
    · rcases hb with hb | hb | hb
      · cases hb
      · exact Or.inr (Or.inl hb)
      · exact Or.inr (Or.inr hb)

theorem Placed.add (hinv : Invariant s) (h : Placed s) (hstep : s.add = some s') : Placed s' := by
  obtain ⟨sid, count, size, b, w, unread, hc, rfl⟩ := add_eq_some hstep
  obtain ⟨acc, -, hcreating⟩ := hinv.creating _ hc
  refine ⟨fun sid' b' w' hw' => ?_, fun c hc' b' hb' => ?_, fun c hc' b' hb' => ?_⟩
  · simp only [addSnapshotBlock, Dict.get?_set] at hw'
    split at hw'
    · rename_i hkey
      obtain ⟨rfl, -⟩ := Prod.mk.inj hkey
      exact hcreating.present
    · exact h.owned sid' b' w' hw'
  · obtain rfl := Option.some.inj hc'
    have hunread : b' ∈ unread := by
      rcases hb' with hb' | hb' | hb'
      · cases hb'
      · exact hb'
      · cases hb'
    have hne : (sid, b') ≠ (sid, b) := by
      rintro hkey
      obtain ⟨-, rfl⟩ := Prod.mk.inj hkey
      exact h.apart _ hc b' rfl hunread
    simp only [addSnapshotBlock, Dict.get?_set]
    rw [if_neg hne]
    exact h.unwritten _ hc b' (Or.inr (Or.inl hunread))
  · obtain rfl := Option.some.inj hc'
    cases hb'

theorem Placed.delete {sid : String} (h : Placed s) (hstep : s.delete sid = some s') :
    Placed s' := by
  obtain ⟨hnone, rfl | ⟨store, size, hdel, rfl⟩⟩ := delete_eq_some hstep
  · exact h
  obtain ⟨row, -, hdel⟩ := Option.map_eq_some_iff.mp hdel
  simp only [Prod.mk.injEq] at hdel
  obtain ⟨rfl, -⟩ := hdel
  refine ⟨fun sid' b w hw => ?_, fun c hc => ?_, fun c hc => ?_⟩
  · simp only [Dict.get?_filter, Option.filter_eq_some_iff] at hw
    have hne : sid' ≠ sid := by simpa using hw.2
    unfold getSnapshot
    simp only [Dict.get?_erase]
    rw [if_neg hne]
    exact h.owned sid' b w hw.1
  · rw [hnone] at hc
    cases hc
  · rw [hnone] at hc
    cases hc

/-- Every step leaves the references with their snapshots. -/
theorem Placed.step {ev : ProtectionEvent ρ χ} (hinv : Invariant s) (h : Placed s)
    (hstep : Protection.step R s ev = some s') : Placed s' := by
  cases ev with
  | change c =>
      obtain rfl := Option.some.inj hstep
      exact h.of_sameBlocks (.refl _) (Or.inl rfl)
  | create sid now version placements => exact h.create hinv hstep
  | list =>
      obtain ⟨sid, count, size, hc, rfl⟩ := list_eq_some hstep
      exact h.of_creation hc rfl rfl rfl (fun _ => rfl) (fun _ _ => Or.inl rfl)
        (fun _ hb => by cases hb)
  | read r => exact h.read hinv hstep
  | share newId => exact h.share hinv hstep
  | add => exact h.add hinv hstep
  | finish =>
      obtain ⟨sid, count, size, -, rfl⟩ := finish_eq_some hstep
      exact h.of_sameBlocks (sameBlocks_finalizeSnapshot _ _ _ _ _ _) (Or.inr rfl)
  | raise error recorded =>
      obtain ⟨c, -, rfl⟩ := Option.map_eq_some_iff.mp hstep
      split
      · exact h.of_sameBlocks (sameBlocks_finalizeSnapshot _ _ _ _ _ _) (Or.inr rfl)
      · exact h.of_sameBlocks (.refl _) (Or.inr rfl)
  | delete sid => exact h.delete hstep
  | reclaim =>
      obtain rfl := Option.some.inj hstep
      exact ⟨h.owned, h.unwritten, h.apart⟩
  | recover =>
      obtain rfl := Option.some.inj hstep
      exact h.of_sameBlocks (sameBlocks_recoverInterruptedSnapshots _) (Or.inl rfl)
  | crash =>
      obtain rfl := Option.some.inj hstep
      exact h.of_sameBlocks (.refl _) (Or.inr rfl)
  | restore sid =>
      obtain rfl := Option.some.inj hstep
      rcases s.restore_cases sid with heq | ⟨snapshot, -, -, heq⟩ <;> rw [heq]
      · exact h
      · exact h.of_sameBlocks (.refl _) (Or.inl rfl)
  | mark i =>
      obtain ⟨sid, live, -, rfl⟩ := mark_eq_some hstep
      exact h.of_sameBlocks (sameBlocks_updateStatus _ _ _) (Or.inl rfl)
  | load i =>
      obtain ⟨sid, live, -, rfl⟩ := load_eq_some hstep
      exact h.of_sameBlocks (.refl _) (Or.inl rfl)
  | sweep i =>
      obtain ⟨sid, live, blocks, -, rfl⟩ := sweep_eq_some hstep
      exact h.of_sameBlocks (.refl _) (Or.inl rfl)
  | endRestore i =>
      obtain ⟨r, -, rfl⟩ := endRestore_eq_some hstep
      exact h.of_sameBlocks (sameBlocks_updateStatus _ _ _) (Or.inl rfl)

/-! ## Excess -/

/-- No excess is taken away, and none is brought about. -/
structure ExcessKept (s s' : Protection W) : Prop where
  stays : ∀ k z, 0 < z → s.excess k = some z → s'.excess k = some z
  onlyZero : ∀ k z, s'.excess k = some z → s.excess k = some z ∨ z = 0

theorem ExcessKept.of_eq (h : ∀ k, s'.excess k = s.excess k) : ExcessKept s s' where
  stays k _ _ hk := (h k).trans hk
  onlyZero k _ hk := Or.inl ((h k).symm.trans hk)

/-- Steps that leave the blocks of the store alone, and what a creation holds. -/
theorem ExcessKept.of_sameBlocks (hstore : SameBlocks s.store s'.store) (hheld : s'.held = s.held) :
    ExcessKept s s' := by
  refine .of_eq fun k => ?_
  unfold excess
  rw [hstore.blockVersions, hstore.snapshotBlocks, hheld]

/-- Sharing counts the creation with what refers to the contents. -/
theorem excess_getOrCreateBlockVersion {store store' : SnapshotStore} {held : List String}
    {b newId w : String} {v : ℤ} {data : Option String} {deleted : Bool} (h : store.Counted held)
    (hok : store.getOrCreateBlockVersion b v data deleted newId = .ok (store', w)) (k : String) :
    Found.excess BlockVersion.counter store'.snapshotBlocks store'.blockVersions (w :: held) k =
        Found.excess BlockVersion.counter store.snapshotBlocks store.blockVersions held k ∨
      Found.excess BlockVersion.counter store'.snapshotBlocks store'.blockVersions (w :: held) k =
        some 0 ∧ store.blockVersions.get? k = none := by
  unfold getOrCreateBlockVersion at hok
  by_cases hbind : Node.Bindable v
  swap
  · rw [if_pos hbind] at hok
    cases hok
  rw [if_neg (not_not.mpr hbind)] at hok
  split at hok
  · simp only [Except.ok.injEq, Prod.mk.injEq] at hok
    obtain ⟨rfl, rfl⟩ := hok
    exact Or.inl (excess_grab _ k)
  · split_ifs at hok with hcontains
    simp only [Except.ok.injEq, Prod.mk.injEq] at hok
    obtain ⟨rfl, rfl⟩ := hok
    have hfresh : store.blockVersions.get? newId = none := by
      unfold Dict.contains at hcontains
      simpa using hcontains
    have hinsert := RefCounted.excess_insert (r := ⟨b, v, data, deleted, 1⟩) h hfresh rfl k
    by_cases hk : k = newId
    · rw [if_pos hk] at hinsert
      exact Or.inr ⟨hinsert, hk ▸ hfresh⟩
    · rw [if_neg hk] at hinsert
      exact Or.inl hinsert

theorem ExcessKept.share {newId : String} (hinv : Invariant s) (hstep : s.share newId = some s') :
    ExcessKept s s' := by
  obtain ⟨sid, count, size, block, unread, hc, ⟨error, rfl⟩ | ⟨store, w, hok, rfl⟩⟩ :=
    share_eq_some hstep
  · refine .of_sameBlocks (sameBlocks_finalizeSnapshot _ _ _ _ _ _) ?_
    unfold held
    rw [hc]
    rfl
  · have hheld : s.held = [] := by
      unfold held
      rw [hc]
      rfl
    have hcounted := hinv.counted
    rw [hheld] at hcounted
    have hcases := excess_getOrCreateBlockVersion hcounted hok
    refine ⟨fun k z hz hk => ?_, fun k z hk => ?_⟩
    · unfold excess at hk
      rw [hheld] at hk
      rcases hcases k with hsame | ⟨-, hnone⟩
      · exact hsame.trans hk
      · unfold Found.excess at hk
        rw [hnone] at hk
        cases hk
    · unfold excess
      rw [hheld]
      rcases hcases k with hsame | ⟨hzero, -⟩
      · exact Or.inl (hsame.symm.trans hk)
      · exact Or.inr (Option.some.inj (hk.symm.trans hzero))

/-- The reference that was counted is the one that is added. -/
theorem ExcessKept.add (hplaced : Placed s) (hstep : s.add = some s') : ExcessKept s s' := by
  obtain ⟨sid, count, size, b, w, unread, hc, rfl⟩ := add_eq_some hstep
  have hheld : s.held = [w] := by
    unfold held
    rw [hc]
    rfl
  have hnew := hplaced.unwritten _ hc b (Or.inr (Or.inr rfl))
  refine .of_eq fun k => ?_
  unfold excess
  rw [hheld]
  exact excess_point hnew w k

theorem ExcessKept.delete {sid : String} (hstep : s.delete sid = some s') : ExcessKept s s' := by
  obtain ⟨-, rfl | ⟨store, size, hdel, rfl⟩⟩ := delete_eq_some hstep
  · exact .of_eq fun _ => rfl
  obtain ⟨row, -, hdel⟩ := Option.map_eq_some_iff.mp hdel
  simp only [Prod.mk.injEq] at hdel
  obtain ⟨rfl, -⟩ := hdel
  have hdrop : ∀ k, Found.excess BlockVersion.counter
      (s.store.snapshotBlocks.filter fun item _ => !decide (item.1 = sid))
      (lowered BlockVersion.counter
        (s.store.snapshotBlocks.filter fun item _ => decide (item.1 = sid)).values
        s.store.blockVersions) s.held k = s.excess k :=
    fun k => excess_drop (fun (item : String × String) (_ : String) => decide (item.1 = sid)) k
  refine ⟨fun k z hz hk => ?_, fun k z hk => ?_⟩
  · exact excess_collect ((hdrop k).trans hk) hz
  · exact Or.inl ((hdrop k).symm.trans (excess_of_collect hk))

theorem ExcessKept.reclaim :
    ExcessKept s { s with store := s.store.reclaimOrphanBlocks } where
  stays _ _ hz hk := excess_collect hk hz
  onlyZero _ _ hk := Or.inl (excess_of_collect hk)

/-- A creation that holds nothing can be cut short. -/
theorem ExcessKept.of_abandoned (hheld : s.held = []) (hstore : SameBlocks s.store s'.store)
    (hcreation : s'.creation = none) : ExcessKept s s' := by
  refine .of_sameBlocks hstore ?_
  rw [hheld]
  unfold held
  rw [hcreation]

/-- A step that loses no reference keeps the excesses. -/
theorem excessKept_step {ev : ProtectionEvent ρ χ} (hinv : Invariant s) (hplaced : Placed s)
    (hkeeps : ¬ s.Loses ev) (hstep : Protection.step R s ev = some s') : ExcessKept s s' := by
  have hheld : Interrupts ev → s.held = [] := fun hev => not_not.mp fun hne => hkeeps ⟨hne, hev⟩
  cases ev with
  | change c =>
      obtain rfl := Option.some.inj hstep
      exact .of_eq fun _ => rfl
  | create sid now version placements =>
      obtain rfl | ⟨hnone, -, store, hstore, rfl⟩ := create_eq_some hstep
      · exact .of_eq fun _ => rfl
      · obtain ⟨hversions, hblocks, -⟩ := createSnapshotRecord_ok hstore
        refine .of_eq fun k => ?_
        unfold excess held
        rw [hversions, hblocks, hnone]
        rfl
  | list =>
      obtain ⟨sid, count, size, hc, rfl⟩ := list_eq_some hstep
      refine .of_sameBlocks (.refl _) ?_
      unfold held
      rw [hc]
      rfl
  | read r =>
      obtain ⟨sid, count, size, b, unread, hc, hread⟩ := read_eq_some hstep
      obtain ⟨-, rfl⟩ | ⟨view, size', -, rfl⟩ := hread
      · refine .of_sameBlocks (.refl _) ?_
        unfold held
        rw [hc]
        rfl
      · refine .of_sameBlocks (.refl _) ?_
        unfold held
        rw [hc]
        rfl
  | share newId => exact .share hinv hstep
  | add => exact .add hplaced hstep
  | finish =>
      obtain ⟨sid, count, size, hc, rfl⟩ := finish_eq_some hstep
      refine .of_abandoned ?_ (sameBlocks_finalizeSnapshot _ _ _ _ _ _) rfl
      unfold held
      rw [hc]
      rfl
  | raise error recorded =>
      obtain ⟨c, -, rfl⟩ := Option.map_eq_some_iff.mp hstep
      split
      · exact .of_abandoned (hheld trivial) (sameBlocks_finalizeSnapshot _ _ _ _ _ _) rfl
      · exact .of_abandoned (hheld trivial) (.refl _) rfl
  | delete sid => exact .delete hstep
  | reclaim =>
      obtain rfl := Option.some.inj hstep
      exact .reclaim
  | recover =>
      obtain rfl := Option.some.inj hstep
      exact .of_sameBlocks (sameBlocks_recoverInterruptedSnapshots _) rfl
  | crash =>
      obtain rfl := Option.some.inj hstep
      exact .of_abandoned (hheld trivial) (.refl _) rfl
  | restore sid =>
      obtain rfl := Option.some.inj hstep
      rcases s.restore_cases sid with heq | ⟨snapshot, -, -, heq⟩ <;> rw [heq]
      · exact .of_eq fun _ => rfl
      · exact .of_sameBlocks (.refl _) rfl
  | mark i =>
      obtain ⟨sid, live, -, rfl⟩ := mark_eq_some hstep
      exact .of_sameBlocks (sameBlocks_updateStatus _ _ _) rfl
  | load i =>
      obtain ⟨sid, live, -, rfl⟩ := load_eq_some hstep
      exact .of_sameBlocks (.refl _) rfl
  | sweep i =>
      obtain ⟨sid, live, blocks, -, rfl⟩ := sweep_eq_some hstep
      exact .of_sameBlocks (.refl _) rfl
  | endRestore i =>
      obtain ⟨r, -, rfl⟩ := endRestore_eq_some hstep
      exact .of_sameBlocks (sameBlocks_updateStatus _ _ _) rfl

/-- What an interrupted creation held is in excess from then on. -/
theorem Leaks.of_abandoned (hinv : Invariant s) (hheld : s.held ≠ [])
    (hstore : SameBlocks s.store s'.store) (hcreation : s'.creation = none) : s'.Leaks := by
  obtain ⟨k, hk⟩ := List.exists_mem_of_ne_nil _ hheld
  obtain ⟨z, hz, hexcess⟩ := hinv.counted.exists_excess_release hk
  refine ⟨k, z, hz, ?_⟩
  unfold excess held
  rw [hcreation, hstore.blockVersions, hstore.snapshotBlocks]
  exact hexcess

/-- A step that loses a reference leaks contents. -/
theorem leaks_of_loses {ev : ProtectionEvent ρ χ} (hinv : Invariant s) (hloses : s.Loses ev)
    (hstep : Protection.step R s ev = some s') : s'.Leaks := by
  obtain ⟨hheld, hev⟩ := hloses
  cases ev with
  | raise error recorded =>
      obtain ⟨c, -, rfl⟩ := Option.map_eq_some_iff.mp hstep
      split
      · exact .of_abandoned hinv hheld (sameBlocks_finalizeSnapshot _ _ _ _ _ _) rfl
      · exact .of_abandoned hinv hheld (.refl _) rfl
  | crash =>
      obtain rfl := Option.some.inj hstep
      exact .of_abandoned hinv hheld (.refl _) rfl
  | _ => exact hev.elim

/-! ## Runs -/

/-- What every run keeps while no reference is lost. -/
structure Balanced (s : Protection W) : Prop where
  invariant : Invariant s
  placed : Placed s
  zero : ∀ k z, s.excess k = some z → z = 0

theorem Balanced.init (w : W) : Balanced (Protection.init w) where
  invariant := .init w
  placed := .init w
  zero _ _ h := by cases h

theorem Balanced.step {ev : ProtectionEvent ρ χ} (h : Balanced s) (hkeeps : ¬ s.Loses ev)
    (hstep : Protection.step R s ev = some s') : Balanced s' where
  invariant := h.invariant.step hstep
  placed := h.placed.step h.invariant hstep
  zero k z hk := by
    have hkept := excessKept_step h.invariant h.placed hkeeps hstep
    rcases hkept.onlyZero k z hk with hold | hzero
    · exact h.zero k z hold
    · exact hzero

theorem Balanced.not_leaks (h : Balanced s) : ¬ s.Leaks := by
  rintro ⟨k, z, hz, hk⟩
  exact absurd (h.zero k z hk) (ne_of_gt hz)

/-- What is leaked stays so. -/
theorem Leaks.step {ev : ProtectionEvent ρ χ} (hinv : Invariant s) (hplaced : Placed s)
    (h : s.Leaks) (hstep : Protection.step R s ev = some s') : s'.Leaks := by
  by_cases hloses : s.Loses ev
  · exact leaks_of_loses hinv hloses hstep
  · obtain ⟨k, z, hz, hk⟩ := h
    exact ⟨k, z, hz, (excessKept_step hinv hplaced hloses hstep).stays k z hz hk⟩

/-! ## The statement -/

/-- The store recovers, snapshots are deleted one after another, and the orphans are reclaimed.
Source: `storage/retention_manager.py`, `clean_orphan_blocks`. -/
def cleanUp (sids : List String) : List (ProtectionEvent ρ χ) :=
  .recover :: sids.map .delete ++ [.reclaim]

theorem run_cleanUp {sids : List String}
    (h : run (Protection.step R) s (cleanUp sids) = some s') : ∃ s₁,
      run (Protection.step R) s.recover (sids.map .delete) = some s₁ ∧
      s' = { s₁ with store := s₁.store.reclaimOrphanBlocks } := by
  unfold cleanUp at h
  rw [run_append] at h
  obtain ⟨s₁, hdeleted, hlast⟩ := Option.bind_eq_some_iff.mp h
  obtain ⟨-, s₀, hrecover, hdeletes⟩ := runWhile_cons.mp hdeleted
  obtain ⟨-, s₂, hreclaim, hlast⟩ := runWhile_cons.mp hlast
  obtain rfl := Option.some.inj hrecover
  obtain rfl := Option.some.inj hreclaim
  exact ⟨s₁, hdeletes, (Option.some.inj hlast).symm⟩

/-- Deletions interrupt no creation. -/
theorem Balanced.run_delete {sids : List String} (h : Balanced s)
    (hrun : run (Protection.step R) s (sids.map .delete) = some s') : Balanced s' := by
  have hreaches : Reaches (Protection.step R) (fun s ev => ¬ s.Loses ev) s
      (sids.map .delete) s' := by
    refine Reaches.of_run (fun s ev hev hloses => ?_) hrun
    obtain ⟨sid, -, rfl⟩ := List.mem_map.mp hev
    exact hloses.2
  exact hreaches.induction (fun s ev s' hs hkeeps hstep => hs.step hkeeps hstep) h

/-- Balanced counts of a store without references are all zero, and their contents are reclaimed. -/
theorem Balanced.reclaimed (h : Balanced s) (hnone : ∀ sid, s.store.getSnapshot sid = none) :
    Reclaimed { s with store := s.store.reclaimOrphanBlocks } := by
  have hrefs : ∀ key w, s.store.snapshotBlocks.get? key ≠ some w := by
    rintro ⟨sid, b⟩ w hw
    have hpresent := h.placed.owned sid b w hw
    rw [hnone] at hpresent
    cases hpresent
  have hheld : s.held = [] := by
    unfold held
    rcases hc : s.creation with _ | c
    · rfl
    · obtain ⟨acc, -, hcreating⟩ := h.invariant.creating c hc
      have hpresent := hcreating.present
      rw [hnone] at hpresent
      cases hpresent
  intro k
  refine get?_collected_eq_none hrefs fun z hz => le_of_eq (h.zero k z ?_)
  unfold excess
  rwa [hheld]

/-- Once the store has recovered, all snapshots are deleted and the orphans reclaimed, no contents
are left just when no creation was interrupted between the two transactions that count a reference
and add it. -/
theorem reclaimable_iff (R : Wiring W ρ χ) {w : W} {evs : List (ProtectionEvent ρ χ)}
    {sids : List String} (hrun : run (Protection.step R) (Protection.init w) evs = some s)
    (hall : ∀ sid, (s.store.getSnapshot sid).isSome → sid ∈ sids)
    (hclean : run (Protection.step R) s (cleanUp sids) = some s') :
    s'.Reclaimed ↔ StepsMeet (Protection.step R) (fun s ev => ¬ s.Loses ev)
      (Protection.init w) evs := by
  have hstays : ∀ (s : Protection W) (ev : ProtectionEvent ρ χ) s',
      (Invariant s ∧ Placed s ∧ s.Leaks) → Protection.step R s ev = some s' →
      (Invariant s' ∧ Placed s' ∧ s'.Leaks) := fun s ev s' h hstep =>
    ⟨h.1.step hstep, h.2.1.step h.1 hstep, h.2.2.step h.1 h.2.1 hstep⟩
  have hiff := stepsMeet_iff_of_run (C := fun s ev => ¬ s.Loses ev)
    (P := fun s => Invariant s ∧ Placed s ∧ s.Leaks) (I := Balanced)
    (fun s h hP => h.not_leaks hP.2.2) (fun s ev s' h hkeeps hstep => h.step hkeeps hstep)
    (fun s ev s' h hloses hstep => ⟨h.invariant.step hstep, h.placed.step h.invariant hstep,
      leaks_of_loses h.invariant (not_not.mp hloses) hstep⟩) hstays (Balanced.init w) hrun
  constructor
  · intro hreclaimed
    refine hiff.mpr fun hleaks => ?_
    have hend := runWhile_induction (fun s ev s' hs _ hstep => hstays s ev s' hs hstep) hleaks hclean
    obtain ⟨-, -, k, z, -, hk⟩ := hend
    unfold excess Found.excess at hk
    rw [hreclaimed k] at hk
    cases hk
  · intro hmeet
    have hbalanced : Balanced s := Throughout.of_run (hmeet.throughout (fun _ h => h)
      (fun s ev s' h hkeeps hstep => h.step hkeeps hstep) (Balanced.init w)) hrun
    obtain ⟨s₁, hdeletes, rfl⟩ := run_cleanUp hclean
    have hrecovered : Balanced s.recover := by
      have hkeeps : ¬ s.Loses (.recover : ProtectionEvent ρ χ) := fun hloses => hloses.2
      have hstep : Protection.step R s .recover = some s.recover := rfl
      exact hbalanced.step hkeeps hstep
    refine (hrecovered.run_delete hdeletes).reclaimed fun sid => ?_
    rw [getSnapshot_run_delete hdeletes]
    split
    · rfl
    · rename_i hnot
      rw [← Option.not_isSome_iff_eq_none]
      intro hsome
      have hpresent := (sameBlocks_recoverInterruptedSnapshots s.store).present sid
      exact hnot (hall sid (hpresent.symm.trans hsome))

/-- A creation that a crash cuts short once its reference is added. -/
def crashAfterAdd : List (ProtectionEvent Unit Node.EngineOp) :=
  [writeBlock "old" 1, .create "s1" 1000 1 Dict.empty, .list, .read (), .share "v1", .add, .crash]

/-- A creation that a crash cuts short once its reference is counted. -/
def crashBeforeAdd : List (ProtectionEvent Unit Node.EngineOp) :=
  [writeBlock "old" 1, .create "s1" 1000 1 Dict.empty, .list, .read (), .share "v1", .crash]

/-- The snapshots of a store that has one with the given id. -/
theorem eq_of_isSome_getSnapshot {store : SnapshotStore} {sid sid' : String}
    (h : store.snapshots.keys = [sid]) (hsome : (store.getSnapshot sid').isSome) : sid' ∈ [sid] := by
  obtain ⟨row, hrow⟩ := Option.isSome_iff_exists.mp hsome
  rw [← h]
  exact Dict.mem_keys.mpr ⟨row, hrow⟩

theorem reclaimable_iff_crashAfterAdd : ∃ s s',
    run (Protection.step LocalEngine.adapter) (Protection.init (LocalEngine.empty "node1"))
      crashAfterAdd = some s ∧
    run (Protection.step LocalEngine.adapter) s (cleanUp ["s1"]) = some s' ∧
    (s'.Reclaimed ↔ StepsMeet (Protection.step LocalEngine.adapter) (fun s ev => ¬ s.Loses ev)
      (Protection.init (LocalEngine.empty "node1")) crashAfterAdd) := by
  have hrun : (run (Protection.step LocalEngine.adapter)
      (Protection.init (LocalEngine.empty "node1")) crashAfterAdd).map (fun s =>
        (s.store.snapshots.keys,
          (run (Protection.step LocalEngine.adapter) s (cleanUp ["s1"])).isSome)) =
      some (["s1"], true) := by decide +kernel
  obtain ⟨s, hs, hpair⟩ := Option.map_eq_some_iff.mp hrun
  obtain ⟨hkeys, hclean⟩ := Prod.mk.inj hpair
  obtain ⟨s', hs'⟩ := Option.isSome_iff_exists.mp hclean
  exact ⟨s, s', hs, hs', reclaimable_iff LocalEngine.adapter hs
    (fun _ => eq_of_isSome_getSnapshot hkeys) hs'⟩

/-- The contents that the interrupted creation counted are left, and nothing refers to them. -/
theorem reclaimable_counterexample : ¬ ∀ (e : LocalEngine)
    (evs : List (ProtectionEvent Unit Node.EngineOp)) (s s' : Protection LocalEngine)
    (sids : List String), run (Protection.step LocalEngine.adapter) (Protection.init e) evs = some s →
      (∀ sid, (s.store.getSnapshot sid).isSome → sid ∈ sids) →
      run (Protection.step LocalEngine.adapter) s (cleanUp sids) = some s' → s'.Reclaimed := by
  intro h
  have hrun : (run (Protection.step LocalEngine.adapter)
      (Protection.init (LocalEngine.empty "node1")) crashBeforeAdd).map (fun s =>
        (s.store.snapshots.keys,
          (run (Protection.step LocalEngine.adapter) s (cleanUp ["s1"])).map fun s' =>
            s'.store.blockVersions.get? "v1")) =
      some (["s1"], some (some ⟨"b1", 1, some "old", false, 1⟩)) := by decide +kernel
  obtain ⟨s, hs, hpair⟩ := Option.map_eq_some_iff.mp hrun
  obtain ⟨hkeys, hclean⟩ := Prod.mk.inj hpair
  obtain ⟨s', hs', hrow⟩ := Option.map_eq_some_iff.mp hclean
  have hnone := h (LocalEngine.empty "node1") crashBeforeAdd s s' ["s1"] hs
    (fun _ => eq_of_isSome_getSnapshot hkeys) hs' "v1"
  rw [hnone] at hrow
  cases hrow

end Protection

end NanoFabric.Storage
