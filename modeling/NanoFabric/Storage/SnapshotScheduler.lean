import NanoFabric.Storage.RetentionManager

/-!
# Scheduled snapshots

`SnapshotScheduler` of `storage/snapshot_scheduler.py`. A tick takes the policies that are due in the
order of their names; each creates a snapshot and then expires what is beyond its retention count. All
policies share one list of snapshots, so that a policy may expire those of another one, or its own
older ones because another one has newer ones.

* `Scheduler.execute` — what a tick does for one policy, and `Scheduler.runDuePolicies` — a tick.
* `Attempt.ready_of_run`, `Attempt.getSnapshot_run` — a creation makes its snapshot and no other one.
* `Scheduler.Spares` — no retention of a tick reaches what a policy is to keep, by the times of the
  snapshots and their number.
* `Scheduler.keepsOwn_iff` — every policy keeps its snapshots just when every tick spares them.

The thread that calls `run_due_policies`, and what the log is told, are left out.
-/

namespace NanoFabric.Storage

open NanoFabric.Found

/-! ## Policies -/

/-- Source: `storage/models.py`, `PolicySchedule`. -/
inductive PolicySchedule
  | hourly
  | daily
  | weekly
deriving DecidableEq, Repr

/-- Source: `storage/snapshot_scheduler.py`, `_SCHEDULE_SECONDS`. -/
def PolicySchedule.seconds : PolicySchedule → ℤ
  | hourly => 3600
  | daily => 86400
  | weekly => 604800

/-- A row of `snapshot_policies`, whose key is the id.
Source: `storage/models.py`, `SnapshotPolicy`. -/
structure SnapshotPolicy where
  name : String
  schedule : PolicySchedule
  retentionCount : ℕ
  enabled : Bool
  lastRunAt : Option ℤ
  nextRunAt : Option ℤ
  one_le_retentionCount : 1 ≤ retentionCount

namespace SnapshotPolicy

/-- Source: `storage/snapshot_scheduler.py`, `_compute_next_run`. -/
def computeNextRun (schedule : PolicySchedule) (fromMs : ℤ) : ℤ := fromMs + schedule.seconds * 1000

/-- A policy without a time, or with the time 0, is due.
Source: `storage/snapshot_scheduler.py`, `run_due_policies`. -/
def due (now : ℤ) (policy : SnapshotPolicy) : Bool :=
  policy.enabled && (policy.nextRunAt.filter (· ≠ 0)).all (· ≤ now)

/-- The rows of policies, by their names.
Source: `storage/snapshot_store.py`, `list_policies`. -/
def listPolicies (policies : Dict String SnapshotPolicy) : List (String × SnapshotPolicy) :=
  policies.entries.insertionSort fun item item' => item.2.name ≤ item'.2.name

/-- The policy after a snapshot of it. -/
def ran (now : ℤ) (policy : SnapshotPolicy) : SnapshotPolicy :=
  { policy with lastRunAt := some now, nextRunAt := some (computeNextRun policy.schedule now) }

end SnapshotPolicy

/-! ## Creations -/

variable {W ρ χ : Type}

namespace ProtectionEvent

/-- A step of a creation, or a change of the blocks. -/
def ofCreation : ProtectionEvent ρ χ → Bool
  | .change _ => true
  | .list => true
  | .read _ => true
  | .share _ => true
  | .add => true
  | .finish => true
  | .raise _ _ => true
  | _ => false

def isFinish : ProtectionEvent ρ χ → Bool
  | .finish => true
  | _ => false

end ProtectionEvent

/-- One call of `create_snapshot`: the id, the time and what else goes into the record, and the steps
that follow, with the changes of the blocks between them. -/
structure Attempt (ρ χ : Type) where
  snapshotId : String
  timestamp : ℤ
  metadataVersion : ℤ
  placements : Dict String (List String)
  steps : List (ProtectionEvent ρ χ)
  ofCreation : steps.all ProtectionEvent.ofCreation = true

namespace Attempt

/-- The snapshot is returned, and no exception leaves. -/
def succeeds (a : Attempt ρ χ) : Bool := a.steps.any ProtectionEvent.isFinish

/-- The state after the call, if its steps can happen and end the creation. -/
def run (R : Wiring W ρ χ) (p : Protection W) (a : Attempt ρ χ) : Option (Protection W) :=
  (Found.run (Protection.step R) p
    (.create a.snapshotId a.timestamp a.metadataVersion a.placements :: a.steps)).filter fun p' =>
      p'.creation = none

end Attempt

/-! ## What a creation does -/

namespace Protection

open SnapshotStore

variable {R : Wiring W ρ χ} {s s' : Protection W} {sid : String}

/-- An id that was drawn stays drawn. -/
theorem accounts_step {ev : ProtectionEvent ρ χ} (hstep : Protection.step R s ev = some s')
    (h : (s.accounts.get? sid).isSome) : (s'.accounts.get? sid).isSome := by
  have hmodify : ∀ (accounts : Dict String Account) (sid' : String) (f : Account → Account),
      (accounts.get? sid).isSome → ((accounts.modify sid' f).get? sid).isSome := by
    intro accounts sid' f h
    rwa [Dict.get?_modify, Option.isSome_map]
  cases ev with
  | create sid' now version placements =>
      obtain rfl | ⟨-, -, store, -, rfl⟩ := create_eq_some hstep
      · exact h
      · simp only [Dict.get?_set]
        split
        · rfl
        · exact h
  | list =>
      obtain ⟨sid', count, size, -, rfl⟩ := list_eq_some hstep
      exact h
  | read r =>
      obtain ⟨sid', count, size, b, unread, -, hread⟩ := read_eq_some hstep
      obtain ⟨-, rfl⟩ | ⟨view, size', -, rfl⟩ := hread
      · exact h
      · exact hmodify _ _ _ h
  | share newId =>
      obtain ⟨sid', count, size, block, unread, -, hshare⟩ := share_eq_some hstep
      obtain ⟨error, rfl⟩ | ⟨store, w, -, rfl⟩ := hshare <;> exact h
  | add =>
      obtain ⟨sid', count, size, b, w, unread, -, rfl⟩ := add_eq_some hstep
      exact h
  | finish =>
      obtain ⟨sid', count, size, -, rfl⟩ := finish_eq_some hstep
      exact hmodify _ _ _ h
  | raise error recorded =>
      obtain ⟨c, -, rfl⟩ := Option.map_eq_some_iff.mp hstep
      split <;> exact h
  | delete sid' =>
      obtain ⟨-, rfl | ⟨store, size, -, rfl⟩⟩ := delete_eq_some hstep <;> exact h
  | restore sid' =>
      obtain rfl := Option.some.inj hstep
      rcases s.restore_cases sid' with heq | ⟨snapshot, -, -, heq⟩ <;> rw [heq] <;> exact h
  | mark i =>
      obtain ⟨sid', live, -, rfl⟩ := mark_eq_some hstep
      exact h
  | load i =>
      obtain ⟨sid', live, -, rfl⟩ := load_eq_some hstep
      exact h
  | sweep i =>
      obtain ⟨sid', live, blocks, -, rfl⟩ := sweep_eq_some hstep
      exact h
  | endRestore i =>
      obtain ⟨r, -, rfl⟩ := endRestore_eq_some hstep
      exact h
  | change c =>
      obtain rfl := Option.some.inj hstep
      exact h
  | reclaim =>
      obtain rfl := Option.some.inj hstep
      exact h
  | recover =>
      obtain rfl := Option.some.inj hstep
      exact h
  | crash =>
      obtain rfl := Option.some.inj hstep
      exact h

theorem accounts_run {evs : List (ProtectionEvent ρ χ)}
    (hrun : run (Protection.step R) s evs = some s') (h : (s.accounts.get? sid).isSome) :
    (s'.accounts.get? sid).isSome :=
  runWhile_induction (I := fun s => (s.accounts.get? sid).isSome)
    (fun _ _ _ hI _ hstep => accounts_step hstep hI) h hrun

/-- The creation under way, if there is one, is of the snapshot, whose record is there. -/
def CreatesOnly (s : Protection W) (sid : String) : Prop :=
  ∀ c, s.creation = some c → c.snapshotId = sid ∧ (s.store.getSnapshot sid).isSome

/-- The snapshot is there, and ready. -/
def Ready (s : Protection W) (sid : String) : Prop :=
  ∃ row, s.store.getSnapshot sid = some row ∧ row.status = .ready

theorem getSnapshot_finalizeSnapshot (store : SnapshotStore) (sid sid' : String) (count size : ℕ)
    (status : SnapshotStatus) (error : Option String) :
    (store.finalizeSnapshot sid count size status error).getSnapshot sid' =
      (store.getSnapshot sid').map fun row =>
        if sid' = sid then { row with blockCount := count, sizeBytes := size, status, error }
        else row :=
  Dict.get?_modify ..

/-- Of all records only that of the snapshot has changed, and its time has not. -/
def ChangesOnly (sid : String) (store store' : SnapshotStore) : Prop :=
  ∃ f : SnapshotRecord → SnapshotRecord, (∀ row, (f row).timestamp = row.timestamp) ∧
    store'.snapshots = store.snapshots.modify sid f

theorem ChangesOnly.of_eq {store store' : SnapshotStore} (h : store'.snapshots = store.snapshots) :
    ChangesOnly sid store store' :=
  ⟨id, fun _ => rfl, h.trans (Dict.modify_id _ _).symm⟩

theorem ChangesOnly.trans {store store' store'' : SnapshotStore} (h : ChangesOnly sid store store')
    (h' : ChangesOnly sid store' store'') : ChangesOnly sid store store'' := by
  obtain ⟨f, hf, heq⟩ := h
  obtain ⟨g, hg, heq'⟩ := h'
  exact ⟨g ∘ f, fun row => (hg _).trans (hf row), by rw [heq', heq, Dict.modify_modify]⟩

theorem ChangesOnly.getSnapshot {store store' : SnapshotStore} (h : ChangesOnly sid store store')
    {sid' : String} (hne : sid' ≠ sid) : store'.getSnapshot sid' = store.getSnapshot sid' := by
  obtain ⟨f, -, heq⟩ := h
  unfold SnapshotStore.getSnapshot
  rw [heq, Dict.get?_modify]
  simp only [if_neg hne, Option.map_id']

/-- Sharing makes and changes no snapshot. -/
theorem snapshots_getOrCreateBlockVersion {store store' : SnapshotStore} {b newId w : String} {v : ℤ}
    {data : Option String} {deleted : Bool}
    (hok : store.getOrCreateBlockVersion b v data deleted newId = .ok (store', w)) :
    store'.snapshots = store.snapshots := by
  unfold getOrCreateBlockVersion at hok
  by_cases hbind : Node.Bindable v
  swap
  · rw [if_pos hbind] at hok
    cases hok
  rw [if_neg (not_not.mpr hbind)] at hok
  split at hok
  · simp only [Except.ok.injEq, Prod.mk.injEq] at hok
    obtain ⟨rfl, -⟩ := hok
    rfl
  · split_ifs at hok
    simp only [Except.ok.injEq, Prod.mk.injEq] at hok
    obtain ⟨rfl, -⟩ := hok
    rfl

/-- A finished creation is ready. -/
theorem ready_finish (h : s.CreatesOnly sid) (hstep : s.finish = some s') :
    s'.Ready sid ∧ s'.creation = none := by
  obtain ⟨sid', count, size, hc, rfl⟩ := finish_eq_some hstep
  obtain ⟨rfl, hpresent⟩ := h _ hc
  obtain ⟨row, hrow⟩ := Option.isSome_iff_exists.mp hpresent
  refine ⟨⟨{ row with blockCount := count, sizeBytes := size, status := .ready, error := none },
    ?_, rfl⟩, rfl⟩
  rw [getSnapshot_finalizeSnapshot, hrow, Option.map_some, if_pos rfl]

/-- A step of a creation changes no record but its own, and goes on with no other creation. -/
theorem createsOnly_step {ev : ProtectionEvent ρ χ} (hev : ev.ofCreation = true)
    (h : s.CreatesOnly sid) (hstep : Protection.step R s ev = some s') :
    s'.CreatesOnly sid ∧ ChangesOnly sid s.store s'.store := by
  have hended : ∀ {store : SnapshotStore} {error : Option String} {count size : ℕ}
      {status : SnapshotStatus} {c : Creation}, s.creation = some c →
      store = s.store.finalizeSnapshot c.snapshotId count size status error →
      ChangesOnly sid s.store store := by
    rintro store error count size status c hc rfl
    obtain ⟨rfl, -⟩ := h c hc
    exact ⟨fun row => { row with blockCount := count, sizeBytes := size, status, error },
      fun _ => rfl, rfl⟩
  have hover : ∀ {t : Protection W}, t.creation = none → t.CreatesOnly sid := by
    intro t hnone c hc
    rw [hnone] at hc
    cases hc
  have hgoes : ∀ {t : Protection W} {c c' : Creation}, s.creation = some c → t.creation = some c' →
      c'.snapshotId = c.snapshotId → t.store.snapshots = s.store.snapshots →
      t.CreatesOnly sid ∧ ChangesOnly sid s.store t.store := by
    intro t c c' hc hc' hsid hsame
    refine ⟨fun c₁ hc₁ => ?_, .of_eq hsame⟩
    obtain rfl := Option.some.inj (hc'.symm.trans hc₁)
    unfold SnapshotStore.getSnapshot
    rw [hsid, hsame]
    exact h c hc
  cases ev with
  | change c =>
      obtain rfl := Option.some.inj hstep
      exact ⟨h, .of_eq rfl⟩
  | list =>
      obtain ⟨sid', count, size, hc, rfl⟩ := list_eq_some hstep
      exact hgoes hc rfl rfl rfl
  | read r =>
      obtain ⟨sid', count, size, b, unread, hc, hread⟩ := read_eq_some hstep
      obtain ⟨-, rfl⟩ | ⟨view, size', -, rfl⟩ := hread <;> exact hgoes hc rfl rfl rfl
  | share newId =>
      obtain ⟨sid', count, size, block, unread, hc, hshare⟩ := share_eq_some hstep
      obtain ⟨error, rfl⟩ | ⟨store, w, hok, rfl⟩ := hshare
      · exact ⟨hover rfl, hended hc rfl⟩
      · exact hgoes hc rfl rfl (snapshots_getOrCreateBlockVersion hok)
  | add =>
      obtain ⟨sid', count, size, b, w, unread, hc, rfl⟩ := add_eq_some hstep
      exact hgoes hc rfl rfl rfl
  | finish =>
      obtain ⟨sid', count, size, hc, rfl⟩ := finish_eq_some hstep
      exact ⟨hover rfl, hended hc rfl⟩
  | raise error recorded =>
      obtain ⟨c, hc, rfl⟩ := Option.map_eq_some_iff.mp hstep
      split
      · exact ⟨hover rfl, hended hc rfl⟩
      · exact ⟨hover rfl, .of_eq rfl⟩
  | _ => cases hev

/-- Once no creation is under way, the steps of one change the blocks at most. -/
theorem over_step {ev : ProtectionEvent ρ χ} (hev : ev.ofCreation = true)
    (h : s.creation = none) (hstep : Protection.step R s ev = some s') :
    s'.creation = none ∧ s'.store = s.store := by
  cases ev with
  | change c =>
      obtain rfl := Option.some.inj hstep
      exact ⟨h, rfl⟩
  | list =>
      obtain ⟨sid', count, size, hc, -⟩ := list_eq_some hstep
      cases h.symm.trans hc
  | read r =>
      obtain ⟨sid', count, size, b, unread, hc, -⟩ := read_eq_some hstep
      cases h.symm.trans hc
  | share newId =>
      obtain ⟨sid', count, size, block, unread, hc, -⟩ := share_eq_some hstep
      cases h.symm.trans hc
  | add =>
      obtain ⟨sid', count, size, b, w, unread, hc, -⟩ := add_eq_some hstep
      cases h.symm.trans hc
  | finish =>
      obtain ⟨sid', count, size, hc, -⟩ := finish_eq_some hstep
      cases h.symm.trans hc
  | raise error recorded =>
      obtain ⟨c, hc, -⟩ := Option.map_eq_some_iff.mp hstep
      cases h.symm.trans hc
  | _ => cases hev

theorem reaches_creation {steps : List (ProtectionEvent ρ χ)}
    (hsteps : steps.all ProtectionEvent.ofCreation = true)
    (hrun : run (Protection.step R) s steps = some s') :
    Reaches (Protection.step R) (fun _ ev => ev.ofCreation = true) s steps s' :=
  Reaches.of_run (fun _ ev hev => List.all_eq_true.mp hsteps ev hev) hrun

/-- The steps of a creation change no record but its own. -/
theorem createsOnly_run {steps : List (ProtectionEvent ρ χ)}
    (hsteps : steps.all ProtectionEvent.ofCreation = true) (h : s.CreatesOnly sid)
    (hrun : run (Protection.step R) s steps = some s') : ChangesOnly sid s.store s'.store := by
  have hkept := (reaches_creation hsteps hrun).induction
    (I := fun t => t.CreatesOnly sid ∧ ChangesOnly sid s.store t.store)
    (fun t ev t' ht hev hstep => ?_) ⟨h, .of_eq rfl⟩
  · exact hkept.2
  · obtain ⟨honly, hchanges⟩ := createsOnly_step hev ht.1 hstep
    exact ⟨honly, ht.2.trans hchanges⟩

/-- After a creation its store does not change. -/
theorem store_run_over {steps : List (ProtectionEvent ρ χ)}
    (hsteps : steps.all ProtectionEvent.ofCreation = true) (h : s.creation = none)
    (hrun : run (Protection.step R) s steps = some s') : s'.store = s.store := by
  have hkept := (reaches_creation hsteps hrun).induction
    (I := fun t => t.creation = none ∧ t.store = s.store) (fun t ev t' ht hev hstep => ?_) ⟨h, rfl⟩
  · exact hkept.2
  · obtain ⟨hover, hstore⟩ := over_step hev ht.1 hstep
    exact ⟨hover, hstore.trans ht.2⟩

/-- A creation that finishes leaves its snapshot ready. -/
theorem ready_run {steps : List (ProtectionEvent ρ χ)}
    (hsteps : steps.all ProtectionEvent.ofCreation = true) (h : s.CreatesOnly sid)
    (hfinish : steps.any ProtectionEvent.isFinish = true)
    (hrun : run (Protection.step R) s steps = some s') : s'.Ready sid := by
  induction steps generalizing s with
  | nil => cases hfinish
  | cons ev steps ih =>
      obtain ⟨hev, hsteps⟩ := Bool.and_eq_true_iff.mp hsteps
      obtain ⟨-, s₁, hs₁, hrun⟩ := runWhile_cons.mp hrun
      by_cases hend : ev.isFinish = true
      · have hfin : s.finish = some s₁ := by
          cases ev with
          | finish => exact hs₁
          | _ => cases hend
        obtain ⟨hready, hover⟩ := ready_finish h hfin
        unfold Ready
        rw [store_run_over hsteps hover hrun]
        exact hready
      · rw [List.any_cons, Bool.or_eq_true] at hfinish
        exact ih hsteps (createsOnly_step hev h hs₁).1 (hfinish.resolve_left hend) hrun

/-- A record is made under an id that was not drawn, and comes after the others. -/
theorem createsOnly_create {now version : ℤ} {placements : Dict String (List String)}
    (hstep : s.create R sid now version placements = some s') :
    s.creation = none ∧ s.accounts.get? sid = none ∧ s'.CreatesOnly sid ∧
      (s' = s ∨ s.store.getSnapshot sid = none ∧ ∃ row : SnapshotRecord, row.timestamp = now ∧
        s'.store.snapshots = s.store.snapshots.set sid row) := by
  have hguard : s.creation = none ∧ s.accounts.get? sid = none := by
    unfold Protection.create at hstep
    split_ifs at hstep with h
    exact h
  refine ⟨hguard.1, hguard.2, ?_⟩
  obtain rfl | ⟨-, -, store, hstore, rfl⟩ := create_eq_some hstep
  · refine ⟨fun c hc => ?_, Or.inl rfl⟩
    rw [hguard.1] at hc
    cases hc
  · unfold createSnapshotRecord at hstore
    split_ifs at hstore with hcontains
    obtain rfl := Except.ok.inj hstore
    refine ⟨fun c hc => ?_, Or.inr ⟨Option.not_isSome_iff_eq_none.mp hcontains, _, rfl, rfl⟩⟩
    obtain rfl := Option.some.inj hc
    refine ⟨rfl, ?_⟩
    unfold SnapshotStore.getSnapshot
    rw [Dict.get?_set_self]
    rfl

end Protection

namespace Attempt

open Protection

variable {R : Wiring W ρ χ} {p p' : Protection W} {a : Attempt ρ χ}

theorem run_eq_some (h : a.run R p = some p') : p'.creation = none ∧ ∃ p₁,
    p.create R a.snapshotId a.timestamp a.metadataVersion a.placements = some p₁ ∧
      Found.run (Protection.step R) p₁ a.steps = some p' := by
  obtain ⟨hrun, hover⟩ := Option.filter_eq_some_iff.mp h
  obtain ⟨-, p₁, hp₁, hrun⟩ := runWhile_cons.mp hrun
  exact ⟨of_decide_eq_true hover, p₁, hp₁, hrun⟩

/-- A creation draws a new id, and makes no snapshot but its own. -/
theorem getSnapshot_run (h : a.run R p = some p') : p.accounts.get? a.snapshotId = none ∧
    ∀ sid, sid ≠ a.snapshotId → p'.store.getSnapshot sid = p.store.getSnapshot sid := by
  obtain ⟨-, p₁, hp₁, hrun⟩ := run_eq_some h
  obtain ⟨-, hfresh, honly, hmade⟩ := createsOnly_create hp₁
  refine ⟨hfresh, fun sid hne => ?_⟩
  rw [(createsOnly_run a.ofCreation honly hrun).getSnapshot hne]
  obtain rfl | ⟨-, row, -, heq⟩ := hmade
  · rfl
  · unfold SnapshotStore.getSnapshot
    rw [heq, Dict.get?_set_of_ne hne]

/-- A creation that succeeds makes a snapshot that is ready. -/
theorem ready_of_run (h : a.run R p = some p') (hsucceeds : a.succeeds = true) :
    p'.Ready a.snapshotId := by
  obtain ⟨-, p₁, hp₁, hrun⟩ := run_eq_some h
  obtain ⟨-, -, honly, -⟩ := createsOnly_create hp₁
  exact ready_run a.ofCreation honly hsucceeds hrun

/-- Every snapshot that is there was drawn by a creation. -/
def Recorded (p : Protection W) : Prop :=
  ∀ sid, (p.store.getSnapshot sid).isSome → (p.accounts.get? sid).isSome

/-- A creation that succeeds adds a record that is ready, after the others and with its time. -/
theorem entries_run (hrec : Recorded p) (h : a.run R p = some p') (hsucceeds : a.succeeds = true) :
    ∃ row : SnapshotRecord, row.timestamp = a.timestamp ∧ row.status = .ready ∧
      p'.store.snapshots.entries = p.store.snapshots.entries ++ [(a.snapshotId, row)] := by
  obtain ⟨-, p₁, hp₁, hrun⟩ := run_eq_some h
  obtain ⟨hidle, hfresh, honly, hmade⟩ := createsOnly_create hp₁
  obtain ⟨row, hrow, hstatus⟩ := ready_run a.ofCreation honly hsucceeds hrun
  obtain ⟨f, hf, hchanged⟩ := createsOnly_run a.ofCreation honly hrun
  obtain rfl | ⟨hnone, row₀, htime, heq⟩ := hmade
  · -- the record could not be made, so that no step finishes anything
    rw [store_run_over a.ofCreation hidle hrun] at hrow
    have hdrawn := hrec a.snapshotId (by rw [hrow]; rfl)
    rw [hfresh] at hdrawn
    cases hdrawn
  · have hentries : p'.store.snapshots.entries =
        p.store.snapshots.entries ++ [(a.snapshotId, f row₀)] := by
      rw [hchanged, heq]
      exact Dict.entries_modify_set hnone row₀ f
    have hlast := Dict.mem_entries.mp
      (hentries ▸ List.mem_append_right _ (List.mem_singleton_self (a.snapshotId, f row₀)))
    obtain rfl := Option.some.inj (hrow.symm.trans hlast)
    exact ⟨f row₀, (hf row₀).trans htime, hstatus, hentries⟩

theorem accounts_run (h : a.run R p = some p') {sid : String}
    (hsid : (p.accounts.get? sid).isSome) : (p'.accounts.get? sid).isSome :=
  Protection.accounts_run (Option.filter_eq_some_iff.mp h).1 hsid

theorem accounts_self (hrec : Recorded p) (h : a.run R p = some p') :
    (p'.accounts.get? a.snapshotId).isSome := by
  obtain ⟨-, p₁, hp₁, hrun⟩ := run_eq_some h
  refine Protection.accounts_run hrun ?_
  have hfresh := (getSnapshot_run h).1
  unfold Protection.create at hp₁
  split_ifs at hp₁
  split at hp₁
  · rename_i error herror
    unfold SnapshotStore.createSnapshotRecord at herror
    split_ifs at herror with hcontains
    have hdrawn := hrec a.snapshotId hcontains
    rw [hfresh] at hdrawn
    cases hdrawn
  · obtain rfl := Option.some.inj hp₁
    simp only [Dict.get?_set_self, Option.isSome_some]

theorem recorded_run (hrec : Recorded p) (h : a.run R p = some p') : Recorded p' := by
  intro sid hsid
  by_cases hself : sid = a.snapshotId
  · exact hself ▸ accounts_self hrec h
  · rw [(getSnapshot_run h).2 sid hself] at hsid
    exact accounts_run h (hrec sid hsid)

end Attempt

/-! ## The scheduler -/

/-- The store of a node, its policies, and for each snapshot that a policy has created the two ids,
newest first. -/
structure Scheduler (W : Type) where
  protection : Protection W
  policies : Dict String SnapshotPolicy
  made : List (String × String)

/-- What a tick does for one policy: the policy as it was listed, and its creation; `none` if an
exception precedes the record. -/
structure Execution (ρ χ : Type) where
  policyId : String
  policy : SnapshotPolicy
  attempt : Option (Attempt ρ χ)

/-- A tick: its time, and what the creations of the policies would do. -/
structure Tick (ρ χ : Type) where
  now : ℤ
  attempts : String → Option (Attempt ρ χ)

namespace Execution

/-- The snapshot that the policy creates, if its creation succeeds. -/
def created (e : Execution ρ χ) : Option (String × String) :=
  (e.attempt.filter Attempt.succeeds).map fun a => (e.policyId, a.snapshotId)

end Execution

namespace Scheduler

open SnapshotStore (ahead mem_take_ready)

/-- Nothing has been created yet. -/
def init (w : W) (policies : Dict String SnapshotPolicy) : Scheduler W :=
  ⟨Protection.init w, policies, []⟩

/-- The policies that a tick executes. -/
def executions (s : Scheduler W) (tick : Tick ρ χ) : List (Execution ρ χ) :=
  ((SnapshotPolicy.listPolicies s.policies).filter fun item => item.2.due tick.now).map fun item =>
    ⟨item.1, item.2, tick.attempts item.1⟩

/-- A policy that is due: its snapshot is created, its next run is set, and the snapshots beyond its
retention count are expired. An exception ends it.
Source: `storage/snapshot_scheduler.py`, `run_due_policies`. -/
def execute (R : Wiring W ρ χ) (now : ℤ) (s : Scheduler W) (e : Execution ρ χ) :
    Option (Scheduler W) :=
  match e.attempt with
  | none => some s
  | some a =>
      (a.run R s.protection).bind fun p =>
        if a.succeeds then
          (p.enforceRetention R e.policy.retentionCount).map fun p' =>
            { protection := p'
              policies := s.policies.set e.policyId (e.policy.ran now)
              made := (e.policyId, a.snapshotId) :: s.made }
        else some { s with protection := p }

/-- Source: `storage/snapshot_scheduler.py`, `run_due_policies`. -/
def runDuePolicies (R : Wiring W ρ χ) (s : Scheduler W) (tick : Tick ρ χ) : Option (Scheduler W) :=
  run (execute R tick.now) s (s.executions tick)

/-! ## What is kept -/

/-- The snapshots of a policy, newest first, among those created. -/
def ofPolicy (made : List (String × String)) (policyId : String) : List String :=
  (made.filter fun item => item.1 = policyId).map Prod.snd

/-- The snapshots created once the executions are over. -/
def madeAfter (s : Scheduler W) (es : List (Execution ρ χ)) : List (String × String) :=
  (es.filterMap Execution.created).reverse ++ s.made

/-- The snapshot is one of the last that its policy has created, once the executions are over. -/
def ToKeep (s : Scheduler W) (es : List (Execution ρ χ)) (sid : String) : Prop :=
  ∃ policyId policy, s.policies.get? policyId = some policy ∧
    sid ∈ (ofPolicy (s.madeAfter es) policyId).take policy.retentionCount

/-- The last snapshots that a policy has created, as many as it is to retain, are there and ready. -/
def Keeps (s : Scheduler W) : Prop :=
  ∀ policyId policy, s.policies.get? policyId = some policy →
    ∀ sid ∈ (ofPolicy s.made policyId).take policy.retentionCount, s.protection.Ready sid

/-- Fewer than `n` snapshots that are ready come before each one that is to be kept, once that of the
creation is made. -/
structure Leaves (Kept : String → Prop) (s : Scheduler W) (a : Attempt ρ χ) (n : ℕ) : Prop where
  older : ∀ before sid row after,
    s.protection.store.snapshots.entries = before ++ (sid, row) :: after → row.status = .ready →
    Kept sid → ahead before after row.timestamp + (if row.timestamp < a.timestamp then 1 else 0) < n
  own : Kept a.snapshotId → ahead s.protection.store.snapshots.entries [] a.timestamp < n

/-- If the policy is about to have a snapshot created, its retention leaves those that are to be kept. -/
def LeavesTo (Kept : String → Prop) (s : Scheduler W) (e : Execution ρ χ) : Prop :=
  ∀ a, e.attempt = some a → a.succeeds = true → s.Leaves Kept a e.policy.retentionCount

/-- No retention of the tick reaches a snapshot that a policy is to keep after it. -/
def Spares (R : Wiring W ρ χ) (s : Scheduler W) (tick : Tick ρ χ) : Prop :=
  StepsMeet (execute R tick.now) (LeavesTo (s.ToKeep (s.executions tick))) s (s.executions tick)

/-! ## What an execution does -/

open Attempt (Recorded)

variable {R : Wiring W ρ χ} {now : ℤ} {s s' : Scheduler W} {e : Execution ρ χ}
  {es : List (Execution ρ χ)} {Kept : String → Prop} {sid : String}

/-- An execution makes no snapshot, or it makes one and expires those beyond the retention count. -/
theorem execute_cases (h : s.execute R now e = some s') :
    (e.created = none ∧ s'.made = s.made ∧ s'.policies = s.policies ∧
      (s'.protection = s.protection ∨ ∃ a : Attempt ρ χ, e.attempt = some a ∧
        a.run R s.protection = some s'.protection)) ∨
    ∃ (a : Attempt ρ χ) (p : Protection W), e.attempt = some a ∧ a.succeeds = true ∧
      a.run R s.protection = some p ∧
      p.enforceRetention R e.policy.retentionCount = some s'.protection ∧
      s'.policies = s.policies.set e.policyId (e.policy.ran now) ∧
      s'.made = (e.policyId, a.snapshotId) :: s.made := by
  unfold execute at h
  unfold Execution.created
  rcases hattempt : e.attempt with _ | a
  · simp only [hattempt] at h
    obtain rfl := Option.some.inj h
    exact Or.inl ⟨rfl, rfl, rfl, Or.inl rfl⟩
  · simp only [hattempt] at h
    obtain ⟨p, hp, h⟩ := Option.bind_eq_some_iff.mp h
    split_ifs at h with hsucceeds
    · obtain ⟨p', hp', rfl⟩ := Option.map_eq_some_iff.mp h
      exact Or.inr ⟨a, p, rfl, hsucceeds, hp, hp', rfl, rfl⟩
    · obtain rfl := Option.some.inj h
      refine Or.inl ⟨?_, rfl, rfl, Or.inr ⟨a, rfl, hp⟩⟩
      rw [Option.filter_some, if_neg hsucceeds, Option.map_none]

/-- A retention leaves the snapshots that it does not expire. -/
theorem getSnapshot_enforceRetention {p p' : Protection W} {n : ℕ}
    (h : p.enforceRetention R n = some p') (sid : String) :
    p'.store.getSnapshot sid = if sid ∈ p.store.expired n then none else p.store.getSnapshot sid :=
  Protection.getSnapshot_run_delete h sid

/-- What is there, or was created by a policy, was drawn by a creation. -/
structure Sound (s : Scheduler W) : Prop where
  recorded : Recorded s.protection
  made : ∀ item ∈ s.made, (s.protection.accounts.get? item.2).isSome

theorem Sound.init (w : W) (policies : Dict String SnapshotPolicy) :
    Sound (Scheduler.init w policies) where
  recorded _ h := by cases h
  made _ h := absurd h List.not_mem_nil

theorem accounts_execute (h : s.execute R now e = some s')
    (hsid : (s.protection.accounts.get? sid).isSome) :
    (s'.protection.accounts.get? sid).isSome := by
  obtain ⟨-, -, -, hsame | ⟨a, -, hrun⟩⟩ | ⟨a, p, -, -, hrun, hret, -, -⟩ := execute_cases h
  · rwa [hsame]
  · exact Attempt.accounts_run hrun hsid
  · exact Protection.accounts_run hret (Attempt.accounts_run hrun hsid)

theorem Sound.execute (hs : Sound s) (h : s.execute R now e = some s') : Sound s' := by
  have hmade : ∀ item ∈ s.made, (s'.protection.accounts.get? item.2).isSome :=
    fun item hitem => accounts_execute h (hs.made item hitem)
  obtain ⟨-, heq, -, hcases⟩ | ⟨a, p, -, -, hrun, hret, -, heq⟩ := execute_cases h
  · refine ⟨?_, by rwa [heq]⟩
    rcases hcases with hsame | ⟨a, -, hrun⟩
    · rw [hsame]
      exact hs.recorded
    · exact Attempt.recorded_run hs.recorded hrun
  · refine ⟨fun sid hsid => ?_, fun item hitem => ?_⟩
    · rw [getSnapshot_enforceRetention hret] at hsid
      split at hsid
      · cases hsid
      · exact Protection.accounts_run hret (Attempt.recorded_run hs.recorded hrun sid hsid)
    · rw [heq] at hitem
      rcases List.mem_cons.mp hitem with rfl | hitem
      · exact Protection.accounts_run hret (Attempt.accounts_self hs.recorded hrun)
      · exact hmade item hitem

/-- A creation leaves the snapshots that are there. -/
theorem ready_attempt {a : Attempt ρ χ} {p : Protection W} (hs : Sound s)
    (hrun : a.run R s.protection = some p) (h : s.protection.Ready sid) : p.Ready sid := by
  obtain ⟨row, hrow, hstatus⟩ := h
  have hdrawn := hs.recorded sid (by rw [hrow]; rfl)
  obtain ⟨hfresh, hother⟩ := Attempt.getSnapshot_run hrun
  have hne : sid ≠ a.snapshotId := by
    rintro rfl
    rw [hfresh] at hdrawn
    cases hdrawn
  exact ⟨row, (hother sid hne).trans hrow, hstatus⟩

/-- A retention leaves what is ready and among the first. -/
theorem ready_enforceRetention {p p' : Protection W} {n : ℕ}
    (hret : p.enforceRetention R n = some p') (h : p.Ready sid)
    (hfirst : sid ∈ (p.store.ready.take n).map Prod.fst) : p'.Ready sid := by
  obtain ⟨row, hrow, hstatus⟩ := h
  refine ⟨row, ?_, hstatus⟩
  rw [getSnapshot_enforceRetention hret, if_neg fun hexp => ?_, hrow]
  exact (SnapshotStore.mem_expired.mp hexp).2 hfirst

/-- Once a creation is over, what was ready before it has one more that comes before it at most, and
the new snapshot has all those of its time and of later ones. -/
theorem mem_take_attempt {a : Attempt ρ χ} {p : Protection W} (hs : Sound s)
    (hrun : a.run R s.protection = some p) (hsucceeds : a.succeeds = true) {n : ℕ} :
    (∀ before sid row after,
      s.protection.store.snapshots.entries = before ++ (sid, row) :: after → row.status = .ready →
      (sid ∈ (p.store.ready.take n).map Prod.fst ↔
        ahead before after row.timestamp + (if row.timestamp < a.timestamp then 1 else 0) < n)) ∧
    (a.snapshotId ∈ (p.store.ready.take n).map Prod.fst ↔
      ahead s.protection.store.snapshots.entries [] a.timestamp < n) := by
  obtain ⟨newRow, htime, hstatus, hentries⟩ := Attempt.entries_run hs.recorded hrun hsucceeds
  constructor
  · intro before sid row after hold hready
    rw [hold, List.append_assoc, List.cons_append] at hentries
    rw [mem_take_ready hentries hready]
    unfold ahead
    rw [List.countP_append, List.countP_singleton, hstatus, htime, Nat.add_assoc]
    simp
  · rw [mem_take_ready hentries hstatus, htime]

/-- What was ready before a creation is among the first once it is over, if it is to be left. -/
theorem mem_take_of_leaves {a : Attempt ρ χ} {p : Protection W} (hs : Sound s)
    (hrun : a.run R s.protection = some p) (hsucceeds : a.succeeds = true) {n : ℕ}
    (hleaves : s.Leaves Kept a n) (hkept : Kept sid) (hready : p.Ready sid) :
    sid ∈ (p.store.ready.take n).map Prod.fst := by
  obtain ⟨row, hrow, hstatus⟩ := hready
  obtain ⟨hold, hnew⟩ := mem_take_attempt (n := n) hs hrun hsucceeds
  by_cases hself : sid = a.snapshotId
  · subst hself
    exact hnew.mpr (hleaves.own hkept)
  · rw [(Attempt.getSnapshot_run hrun).2 sid hself] at hrow
    obtain ⟨before, after, hentries⟩ := List.append_of_mem (Dict.mem_entries.mpr hrow)
    exact (hold before sid row after hentries hstatus).mpr
      (hleaves.older before sid row after hentries hstatus hkept)

/-- A creation that does not leave what is to be kept puts some of it after the first ones. -/
theorem exists_not_mem_take {a : Attempt ρ χ} {p : Protection W} (hs : Sound s)
    (hrun : a.run R s.protection = some p) (hsucceeds : a.succeeds = true) {n : ℕ}
    (hleaves : ¬ s.Leaves Kept a n) :
    ∃ sid, Kept sid ∧ p.Ready sid ∧ sid ∉ (p.store.ready.take n).map Prod.fst := by
  obtain ⟨hold, hnew⟩ := mem_take_attempt (n := n) hs hrun hsucceeds
  by_cases hown : Kept a.snapshotId → ahead s.protection.store.snapshots.entries [] a.timestamp < n
  · have holder : ∃ before sid row after,
        s.protection.store.snapshots.entries = before ++ (sid, row) :: after ∧ row.status = .ready ∧
        Kept sid ∧
        ¬ ahead before after row.timestamp + (if row.timestamp < a.timestamp then 1 else 0) < n := by
      by_contra hnone
      refine hleaves ⟨fun before sid row after hentries hstatus hkept => ?_, hown⟩
      by_contra hnot
      exact hnone ⟨before, sid, row, after, hentries, hstatus, hkept, hnot⟩
    obtain ⟨before, sid, row, after, hentries, hstatus, hkept, hnot⟩ := holder
    have hrow : s.protection.store.getSnapshot sid = some row :=
      Dict.mem_entries.mp (hentries ▸ List.mem_append_right _ List.mem_cons_self)
    exact ⟨sid, hkept, ready_attempt hs hrun ⟨row, hrow, hstatus⟩,
      mt (hold before sid row after hentries hstatus).mp hnot⟩
  · rw [Classical.not_imp] at hown
    exact ⟨a.snapshotId, hown.1, Attempt.ready_of_run hrun hsucceeds, mt hnew.mp hown.2⟩

/-- An execution that leaves what is to be kept keeps what is ready, and what it creates. -/
theorem ready_execute (hs : Sound s) (h : s.execute R now e = some s')
    (hleaves : LeavesTo Kept s e) (hkept : Kept sid)
    (hsid : s.protection.Ready sid ∨ ∃ policyId, e.created = some (policyId, sid)) :
    s'.protection.Ready sid := by
  obtain ⟨hnone, -, -, hcases⟩ | ⟨a, p, hattempt, hsucceeds, hrun, hret, -, -⟩ := execute_cases h
  · have hready : s.protection.Ready sid := by
      refine hsid.resolve_right ?_
      rintro ⟨policyId, hcreated⟩
      rw [hnone] at hcreated
      cases hcreated
    rcases hcases with hsame | ⟨a, -, hrun⟩
    · rwa [hsame]
    · exact ready_attempt hs hrun hready
  · have hready : p.Ready sid := by
      rcases hsid with hready | ⟨policyId, hcreated⟩
      · exact ready_attempt hs hrun hready
      · unfold Execution.created at hcreated
        rw [hattempt, Option.filter_some, if_pos hsucceeds, Option.map_some] at hcreated
        obtain ⟨-, rfl⟩ := Prod.mk.inj (Option.some.inj hcreated)
        exact Attempt.ready_of_run hrun hsucceeds
    exact ready_enforceRetention hret hready
      (mem_take_of_leaves hs hrun hsucceeds (hleaves a hattempt hsucceeds) hkept hready)

/-- A snapshot that is gone does not come back. -/
theorem gone_execute (h : s.execute R now e = some s')
    (hdrawn : (s.protection.accounts.get? sid).isSome)
    (hgone : s.protection.store.getSnapshot sid = none) :
    s'.protection.store.getSnapshot sid = none := by
  have hattempt : ∀ {a : Attempt ρ χ} {p : Protection W}, a.run R s.protection = some p →
      p.store.getSnapshot sid = none := by
    intro a p hrun
    obtain ⟨hfresh, hother⟩ := Attempt.getSnapshot_run hrun
    rw [hother sid, hgone]
    rintro rfl
    rw [hfresh] at hdrawn
    cases hdrawn
  obtain ⟨-, -, -, hsame | ⟨a, -, hrun⟩⟩ | ⟨a, p, -, -, hrun, hret, -, -⟩ := execute_cases h
  · rwa [hsame]
  · exact hattempt hrun
  · rw [getSnapshot_enforceRetention hret, hattempt hrun, ite_self]

/-- An execution that does not leave what is to be kept expires some of it. -/
theorem exists_gone_execute (hs : Sound s) (h : s.execute R now e = some s')
    (hleaves : ¬ LeavesTo Kept s e) : ∃ sid, Kept sid ∧
      s'.protection.store.getSnapshot sid = none ∧ (s'.protection.accounts.get? sid).isSome := by
  unfold LeavesTo at hleaves
  push Not at hleaves
  obtain ⟨a, hattempt, hsucceeds, hleaves⟩ := hleaves
  obtain ⟨hnone, -⟩ | ⟨a', p, hattempt', -, hrun, hret, -, -⟩ := execute_cases h
  · unfold Execution.created at hnone
    rw [hattempt, Option.filter_some, if_pos hsucceeds] at hnone
    cases hnone
  · obtain rfl := Option.some.inj (hattempt.symm.trans hattempt')
    obtain ⟨sid, hkept, hready, hnot⟩ := exists_not_mem_take hs hrun hsucceeds hleaves
    refine ⟨sid, hkept, ?_, ?_⟩
    · rw [getSnapshot_enforceRetention hret,
        if_pos (SnapshotStore.mem_expired.mpr ⟨SnapshotStore.mem_ready.mpr hready, hnot⟩)]
    · obtain ⟨row, hrow, -⟩ := hready
      exact Protection.accounts_run hret
        (Attempt.recorded_run hs.recorded hrun sid (by rw [hrow]; rfl))

/-! ## What a tick does -/

theorem Sound.run (hs : Sound s) (h : run (Scheduler.execute R now) s es = some s') : Sound s' :=
  runWhile_induction (fun _ _ _ hI _ hstep => hI.execute hstep) hs h

/-- Executions that leave what is to be kept keep what is ready, and what they create. -/
theorem ready_run (hs : Sound s) (h : run (Scheduler.execute R now) s es = some s')
    (hleaves : StepsMeet (Scheduler.execute R now) (LeavesTo Kept) s es) (hkept : Kept sid)
    (hsid : s.protection.Ready sid ∨
      ∃ policyId, (policyId, sid) ∈ es.filterMap Execution.created) :
    s'.protection.Ready sid := by
  induction es generalizing s with
  | nil =>
      obtain rfl := Option.some.inj h
      exact hsid.resolve_right fun ⟨_, hmem⟩ => absurd hmem List.not_mem_nil
  | cons e es ih =>
      obtain ⟨-, s₁, hs₁, hrun⟩ := runWhile_cons.mp h
      obtain ⟨hleave, hrest⟩ := hleaves s₁ hs₁
      refine ih (hs.execute hs₁) hrun hrest ?_
      rcases hsid with hready | ⟨policyId, hmem⟩
      · exact Or.inl (ready_execute hs hs₁ hleave hkept (Or.inl hready))
      · rcases hcreated : e.created with _ | created
        · rw [List.filterMap_cons_none hcreated] at hmem
          exact Or.inr ⟨policyId, hmem⟩
        · rw [List.filterMap_cons_some hcreated] at hmem
          rcases List.mem_cons.mp hmem with rfl | hmem
          · exact Or.inl (ready_execute hs hs₁ hleave hkept (Or.inr ⟨policyId, hcreated⟩))
          · exact Or.inr ⟨policyId, hmem⟩

/-- What is gone stays so to the end of the tick. -/
theorem gone_run (h : run (Scheduler.execute R now) s es = some s')
    (hdrawn : (s.protection.accounts.get? sid).isSome)
    (hgone : s.protection.store.getSnapshot sid = none) :
    s'.protection.store.getSnapshot sid = none := by
  refine (runWhile_induction (I := fun s : Scheduler W =>
    (s.protection.accounts.get? sid).isSome ∧ s.protection.store.getSnapshot sid = none)
    (fun s e s' hI _ hstep => ?_) ⟨hdrawn, hgone⟩ h).2
  exact ⟨accounts_execute hstep hI.1, gone_execute hstep hI.1 hI.2⟩

/-- Executions that do not all leave what is to be kept lose some of it. -/
theorem exists_gone_run (hs : Sound s) (h : run (Scheduler.execute R now) s es = some s')
    (hleaves : ¬ StepsMeet (Scheduler.execute R now) (LeavesTo Kept) s es) :
    ∃ sid, Kept sid ∧ s'.protection.store.getSnapshot sid = none := by
  induction es generalizing s with
  | nil => exact absurd trivial hleaves
  | cons e es ih =>
      obtain ⟨-, s₁, hs₁, hrun⟩ := runWhile_cons.mp h
      by_cases hleave : LeavesTo Kept s e
      · refine ih (hs.execute hs₁) hrun fun hrest => hleaves fun s₂ hs₂ => ?_
        obtain rfl := Option.some.inj (hs₁.symm.trans hs₂)
        exact ⟨hleave, hrest⟩
      · obtain ⟨sid, hkept, hgone, hdrawn⟩ := exists_gone_execute hs hs₁ hleave
        exact ⟨sid, hkept, gone_run hrun hdrawn hgone⟩

theorem made_run (h : run (Scheduler.execute R now) s es = some s') : s'.made = s.madeAfter es := by
  induction es generalizing s with
  | nil => exact Option.some.inj h ▸ rfl
  | cons e es ih =>
      obtain ⟨-, s₁, hs₁, hrun⟩ := runWhile_cons.mp h
      rw [ih hrun]
      unfold madeAfter
      obtain ⟨hnone, heq, -⟩ | ⟨a, p, hattempt, hsucceeds, -, -, -, heq⟩ := execute_cases hs₁
      · rw [heq, List.filterMap_cons_none hnone]
      · have hcreated : e.created = some (e.policyId, a.snapshotId) := by
          unfold Execution.created
          rw [hattempt, Option.filter_some, if_pos hsucceeds, Option.map_some]
        rw [heq, List.filterMap_cons_some hcreated, List.reverse_cons, List.append_assoc,
          List.singleton_append]

/-- Executions of policies as they are listed change no retention count. -/
theorem retentionCount_run (h : run (Scheduler.execute R now) s es = some s')
    (hlisted : ∀ e ∈ es, (s.policies.get? e.policyId).map SnapshotPolicy.retentionCount =
      some e.policy.retentionCount) (policyId : String) :
    (s'.policies.get? policyId).map SnapshotPolicy.retentionCount =
      (s.policies.get? policyId).map SnapshotPolicy.retentionCount := by
  induction es generalizing s with
  | nil => exact Option.some.inj h ▸ rfl
  | cons e es ih =>
      obtain ⟨-, s₁, hs₁, hrun⟩ := runWhile_cons.mp h
      have hsame : ∀ policyId, (s₁.policies.get? policyId).map SnapshotPolicy.retentionCount =
          (s.policies.get? policyId).map SnapshotPolicy.retentionCount := by
        intro policyId
        obtain ⟨-, -, heq, -⟩ | ⟨a, p, -, -, -, -, heq, -⟩ := execute_cases hs₁
        · rw [heq]
        · rw [heq, Dict.get?_set]
          split
          · rename_i hid
            rw [hid, hlisted e List.mem_cons_self]
            rfl
          · rfl
      rw [ih hrun fun e' he' => ?_, hsame]
      rw [hsame]
      exact hlisted e' (List.mem_cons_of_mem e he')

/-- A tick executes policies as they are. -/
theorem get?_of_mem_executions {tick : Tick ρ χ} (h : e ∈ s.executions tick) :
    s.policies.get? e.policyId = some e.policy := by
  unfold executions SnapshotPolicy.listPolicies at h
  obtain ⟨⟨policyId, policy⟩, hitem, rfl⟩ := List.mem_map.mp h
  exact Dict.mem_entries.mp
    ((List.perm_insertionSort _ _).mem_iff.mp (List.mem_filter.mp hitem).1)

/-- What is to be kept is what the policies have created last, when the tick is over. -/
theorem toKeep_iff {tick : Tick ρ χ} (h : s.runDuePolicies R tick = some s') :
    s.ToKeep (s.executions tick) sid ↔ ∃ policyId policy,
      s'.policies.get? policyId = some policy ∧
        sid ∈ (ofPolicy s'.made policyId).take policy.retentionCount := by
  have hsame := retentionCount_run h fun e he =>
    congrArg (Option.map SnapshotPolicy.retentionCount) (get?_of_mem_executions he)
  unfold ToKeep
  rw [made_run h]
  constructor
  · rintro ⟨policyId, policy, hpolicy, hsid⟩
    have hcount := hsame policyId
    rw [hpolicy, Option.map_some, Option.map_eq_some_iff] at hcount
    obtain ⟨policy', hpolicy', heq⟩ := hcount
    exact ⟨policyId, policy', hpolicy', heq ▸ hsid⟩
  · rintro ⟨policyId, policy', hpolicy', hsid⟩
    have hcount := (hsame policyId).symm
    rw [hpolicy', Option.map_some, Option.map_eq_some_iff] at hcount
    obtain ⟨policy, hpolicy, heq⟩ := hcount
    exact ⟨policyId, policy, hpolicy, heq ▸ hsid⟩

/-- What is to be kept after a tick was so before it, or is created by it. -/
theorem ready_or_created {tick : Tick ρ χ} (hkeeps : Keeps s)
    (h : s.ToKeep (s.executions tick) sid) : s.protection.Ready sid ∨
      ∃ policyId, (policyId, sid) ∈ (s.executions tick).filterMap Execution.created := by
  obtain ⟨policyId, policy, hpolicy, hsid⟩ := h
  unfold ofPolicy madeAfter at hsid
  rw [List.filter_append, List.map_append, List.take_append, List.mem_append] at hsid
  rcases hsid with hnew | hold
  · obtain ⟨⟨policyId', sid'⟩, hitem, rfl⟩ := List.mem_map.mp (List.mem_of_mem_take hnew)
    exact Or.inr ⟨policyId', List.mem_reverse.mp (List.mem_filter.mp hitem).1⟩
  · refine Or.inl (hkeeps policyId policy hpolicy sid ?_)
    exact (List.take_subset_take_left _ (Nat.sub_le _ _)) hold

/-- A tick that spares what is to be kept keeps it. -/
theorem Keeps.tick {tick : Tick ρ χ} (hs : Sound s) (hkeeps : Keeps s)
    (hspares : s.Spares R tick) (h : s.runDuePolicies R tick = some s') : Keeps s' := by
  intro policyId policy hpolicy sid hsid
  have htoKeep := (toKeep_iff h).mpr ⟨policyId, policy, hpolicy, hsid⟩
  exact ready_run hs h hspares htoKeep (ready_or_created hkeeps htoKeep)

/-- A tick that does not spare what is to be kept loses some of it. -/
theorem not_keeps_tick {tick : Tick ρ χ} (hs : Sound s) (hspares : ¬ s.Spares R tick)
    (h : s.runDuePolicies R tick = some s') : ¬ Keeps s' := by
  obtain ⟨sid, htoKeep, hgone⟩ := exists_gone_run hs h hspares
  obtain ⟨policyId, policy, hpolicy, hsid⟩ := (toKeep_iff h).mp htoKeep
  intro hkeeps
  obtain ⟨row, hrow, -⟩ := hkeeps policyId policy hpolicy sid hsid
  rw [hgone] at hrow
  cases hrow

/-! ## The statement -/

/-- After every tick of a run each policy has its last snapshots, as many as it is to retain, just
when no retention of a tick reaches one of them. -/
theorem keepsOwn_iff (R : Wiring W ρ χ) (w : W) (policies : Dict String SnapshotPolicy)
    (ticks : List (Tick ρ χ)) :
    Throughout (runDuePolicies R) Keeps (Scheduler.init w policies) ticks ↔
      StepsMeet (runDuePolicies R) (fun s tick => s.Spares R tick)
        (Scheduler.init w policies) ticks := by
  refine throughout_iff_stepsMeet (I := fun s => Sound s ∧ Keeps s) (fun s h => h.2) ?_ ?_ ?_
  · exact fun s tick s' h hspares htick => ⟨h.1.run htick, h.2.tick h.1 hspares htick⟩
  · exact fun s tick s' h hspares htick => not_keeps_tick h.1 hspares htick
  · refine ⟨.init w policies, fun policyId policy _ sid hsid => ?_⟩
    exact absurd (List.mem_of_mem_take hsid) List.not_mem_nil

/-- A creation of a snapshot of no blocks. -/
def noBlocks (snapshotId : String) (timestamp : ℤ) : Attempt Unit Node.EngineOp :=
  ⟨snapshotId, timestamp, 1, Dict.empty, [.list, .finish], rfl⟩

/-- Two policies that each retain one snapshot. -/
def twoPolicies : Dict String SnapshotPolicy :=
  (Dict.empty.set "p1" ⟨"daily", .daily, 1, true, none, some 1000, le_rfl⟩).set "p2"
    ⟨"hourly", .hourly, 1, true, none, some 1000, le_rfl⟩

/-- A tick for which both are due. -/
def bothDue : Tick Unit Node.EngineOp where
  now := 1000
  attempts policyId := some (if policyId = "p1" then noBlocks "s1" 1000 else noBlocks "s2" 1001)

/-- The second policy expires the snapshot that the first has just created. -/
theorem keepsOwn_counterexample : ¬ ∀ (e : LocalEngine) (policies : Dict String SnapshotPolicy)
    (ticks : List (Tick Unit Node.EngineOp)),
    (∀ policyId policy, policies.get? policyId = some policy → policy.enabled = true) →
    (ticks.map Tick.now).Pairwise (· < ·) →
      Throughout (runDuePolicies LocalEngine.adapter) Keeps (Scheduler.init e policies) ticks := by
  intro h
  have henabled : ∀ policyId policy, twoPolicies.get? policyId = some policy →
      policy.enabled = true := by
    intro policyId policy hpolicy
    unfold twoPolicies at hpolicy
    rw [Dict.get?_set, Dict.get?_set] at hpolicy
    split at hpolicy
    · exact Option.some.inj hpolicy ▸ rfl
    · split at hpolicy
      · exact Option.some.inj hpolicy ▸ rfl
      · cases hpolicy
  have hthroughout := h (.empty "node1") twoPolicies [bothDue] henabled (List.pairwise_singleton ..)
  have hrun : (run (runDuePolicies LocalEngine.adapter)
      (Scheduler.init (.empty "node1") twoPolicies) [bothDue]).map (fun s =>
        ((s.policies.get? "p1").map SnapshotPolicy.retentionCount, ofPolicy s.made "p1",
          (s.protection.store.getSnapshot "s1").isNone)) = some (some 1, ["s1"], true) := by
    decide +kernel
  obtain ⟨s, hs, hpair⟩ := Option.map_eq_some_iff.mp hrun
  obtain ⟨hpolicy, hpair⟩ := Prod.mk.inj hpair
  obtain ⟨hmade, hgone⟩ := Prod.mk.inj hpair
  obtain ⟨policy, hpolicy, hcount⟩ := Option.map_eq_some_iff.mp hpolicy
  obtain ⟨row, hrow, -⟩ := hthroughout.of_run hs "p1" policy hpolicy "s1" (by
    rw [hmade, hcount]
    exact List.mem_cons_self)
  rw [hrow] at hgone
  cases hgone

end Scheduler

end NanoFabric.Storage
