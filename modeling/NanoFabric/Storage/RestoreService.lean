import NanoFabric.Storage.SnapshotStore

/-!
# The restore service

`RestoreService.restore_snapshot` of `storage/restore_service.py` over any block writer, as one call
that nothing interrupts. A step of it either succeeds or raises, and keeps what it did before it
raised.

* `forEach` — a loop that stops at the first exception; `forEach_eq_error` has what it did before.
* `restoreSnapshot_completed` — a restore that ends `COMPLETED` made all its calls.

The rows of restore jobs are left out, and so is the time of a job. The blocks that the snapshot has
no entry for are those of a set, which has any order.
-/

namespace NanoFabric.Storage

open NanoFabric.Found

/-! ## Steps that may raise -/

/-- Calls that change `W` and may raise. -/
abbrev Call (W : Type) := W → W × Except String Unit

/-- A loop over calls, up to the first exception. -/
def forEach {W α : Type} (f : α → Call W) : List α → Call W
  | [], w => (w, .ok ())
  | a :: l, w =>
      match f a w with
      | (w', .ok ()) => forEach f l w'
      | (w', .error e) => (w', .error e)

/-- A call, and another one if it returns. -/
def Call.andThen {W : Type} (f g : Call W) : Call W := fun w =>
  match f w with
  | (w', .ok ()) => g w'
  | (w', .error e) => (w', .error e)

theorem Call.andThen_of_ok {W : Type} {f : Call W} {w w' : W} (h : f w = (w', .ok ())) (g : Call W) :
    f.andThen g w = g w' := by
  rw [andThen, h]

theorem Call.andThen_of_error {W : Type} {f : Call W} {w w' : W} {e : String}
    (h : f w = (w', .error e)) (g : Call W) : f.andThen g w = (w', .error e) := by
  rw [andThen, h]

/-- What every call of a loop keeps, the loop keeps. -/
theorem forEach_induction {W α : Type} {f : α → Call W} {l : List α} {P : W → Prop}
    (hf : ∀ a ∈ l, ∀ w, P w → P (f a w).1) {w : W} (hw : P w) : P (forEach f l w).1 := by
  induction l generalizing w with
  | nil => exact hw
  | cons a l ih =>
      have ha := hf a List.mem_cons_self w hw
      unfold forEach
      split
      · rename_i w' hfa
        rw [hfa] at ha
        exact ih (fun a' ha' => hf a' (List.mem_cons_of_mem a ha')) ha
      · rename_i w' err hfa
        rwa [hfa] at ha

section forEach

variable {W α β : Type} {f : α → Call W} {l l' : List α} {a : α} {w w' : W} {e : String}

theorem forEach_map (f : α → Call W) (g : β → α) (l : List β) (w : W) :
    forEach f (l.map g) w = forEach (fun b => f (g b)) l w := by
  induction l generalizing w with
  | nil => rfl
  | cons b l ih =>
      rw [List.map_cons]
      unfold forEach
      simp only [ih]

theorem forEach_append_of_ok {w₁ : W} (h : forEach f l w = (w₁, .ok ())) :
    forEach f (l ++ l') w = forEach f l' w₁ := by
  induction l generalizing w with
  | nil => rw [← (Prod.mk.inj h).1, List.nil_append]
  | cons a l ih =>
      rw [List.cons_append]
      unfold forEach at h
      split at h
      · rename_i w₂ ha
        rw [forEach, ha]
        exact ih h
      · cases (Prod.mk.inj h).2

theorem forEach_append_of_error {w₁ : W} (h : forEach f l w = (w₁, .error e)) :
    forEach f (l ++ l') w = (w₁, .error e) := by
  induction l generalizing w with
  | nil => cases (Prod.mk.inj h).2
  | cons a l ih =>
      rw [List.cons_append]
      unfold forEach at h
      split at h
      · rename_i w₂ ha
        rw [forEach, ha]
        exact ih h
      · rename_i w₂ err ha
        rw [forEach, ha]
        exact h

/-- If all calls of a loop return, then so do those of its two parts. -/
theorem forEach_append_eq_ok (h : forEach f (l ++ l') w = (w', .ok ())) :
    ∃ w₁, forEach f l w = (w₁, .ok ()) ∧ forEach f l' w₁ = (w', .ok ()) := by
  rcases hl : forEach f l w with ⟨w₁, err | ⟨⟩⟩
  · rw [forEach_append_of_error hl] at h
    cases (Prod.mk.inj h).2
  · exact ⟨w₁, rfl, (forEach_append_of_ok hl).symm.trans h⟩

theorem forEach_cons_eq_ok (h : forEach f (a :: l) w = (w', .ok ())) :
    ∃ w₁, f a w = (w₁, .ok ()) ∧ forEach f l w₁ = (w', .ok ()) := by
  unfold forEach at h
  split at h
  · rename_i w₁ ha
    exact ⟨w₁, ha, h⟩
  · cases (Prod.mk.inj h).2

/-- A loop that raises has made the calls before the one that raises. -/
theorem forEach_eq_error (h : forEach f l w = (w', .error e)) : ∃ done a rest w₁,
    l = done ++ a :: rest ∧ forEach f done w = (w₁, .ok ()) ∧ f a w₁ = (w', .error e) := by
  induction l generalizing w with
  | nil => cases (Prod.mk.inj h).2
  | cons a l ih =>
      unfold forEach at h
      split at h
      · rename_i w₂ ha
        obtain ⟨done, a', rest, w₁, rfl, hdone, ha'⟩ := ih h
        refine ⟨a :: done, a', rest, w₁, rfl, ?_, ha'⟩
        rw [forEach, ha]
        exact hdone
      · rename_i w₂ err ha
        exact ⟨[], a, l, w, rfl, rfl, ha.trans h⟩

end forEach

/-! ## The service -/

/-- An order in which the elements of a set are met, for each list that has them. -/
structure SetOrder where
  iterate : List String → List String
  perm : ∀ l, (iterate l).Perm l

/-- The order of the list. -/
def SetOrder.asListed : SetOrder := ⟨id, .refl⟩

/-- A block writer with the callbacks of a restore, and the order in which the surplus blocks come.
Source: `storage/restore_service.py`, `BlockWriter`, `RestoreService`. -/
structure RestoreWiring (W : Type) where
  writeLocal (blockId data : String) (version : ℤ) : Call W
  deleteLocal (blockId : String) (version : ℤ) : Call W
  listBlocks : W → List String
  restorePlacement (blockId : String) (version : ℤ) (nodes : List String) : Call W
  clearBlocks : Option (Call W)
  order : SetOrder

/-- Source: `storage/models.py`, `RestoreJobStatus`. -/
inductive RestoreJobStatus
  | pending
  | running
  | completed
  | failed
deriving DecidableEq, Repr

/-- How a restore ended.
Source: `storage/models.py`, `RestoreJob`. -/
structure RestoreJob where
  sourceId : String
  status : RestoreJobStatus
  error : Option String
deriving DecidableEq, Repr

variable {W : Type}

/-- Writes or deletes a block as the snapshot has it.
Source: `storage/restore_service.py`, `restore_snapshot`. -/
def RestoreWiring.restoreBlock (R : RestoreWiring W) (block : SnapshotBlock) : Call W :=
  if block.deleted then R.deleteLocal block.blockId block.version
  else R.writeLocal block.blockId (block.data.getD "") block.version

/-- The purge, if there is one. -/
def RestoreWiring.clear (R : RestoreWiring W) : Call W := R.clearBlocks.getD fun w => (w, .ok ())

/-- The blocks that are listed and that the snapshot has no entry for. -/
def RestoreWiring.stale (R : RestoreWiring W) (blocks : List SnapshotBlock) (w : W) : List String :=
  R.order.iterate ((R.listBlocks w).filter (· ∉ blocks.map SnapshotBlock.blockId))

theorem RestoreWiring.mem_stale {R : RestoreWiring W} {blocks : List SnapshotBlock} {w : W}
    {b : String} :
    b ∈ R.stale blocks w ↔ b ∈ R.listBlocks w ∧ b ∉ blocks.map SnapshotBlock.blockId := by
  unfold RestoreWiring.stale
  rw [(R.order.perm _).mem_iff, List.mem_filter, decide_eq_true_iff]

theorem RestoreWiring.nodup_stale {R : RestoreWiring W} {w : W} (h : (R.listBlocks w).Nodup)
    (blocks : List SnapshotBlock) : (R.stale blocks w).Nodup :=
  (R.order.perm _).nodup_iff.mpr (h.filter _)

/-- The calls of a restore: the purge, the blocks of the snapshot, the blocks that it does not have,
and the placements.
Source: `storage/restore_service.py`, `restore_snapshot`. -/
def RestoreWiring.apply (R : RestoreWiring W) (blocks : List SnapshotBlock)
    (placements : Dict String (List String)) : Call W :=
  R.clear.andThen ((forEach R.restoreBlock blocks : Call W).andThen fun w =>
    ((forEach (fun blockId => R.deleteLocal blockId 9999) (R.stale blocks w) : Call W).andThen
      (forEach (fun item => R.restorePlacement item.1 1 item.2) placements.entries)) w)

/-- The store and the blocks after a restore, and the job.
Source: `storage/restore_service.py`, `restore_snapshot`. -/
def RestoreWiring.restoreSnapshot (R : RestoreWiring W) (store : SnapshotStore) (w : W)
    (snapshotId : String) : SnapshotStore × W × RestoreJob :=
  match store.getSnapshot snapshotId with
  | none => (store, w, ⟨snapshotId, .failed, some ("Snapshot '" ++ snapshotId ++ "' not found")⟩)
  | some snapshot =>
      if snapshot.status ∉ [.ready, .failed] then
        (store, w, ⟨snapshotId, .failed, some ("Snapshot status is " ++ snapshot.status.value)⟩)
      else
        let marked := store.updateStatus snapshotId .restoring
        match R.apply (marked.getSnapshotBlocks snapshotId) snapshot.placements w with
        | (w', .ok ()) => (marked.updateStatus snapshotId .ready, w', ⟨snapshotId, .completed, none⟩)
        | (w', .error e) => (marked.updateStatus snapshotId .ready, w', ⟨snapshotId, .failed, some e⟩)

/-- A restore that ends `COMPLETED` made all its calls. -/
theorem RestoreWiring.restoreSnapshot_completed {R : RestoreWiring W} {store : SnapshotStore} {w : W}
    {sid : String} (h : (R.restoreSnapshot store w sid).2.2.status = .completed) :
    ∃ snapshot, store.getSnapshot sid = some snapshot ∧
      R.apply (store.getSnapshotBlocks sid) snapshot.placements w =
        ((R.restoreSnapshot store w sid).2.1, .ok ()) := by
  unfold RestoreWiring.restoreSnapshot at h ⊢
  split at h
  · cases h
  · rename_i snapshot hsnap
    refine ⟨snapshot, hsnap, ?_⟩
    split_ifs at h ⊢ with hstatus
    simp only at h ⊢
    split at h
    · rename_i w' happly
      exact happly
    · cases h

end NanoFabric.Storage
