import NanoFabric.Storage.EngineRestore

/-!
# A restore that fails

`RestoreService` of `storage/restore_service.py` undoes nothing: when a call raises, the purge and the
calls before it stay. The purge and any write, delete or placement update may raise, for a reason of
its own or because of what it finds, and before or after it has stored anything: `purge_all_blocks`,
`write_local` and `delete_local` write the manifest once the rows are committed.

* `left_of_restoreRaises` — what the calls have left that had stored something when one raised.
* `unchanged_iff_leavesAlone` — this is what was there just when the newest copy of every block shows
  what was live, and every placement was there.
* `failedRestore_iff` — so for a restore of a snapshot or a backup that ends `FAILED`.
-/

namespace NanoFabric.Storage

open NanoFabric.Found
open NanoFabric.Metadata (BlockRow Placement)
open NanoFabric.Node (BlockCopy)

/-! ## Calls that raise -/

namespace RestoreWiring

variable {W : Type} {Same : W → W → Prop} {R R' : RestoreWiring W} {calls made : List RestoreCall}
  {w : W}

/-- The purge, and the calls that are made once it has returned. -/
def clearThen (R : RestoreWiring W) (calls : W → List RestoreCall) : Call W :=
  R.clear.andThen fun w => forEach R.perform (calls w) w

/-- Where `f` may raise as well, before it has stored anything or when it has stored all of it, and
`Same` is that the same is stored. -/
def MayRaiseCall (Same : W → W → Prop) (f f' : Call W) : Prop :=
  ∀ w, f' w = f w ∨ ∃ w' e, f' w = (w', .error e) ∧ (Same w w' ∨ Same (f w).1 w')

/-- Any call of `R`, the purge among them, may raise in `R'`. -/
structure MayRaise (Same : W → W → Prop) (R R' : RestoreWiring W) : Prop where
  clear : MayRaiseCall Same R.clear R'.clear
  perform : ∀ call, MayRaiseCall Same (R.perform call) (R'.perform call)

/-- The call raises when it has stored what it stores, or before that. -/
def RaisesWith (Same : W → W → Prop) (f f' : Call W) (w : W) (stored : Bool) : Prop :=
  ∃ w' e, f' w = (w', .error e) ∧
    if stored then ∃ w₁, f w = (w₁, .ok ()) ∧ Same w₁ w' else Same w w'

/-- One of the calls raises when `made` have stored what they store: those before it, which have
returned, and that one as well if it raises afterwards. -/
def RaisesAfter (Same : W → W → Prop) (R R' : RestoreWiring W) (calls : List RestoreCall) (w : W)
    (made : List RestoreCall) : Prop :=
  ∃ done call rest w₁ stored, calls = done ++ call :: rest ∧
    forEach R'.perform done w = (w₁, .ok ()) ∧
    RaisesWith Same (R.perform call) (R'.perform call) w₁ stored ∧
    made = if stored then done ++ [call] else done

/-- The purge raises, or it returns and a call raises later; `purged` is whether it has been stored. -/
def RestoreRaises (Same : W → W → Prop) (R R' : RestoreWiring W) (calls : W → List RestoreCall) (w : W)
    (purged : Bool) (made : List RestoreCall) : Prop :=
  RaisesWith Same R.clear R'.clear w purged ∧ made = [] ∨
    purged = true ∧ ∃ w₀, R'.clear w = (w₀, .ok ()) ∧ RaisesAfter Same R R' (calls w₀) w₀ made

/-- A restore of a snapshot raises when the purge and the calls `made` have stored what they store. -/
def SnapshotRaises (Same : W → W → Prop) (R R' : RestoreWiring W) (store : SnapshotStore) (w : W)
    (snapshotId : String) (purged : Bool) (made : List RestoreCall) : Prop :=
  ∃ snapshot, store.getSnapshot snapshotId = some snapshot ∧
    snapshot.status ∈ [.ready, .failed] ∧
    RestoreRaises Same R R'
      (R'.snapshotCalls (store.getSnapshotBlocks snapshotId) snapshot.placements) w purged made

/-- A restore of a backup raises when the purge and the calls `made` have stored what they store. -/
def BackupRaises (Same : W → W → Prop) (R R' : RestoreWiring W) (S : Backups) (w : W)
    (backupId : String) (purged : Bool) (made : List RestoreCall) : Prop :=
  ∃ archive, S.archiveOf backupId = .ok archive ∧
    RestoreRaises Same R R' (fun _ => backupCalls archive.blockList archive.metadata.placements) w
      purged made

/-- The calls that have stored something are the first ones. -/
theorem RaisesAfter.isPrefix (h : RaisesAfter Same R R' calls w made) : made <+: calls := by
  obtain ⟨done, call, rest, w₁, stored, rfl, -, -, rfl⟩ := h
  cases stored with
  | false => exact List.prefix_append _ _
  | true => exact ⟨rest, by rw [if_pos rfl, List.append_assoc, List.singleton_append]⟩

/-- A restore of a snapshot that ends `FAILED` did nothing, or a call raised. -/
theorem restoreSnapshot_failed {store : SnapshotStore} {sid : String}
    (h : (R.restoreSnapshot store w sid).2.2.status = .failed) :
    ((R.restoreSnapshot store w sid).2.1 = w ∧
        ∀ Same R₀ purged made, ¬ SnapshotRaises Same R₀ R store w sid purged made) ∨
      ∃ snapshot e, store.getSnapshot sid = some snapshot ∧ snapshot.status ∈ [.ready, .failed] ∧
        R.clearThen (R.snapshotCalls (store.getSnapshotBlocks sid) snapshot.placements) w =
          ((R.restoreSnapshot store w sid).2.1, .error e) := by
  unfold restoreSnapshot at h ⊢
  rcases hsnapshot : store.getSnapshot sid with _ | snapshot
  · refine .inl ⟨rfl, ?_⟩
    rintro Same R₀ purged made ⟨snapshot, hsome, -⟩
    rw [hsnapshot] at hsome
    cases hsome
  · rw [hsnapshot] at h
    simp only at h ⊢
    split_ifs at h ⊢ with hstatus
    · refine .inr ⟨snapshot, ?_⟩
      have hblocks : (store.updateStatus sid .restoring).getSnapshotBlocks sid =
          store.getSnapshotBlocks sid := rfl
      rw [hblocks] at h ⊢
      rw [clearThen, ← apply_eq_forEach]
      split at h
      · cases h
      · rename_i w' e happly
        exact ⟨e, rfl, hstatus, happly⟩
    · refine .inl ⟨rfl, ?_⟩
      rintro Same R₀ purged made ⟨snapshot', hsome, hstatus', -⟩
      rw [hsnapshot, Option.some.injEq] at hsome
      exact hstatus (hsome ▸ hstatus')

/-- A restore of a backup that ends `FAILED` did nothing, or a call raised. -/
theorem restoreBackup_failed {S : Backups} {bid : String}
    (h : (R.restoreBackup S w bid).2.status = .failed) :
    ((R.restoreBackup S w bid).1 = w ∧
        ∀ Same R₀ purged made, ¬ BackupRaises Same R₀ R S w bid purged made) ∨
      ∃ archive e, S.archiveOf bid = .ok archive ∧
        R.clearThen (fun _ => backupCalls archive.blockList archive.metadata.placements) w =
          ((R.restoreBackup S w bid).1, .error e) := by
  rcases harchive : S.archiveOf bid with err | archive
  · have hextract : S.extractBackupBlocks bid = .error err := by
      unfold Backups.extractBackupBlocks
      rw [harchive]
      rfl
    refine .inl ⟨?_, ?_⟩
    · unfold restoreBackup
      rw [hextract]
    · rintro Same R₀ purged made ⟨archive, hok, -⟩
      rw [harchive] at hok
      cases hok
  · obtain ⟨hworld, -⟩ := restoreBackup_eq (R := R) (w := w) harchive
    obtain ⟨metadata, hextract, hplacements⟩ := Backups.extractBackupBlocks_eq harchive
    refine .inr ⟨archive, ?_⟩
    rw [hworld, clearThen, ← applyBackup_eq_forEach]
    unfold restoreBackup at h
    rw [hextract] at h
    simp only [hplacements] at h
    split at h
    · cases h
    · rename_i w' e happly
      exact ⟨e, rfl, by rw [happly]⟩

/-- The wiring, the writes of which raise for one block when its row is committed. -/
def failing (R : RestoreWiring W) (blockId error : String) : RestoreWiring W :=
  { R with
    writeLocal := fun b data version w =>
      let out := R.writeLocal b data version w
      if b = blockId then (out.1, .error error) else out }

theorem mayRaise_failing (hrefl : ∀ w, Same w w) (R : RestoreWiring W) (blockId error : String) :
    MayRaise Same R (R.failing blockId error) where
  clear w := .inl rfl
  perform call w := by
    cases call with
    | write b data v =>
        by_cases hb : b = blockId
        · exact .inr ⟨_, error, if_pos hb, .inr (hrefl _)⟩
        · exact .inl (if_neg hb)
    | _ => exact .inl rfl

/-- A call that returns was made. -/
theorem MayRaiseCall.eq_ok {f f' : Call W} {w' : W} (h : MayRaiseCall Same f f')
    (hcall : f' w = (w', .ok ())) : f w = (w', .ok ()) := by
  rcases h w with hmade | ⟨w', e, hraise, -⟩
  · exact hmade.symm.trans hcall
  · rw [hraise] at hcall
    cases (Prod.mk.inj hcall).2

/-- A call that raises has stored what it stores, or nothing. -/
theorem MayRaiseCall.exists_raisesWith {f f' : Call W} {w' : W} {e : String}
    (h : MayRaiseCall Same f f') (hsame : ∀ {w w' e}, f w = (w', .error e) → Same w w')
    (htrans : ∀ {w w' w''}, Same w w' → Same w' w'' → Same w w'') (hcall : f' w = (w', .error e)) :
    ∃ stored, RaisesWith Same f f' w stored := by
  rcases h w with hmade | ⟨w₂, e', hraise, hleft⟩
  · exact ⟨false, w', e, hcall, hsame (hmade.symm.trans hcall)⟩
  · obtain ⟨rfl, -⟩ := Prod.mk.inj (hraise.symm.trans hcall)
    rcases hleft with hbefore | hafter
    · exact ⟨false, w₂, e, hcall, hbefore⟩
    · rcases hperform : f w with ⟨w₁, err | ⟨⟩⟩
      · -- the call has found a reason of its own to raise
        rw [hperform] at hafter
        exact ⟨false, w₂, e, hcall, htrans (hsame hperform) hafter⟩
      · rw [hperform] at hafter
        exact ⟨true, w₂, e, hcall, w₁, hperform, hafter⟩

/-- Calls that return were made. -/
theorem MayRaise.forEach_eq_ok {w' : W} (h : MayRaise Same R R')
    (hcalls : forEach R'.perform calls w = (w', .ok ())) :
    forEach R.perform calls w = (w', .ok ()) := by
  induction calls generalizing w with
  | nil => exact hcalls
  | cons call calls ih =>
      obtain ⟨w₁, hcall, hrest⟩ := forEach_cons_eq_ok hcalls
      rw [forEach, (h.perform call).eq_ok hcall]
      exact ih hrest

/-- A restore that raises does so when some of its calls have stored what they store. -/
theorem MayRaise.exists_restoreRaises {calls : W → List RestoreCall} {w' : W} {e : String}
    (h : MayRaise Same R R') (hclear : ∀ {w w' e}, R.clear w = (w', .error e) → Same w w')
    (hsame : ∀ {call w w' e}, R.perform call w = (w', .error e) → Same w w')
    (htrans : ∀ {w w' w''}, Same w w' → Same w' w'' → Same w w'')
    (hcalls : R'.clearThen calls w = (w', .error e)) :
    ∃ purged made, RestoreRaises Same R R' calls w purged made := by
  unfold clearThen at hcalls
  rcases hpurge : R'.clear w with ⟨w₀, err | ⟨⟩⟩
  · obtain ⟨purged, hraises⟩ := h.clear.exists_raisesWith hclear htrans hpurge
    exact ⟨purged, [], .inl ⟨hraises, rfl⟩⟩
  · rw [Call.andThen_of_ok hpurge] at hcalls
    obtain ⟨done, call, rest, w₁, hlist, hdone, hcall⟩ := forEach_eq_error hcalls
    obtain ⟨stored, hraises⟩ := (h.perform call).exists_raisesWith hsame htrans hcall
    exact ⟨true, _, .inr ⟨rfl, w₀, hpurge, done, call, rest, w₁, stored, hlist, hdone, hraises, rfl⟩⟩

end RestoreWiring

/-! ## What calls leave -/

namespace RestoreCall

/-- The copy that a call offers to a block. -/
def copyFor (blockId : String) : RestoreCall → Option BlockCopy
  | .write b data version => if b = blockId then some ⟨some data, version⟩ else none
  | .delete b version => if b = blockId then some ⟨none, version⟩ else none
  | _ => none

/-- The stored placements after a call that returns. -/
def save (rows : String → Option BlockRow) : RestoreCall → String → Option BlockRow
  | .place blockId nodes => Function.update rows blockId (some ⟨1, nodes.toFinset⟩)
  | _ => rows

/-- The block that a call places. -/
def placed : RestoreCall → Option String
  | .place blockId _ => some blockId
  | _ => none

variable {calls : List RestoreCall} {b : String} {nodes : List String}
  {rows : String → Option BlockRow}

theorem offer_apply (copies : String → Option BlockCopy) (call : RestoreCall) (b : String) :
    call.offer copies b = (call.copyFor b).toList.foldl (Register.put BlockCopy.key) (copies b) := by
  cases call with
  | write b' data v =>
      simp only [copyFor]
      split_ifs with hb
      · rw [← hb, offer_write]
        rfl
      · exact offer_of_ne fun htarget => hb (Option.some.inj htarget)
  | delete b' v =>
      simp only [copyFor]
      split_ifs with hb
      · rw [← hb, offer_delete]
        rfl
      · exact offer_of_ne fun htarget => hb (Option.some.inj htarget)
  | unreadable => rfl
  | place b' nodes => rfl

/-- What calls leave of a block is the newest of its copies. -/
theorem foldl_offer_apply (copies : String → Option BlockCopy) : calls.foldl offer copies b =
    (calls.filterMap (copyFor b)).foldl (Register.put BlockCopy.key) (copies b) := by
  induction calls generalizing copies with
  | nil => rfl
  | cons call calls ih =>
      rw [List.foldl_cons, ih, offer_apply, List.filterMap_cons]
      rcases call.copyFor b with _ | c <;> rfl

/-- What calls leave of a placement that they do not save. -/
theorem foldl_save_of_notMem (h : b ∉ calls.filterMap placed) :
    calls.foldl save rows b = rows b := by
  induction calls generalizing rows with
  | nil => rfl
  | cons call calls ih =>
      cases call with
      | place b' nodes =>
          rw [List.filterMap_cons, show (RestoreCall.place b' nodes).placed = some b' from rfl] at h
          obtain ⟨hb, hrest⟩ := List.ne_and_not_mem_of_not_mem_cons h
          rw [List.foldl_cons, ih hrest]
          exact Function.update_of_ne hb _ _
      | _ => exact ih h

/-- What calls leave of a placement that one of them saves. -/
theorem foldl_save_of_mem (hnodup : (calls.filterMap placed).Nodup)
    (h : RestoreCall.place b nodes ∈ calls) :
    calls.foldl save rows b = some ⟨1, nodes.toFinset⟩ := by
  obtain ⟨calls₁, calls₂, rfl⟩ := List.append_of_mem h
  rw [List.filterMap_append, List.nodup_append, List.filterMap_cons,
    show (RestoreCall.place b nodes).placed = some b from rfl, List.nodup_cons] at hnodup
  rw [List.foldl_append, List.foldl_cons, foldl_save_of_notMem hnodup.2.1.1]
  exact Function.update_self ..

/-- A restore saves the placement of a block once. -/
theorem nodup_placed {l : List RestoreCall} (placements : Dict String (List String))
    (h : ∀ call ∈ l, call.placed = none) :
    ((l ++ placementCalls placements).filterMap placed).Nodup := by
  have hplacements : (placementCalls placements).filterMap placed = placements.keys := by
    unfold placementCalls Dict.keys
    rw [List.filterMap_map]
    exact congrFun (List.filterMap_eq_map (f := Prod.fst)) _
  rw [List.filterMap_append, List.filterMap_eq_nil_iff.mpr h, hplacements]
  exact placements.nodup_keys

theorem placed_restoreCall (block : SnapshotBlock) : block.restoreCall.placed = none := by
  unfold SnapshotBlock.restoreCall
  split <;> rfl

theorem placed_archiveCall (block : SnapshotBlock) : block.archiveCall.placed = none := by
  unfold SnapshotBlock.archiveCall
  split
  · rfl
  · rcases block.data with _ | data <;> rfl

end RestoreCall

theorem RestoreWiring.nodup_placed_snapshotCalls {W : Type} (R : RestoreWiring W)
    (blocks : List SnapshotBlock) (placements : Dict String (List String)) (w : W) :
    ((R.snapshotCalls blocks placements w).filterMap RestoreCall.placed).Nodup := by
  unfold snapshotCalls
  rw [← List.append_assoc]
  refine RestoreCall.nodup_placed placements fun call hcall => ?_
  rcases List.mem_append.mp hcall with hcall | hcall
  · obtain ⟨block, -, rfl⟩ := List.mem_map.mp hcall
    exact RestoreCall.placed_restoreCall block
  · obtain ⟨b, -, rfl⟩ := List.mem_map.mp hcall
    rfl

theorem RestoreWiring.nodup_placed_backupCalls (blocks : List SnapshotBlock)
    (placements : Dict String (List String)) :
    ((backupCalls blocks placements).filterMap RestoreCall.placed).Nodup := by
  refine RestoreCall.nodup_placed placements fun call hcall => ?_
  obtain ⟨block, -, rfl⟩ := List.mem_map.mp hcall
  exact RestoreCall.placed_archiveCall block

/-! ## An engine and its placements -/

namespace LocalEngine

/-- A copy that is live. -/
def shown (c : Option BlockCopy) : Option BlockCopy := c.filter fun c => c.data.isSome

/-- The first of the copies with the greatest key. -/
def newest (c : Option BlockCopy) (offered : List BlockCopy) : Option BlockCopy :=
  offered.foldl (Register.put BlockCopy.key) c

/-- The live blocks, with their data and versions, and the stored placements are the same. -/
structure Unchanged (w w' : LocalEngine × Placement) : Prop where
  blocks : ∀ b, shown (w'.1.copies b) = shown (w.1.copies b)
  placements : ∀ b, w'.2.store.blocks.get? b = w.2.store.blocks.get? b

theorem Unchanged.refl (w : LocalEngine × Placement) : Unchanged w w := ⟨fun _ => rfl, fun _ => rfl⟩

/-- The rows of the blocks and the stored placements are the same. -/
def SameStored (w w' : LocalEngine × Placement) : Prop :=
  w'.1.copies = w.1.copies ∧ w'.2.store.blocks.get? = w.2.store.blocks.get?

theorem SameStored.refl (w : LocalEngine × Placement) : SameStored w w := ⟨rfl, rfl⟩

/-- The calls `made` of a restore amount to nothing: of every block, the newest of the copy that is
there, unless it is purged, and of the copies offered shows what was live, and every placement that
is saved is there. -/
structure LeavesAlone (purges : Bool) (w : LocalEngine × Placement) (made : List RestoreCall) :
    Prop where
  blocks : ∀ b, shown (newest (if purges then none else w.1.copies b)
    (made.filterMap (RestoreCall.copyFor b))) = shown (w.1.copies b)
  placements : ∀ b nodes, RestoreCall.place b nodes ∈ made →
    w.2.store.blocks.get? b = some ⟨1, nodes.toFinset⟩

variable {order : SetOrder} {purges : Bool} {w w' w'' : LocalEngine × Placement} {call : RestoreCall}
  {calls made : List RestoreCall} {e : String}

theorem SameStored.trans (h : SameStored w w') (h' : SameStored w' w'') : SameStored w w'' :=
  ⟨h'.1.trans h.1, h'.2.trans h.2⟩

/-- What a placement update leaves of the stored placements. -/
theorem rows_restorePlacement {p p' : Placement} {b : String} {nodes : List String}
    (h : restorePlacement b 1 nodes p = (p', .ok ())) :
    p'.store.blocks.get? = (RestoreCall.place b nodes).save p.store.blocks.get? := by
  unfold restorePlacement Placement.restorePlacement at h
  by_cases hfits : Placement.Fits 1 nodes
  · rw [Metadata.MetadataStore.savePlacement_of_fits hfits.1 hfits.2] at h
    obtain ⟨rfl, -⟩ := Prod.mk.inj h
    funext b'
    exact Dict.get?_set.trans (Function.update_apply _ _ _ _).symm
  · obtain ⟨err, herr⟩ :=
      Metadata.MetadataStore.savePlacement_of_not_fits (s := p.store) (b := b) hfits
    rw [herr] at h
    cases (Prod.mk.inj h).2

/-- A placement update that raises changes nothing. -/
theorem restorePlacement_error {p p' : Placement} {b : String} {v : ℤ} {nodes : List String}
    (h : restorePlacement b v nodes p = (p', .error e)) : p' = p := by
  unfold restorePlacement at h
  split at h
  · cases (Prod.mk.inj h).2
  · exact (Prod.mk.inj h).1.symm

/-- What a call that returns leaves of the stored placements. -/
theorem rows_perform
    (h : (restoringInto order purges restorePlacement).perform call w = (w', .ok ())) :
    w'.2.store.blocks.get? = call.save w.2.store.blocks.get? := by
  cases call with
  | place b nodes =>
      obtain ⟨rfl, hok⟩ := Prod.mk.inj h
      exact rows_restorePlacement (Prod.ext rfl hok)
  | unreadable => cases (Prod.mk.inj h).2
  | _ =>
      obtain ⟨rfl, -⟩ := Prod.mk.inj h
      rfl

/-- A call of the engine or of the placements that raises has stored nothing. -/
theorem sameStored_perform_error
    (h : (restoringInto order purges restorePlacement).perform call w = (w', .error e)) :
    SameStored w w' := by
  refine ⟨copies_perform_error h, ?_⟩
  cases call with
  | place b nodes =>
      obtain ⟨rfl, hraise⟩ := Prod.mk.inj h
      exact congrArg (fun p : Placement => p.store.blocks.get?)
        (restorePlacement_error (Prod.ext rfl hraise))
  | _ =>
      obtain ⟨rfl, -⟩ := Prod.mk.inj h
      rfl

/-- What calls that return leave of the stored placements. -/
theorem rows_forEach
    (h : forEach (restoringInto order purges restorePlacement).perform calls w = (w', .ok ())) :
    w'.2.store.blocks.get? = calls.foldl RestoreCall.save w.2.store.blocks.get? := by
  induction calls generalizing w with
  | nil => rw [← (Prod.mk.inj h).1, List.foldl_nil]
  | cons call calls ih =>
      obtain ⟨w₁, hcall, hcalls⟩ := forEach_cons_eq_ok h
      rw [List.foldl_cons, ih hcalls, rows_perform hcall]

section raises

open RestoreWiring (MayRaise RaisesWith RestoreRaises SnapshotRaises BackupRaises)

variable {R : RestoreWiring (LocalEngine × Placement)}

/-- What calls that return leave. -/
theorem left_of_forEach
    (h : forEach (restoringInto order purges restorePlacement).perform made (cleared purges w) =
      (w', .ok ())) :
    (∀ b, w'.1.copies b = newest (if purges then none else w.1.copies b)
      (made.filterMap (RestoreCall.copyFor b))) ∧
    w'.2.store.blocks.get? = made.foldl RestoreCall.save w.2.store.blocks.get? := by
  have hrows := rows_forEach h
  refine ⟨fun b => ?_, hrows⟩
  rw [copies_forEach h, RestoreCall.foldl_offer_apply, copies_cleared]
  rfl

/-- A restore that fails keeps what the calls have stored that had done so. -/
theorem left_of_restoreRaises (hR : MayRaise SameStored (restoringInto order purges restorePlacement) R)
    {calls : LocalEngine × Placement → List RestoreCall} {purged : Bool}
    (hraises : RestoreRaises SameStored (restoringInto order purges restorePlacement) R calls w purged
      made)
    (hcalls : R.clearThen calls w = (w', .error e)) :
    (∀ b, w'.1.copies b = newest (if purges && purged then none else w.1.copies b)
      (made.filterMap (RestoreCall.copyFor b))) ∧
    w'.2.store.blocks.get? = made.foldl RestoreCall.save w.2.store.blocks.get? := by
  unfold RestoreWiring.clearThen at hcalls
  rcases hraises with ⟨⟨w₂, e', hclear, hstored⟩, rfl⟩ |
    ⟨rfl, w₀, hclear, done, call, rest, w₁, stored, hlist, hdone, ⟨w₂, e', hcall, hstored⟩, rfl⟩
  · -- the purge has raised
    rw [Call.andThen_of_error hclear] at hcalls
    obtain rfl : w₂ = w' := congrArg Prod.fst hcalls
    cases purged with
    | false =>
        obtain ⟨hcopies, hrows⟩ := hstored
        rw [Bool.and_false]
        exact ⟨fun b => congrFun hcopies b, hrows⟩
    | true =>
        obtain ⟨w₁, hpurged, hcopies, hrows⟩ := hstored
        obtain rfl : cleared purges w = w₁ :=
          congrArg Prod.fst ((clear_restoringInto w).symm.trans hpurged)
        rw [Bool.and_true]
        exact ⟨fun b => (congrFun hcopies b).trans (copies_cleared purges w b), hrows⟩
  · rw [Call.andThen_of_ok hclear, hlist, forEach_append_of_ok hdone, forEach, hcall] at hcalls
    obtain rfl : w₂ = w' := congrArg Prod.fst hcalls
    obtain rfl : cleared purges w = w₀ :=
      congrArg Prod.fst ((clear_restoringInto w).symm.trans (hR.clear.eq_ok hclear))
    have hreturned := hR.forEach_eq_ok hdone
    rw [Bool.and_true]
    cases stored with
    | false =>
        obtain ⟨hcopies, hrows⟩ := hstored
        obtain ⟨hleft, hplaced⟩ := left_of_forEach hreturned
        exact ⟨fun b => (congrFun hcopies b).trans (hleft b), hrows.trans hplaced⟩
    | true =>
        obtain ⟨w₃, hperform, hcopies, hrows⟩ := hstored
        have hthird : forEach (restoringInto order purges restorePlacement).perform (done ++ [call])
            (cleared purges w) = (w₃, .ok ()) := by
          rw [forEach_append_of_ok hreturned, forEach, hperform]
          rfl
        obtain ⟨hleft, hplaced⟩ := left_of_forEach hthird
        exact ⟨fun b => (congrFun hcopies b).trans (hleft b), hrows.trans hplaced⟩

/-- This is what was there just when the calls amount to nothing. -/
theorem unchanged_iff_leavesAlone
    (hR : MayRaise SameStored (restoringInto order purges restorePlacement) R)
    {calls : LocalEngine × Placement → List RestoreCall}
    (hcalls : R.clearThen calls w = (w', .error e))
    (hplaced : ∀ w, ((calls w).filterMap RestoreCall.placed).Nodup) :
    Unchanged w w' ↔ ∀ purged made,
      RestoreRaises SameStored (restoringInto order purges restorePlacement) R calls w purged made →
        LeavesAlone (purges && purged) w made := by
  have hiff : ∀ purged made,
      RestoreRaises SameStored (restoringInto order purges restorePlacement) R calls w purged made →
        (Unchanged w w' ↔ LeavesAlone (purges && purged) w made) := by
    intro purged made hraises
    obtain ⟨hcopies, hrows⟩ := left_of_restoreRaises hR hraises hcalls
    have hnodup : (made.filterMap RestoreCall.placed).Nodup := by
      rcases hraises with ⟨-, rfl⟩ | ⟨-, w₀, -, hafter⟩
      · exact List.nodup_nil
      · exact (hplaced w₀).sublist (hafter.isPrefix.sublist.filterMap _)
    constructor
    · rintro ⟨hblocks, hplacements⟩
      refine ⟨fun b => ?_, fun b nodes hplace => ?_⟩
      · rw [← hcopies]
        exact hblocks b
      · rw [← hplacements, hrows]
        exact RestoreCall.foldl_save_of_mem hnodup hplace
    · rintro ⟨hblocks, hplacements⟩
      refine ⟨fun b => ?_, fun b => ?_⟩
      · rw [hcopies]
        exact hblocks b
      · rw [hrows]
        by_cases hb : b ∈ made.filterMap RestoreCall.placed
        · obtain ⟨call', hcall', heq⟩ := List.mem_filterMap.mp hb
          cases call' with
          | place b' nodes =>
              obtain rfl := Option.some.inj heq
              rw [RestoreCall.foldl_save_of_mem hnodup hcall', hplacements _ _ hcall']
          | _ => cases heq
        · exact RestoreCall.foldl_save_of_notMem hb
  constructor
  · exact fun h purged made hraises => (hiff purged made hraises).mp h
  · intro h
    obtain ⟨purged, made, hraises⟩ := hR.exists_restoreRaises
      (fun hclear => absurd ((clear_restoringInto _).symm.trans hclear) fun hne =>
        by cases (Prod.mk.inj hne).2)
      sameStored_perform_error SameStored.trans hcalls
    exact (hiff purged made hraises).mpr (h purged made hraises)

/-- **A restore of a snapshot or a backup that ends `FAILED`, at whatever call it raised and whether or
not that call had stored anything, changed nothing just when the calls that had amount to nothing.** -/
theorem failedRestore_iff (hR : MayRaise SameStored (restoringInto order purges restorePlacement) R)
    (w : LocalEngine × Placement) :
    (∀ store sid, (R.restoreSnapshot store w sid).2.2.status = .failed →
      (Unchanged w (R.restoreSnapshot store w sid).2.1 ↔
        ∀ purged made, SnapshotRaises SameStored (restoringInto order purges restorePlacement) R store w
          sid purged made → LeavesAlone (purges && purged) w made)) ∧
    ∀ S bid, (R.restoreBackup S w bid).2.status = .failed →
      (Unchanged w (R.restoreBackup S w bid).1 ↔
        ∀ purged made, BackupRaises SameStored (restoringInto order purges restorePlacement) R S w bid
          purged made → LeavesAlone (purges && purged) w made) := by
  constructor
  · intro store sid hfailed
    rcases RestoreWiring.restoreSnapshot_failed hfailed with ⟨hsame, hnone⟩ |
      ⟨snapshot, e, hsnapshot, hstatus, hcalls⟩
    · rw [hsame]
      exact iff_of_true (.refl w) fun purged made hraises => absurd hraises (hnone _ _ _ made)
    · rw [unchanged_iff_leavesAlone hR hcalls (R.nodup_placed_snapshotCalls _ _)]
      refine forall_congr' fun purged => forall_congr' fun made =>
        imp_congr_left ⟨fun h => ⟨snapshot, hsnapshot, hstatus, h⟩, ?_⟩
      rintro ⟨snapshot', hsnapshot', -, h⟩
      rw [hsnapshot, Option.some.injEq] at hsnapshot'
      exact hsnapshot' ▸ h
  · intro S bid hfailed
    rcases RestoreWiring.restoreBackup_failed hfailed with ⟨hsame, hnone⟩ |
      ⟨archive, e, harchive, hcalls⟩
    · rw [hsame]
      exact iff_of_true (.refl w) fun purged made hraises => absurd hraises (hnone _ _ _ made)
    · rw [unchanged_iff_leavesAlone hR hcalls fun _ =>
        RestoreWiring.nodup_placed_backupCalls _ _]
      refine forall_congr' fun purged => forall_congr' fun made =>
        imp_congr_left ⟨fun h => ⟨archive, harchive, h⟩, ?_⟩
      rintro ⟨archive', harchive', h⟩
      rw [harchive, Except.ok.injEq] at harchive'
      exact harchive' ▸ h

/-- An engine with a newer version of a block of `Backups.pairSnapshot "a" "b"`, and without the other
one. -/
def newerEngine : LocalEngine × Placement :=
  ((LocalEngine.empty "node1").call (.writeLocal "b" "newer" (.resolve (some 2)) none none), .empty)

/-- A restore that purges, and the disk of which is full when the manifest is written after the second
block. -/
theorem failedRestore_iff_diskFull : ∃ store, Backups.pairSnapshot "a" "b" = some store ∧
    (Unchanged newerEngine (((restoringInto .asListed true restorePlacement).failing "b"
        "No space left on device").restoreSnapshot store newerEngine "s1").2.1 ↔
      ∀ purged made, SnapshotRaises SameStored (restoringInto .asListed true restorePlacement)
        ((restoringInto .asListed true restorePlacement).failing "b" "No space left on device")
          store newerEngine "s1" purged made → LeavesAlone (true && purged) newerEngine made) := by
  have hrun : (Backups.pairSnapshot "a" "b").map (fun store => (((restoringInto .asListed true
      restorePlacement).failing "b" "No space left on device").restoreSnapshot store newerEngine
        "s1").2.2.status) = some .failed := by decide +kernel
  obtain ⟨store, hstore, hfailed⟩ := Option.map_eq_some_iff.mp hrun
  exact ⟨store, hstore, (failedRestore_iff (RestoreWiring.mayRaise_failing SameStored.refl _ _ _)
    newerEngine).1 store "s1" hfailed⟩

/-- The first block is written before the second one is refused. -/
theorem failedRestore_counterexample : ¬ ∀ (purges : Bool) (w : LocalEngine × Placement)
    (store : SnapshotStore) (sid : String),
    ((restoringInto .asListed purges restorePlacement).restoreSnapshot store w sid).2.2.status =
      .failed →
    Unchanged w ((restoringInto .asListed purges restorePlacement).restoreSnapshot store w sid).2.1 := by
  intro h
  have hrun : (Backups.pairSnapshot "a" "b").map (fun store =>
      let out := (restoringInto .asListed false restorePlacement).restoreSnapshot store newerEngine "s1"
      (out.2.2.status, out.2.1.1.copies "a", newerEngine.1.copies "a")) =
      some (.failed, some ⟨some "x", 1⟩, none) := by decide +kernel
  obtain ⟨store, -, hout⟩ := Option.map_eq_some_iff.mp hrun
  obtain ⟨hfailed, hcopies⟩ := Prod.mk.inj hout
  obtain ⟨hafter, hbefore⟩ := Prod.mk.inj hcopies
  have hsame := (h false newerEngine store "s1" hfailed).blocks "a"
  rw [hafter, hbefore] at hsame
  cases hsame

end raises

end LocalEngine

end NanoFabric.Storage
