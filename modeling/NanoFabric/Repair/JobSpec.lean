import NanoFabric.Repair.Redundancy

/-!
# What a job does

The job store, seen through `getJob`, and a job that copies a live block to a node outside its
placement, while all nodes of the placement are up and answer.

* `createJob_of_idle`, `updateJobStatus_of_storable` — what the calls of the store leave.
* `copyVerified_of_accepts`, `copyVerified_of_buried` — the copy is verified unless the target has a
  tombstone that is no older.
-/

namespace NanoFabric.Metadata.RepairJobStore

open NanoFabric.Found
open NanoFabric.Node (Bindable)

variable {s : RepairJobStore} {job : RepairJob} {jobId : String} {now : ℤ}

theorem mem_listJobsByStatus {statuses : List RepairStatus} :
    job ∈ s.listJobsByStatus statuses ↔
      s.getJob job.jobId = some job ∧ job.status ∈ statuses := by
  unfold listJobsByStatus
  rw [List.mem_insertionSort, List.mem_filter, ← mem_listAllJobs]
  unfold listAllJobs
  rw [List.mem_insertionSort, decide_eq_true_iff]

/-- No job is active. -/
def Idle (s : RepairJobStore) : Prop :=
  ∀ jobId job, s.getJob jobId = some job → job.status ∉ [.pending, .copying, .verifying]

theorem Idle.findActiveJob (h : Idle s) (blockId targetNode : String) (repairType : RepairType) :
    s.findActiveJob blockId targetNode repairType = none := by
  unfold RepairJobStore.findActiveJob
  rw [List.head?_eq_none_iff, List.filter_eq_nil_iff]
  intro job hjob
  have hidle := h _ job (mem_listAllJobs.mp hjob)
  simp only [decide_eq_true_eq]
  exact fun hactive => hidle hactive.2.2.2

theorem Idle.listJobsByStatus (h : Idle s) : s.listJobsByStatus [.pending] = [] := by
  rw [List.eq_nil_iff_forall_not_mem]
  intro job hjob
  obtain ⟨hjob, hstatus⟩ := mem_listJobsByStatus.mp hjob
  exact h _ job hjob (List.mem_cons.mpr (Or.inl (List.mem_singleton.mp hstatus)))

theorem upsertJob_of_storable (h : job.Storable) : ∃ s', s.upsertJob job = .ok s' ∧
    ∀ jobId, s'.getJob jobId = if jobId = job.jobId then some job else s.getJob jobId := by
  unfold upsertJob
  rw [dif_pos h]
  exact ⟨_, rfl, fun jobId => Dict.get?_set⟩

theorem storable_updated (status : RepairStatus) (lastError : Option String) (inc : Bool)
    (h : job.Storable) (hattempts : job.attemptCount < 5) (hnow : Bindable now) :
    (updated job status lastError inc now).Storable := by
  obtain ⟨hversion, hcount, hcreated, -, hcompleted⟩ := h
  refine ⟨hversion, ?_, hcreated, hnow, ?_⟩
  · unfold updated
    unfold Bindable at hcount ⊢
    simp only
    split <;> omega
  · unfold updated
    simp only
    split
    · rintro t ht
      obtain rfl := Option.some.inj ht
      exact hnow
    · exact hcompleted

/-- An update of a job is stored and changes that job alone. -/
theorem updateJobStatus_of_storable (status : RepairStatus) (lastError : Option String) (inc : Bool)
    (hjob : s.getJob jobId = some job) (hattempts : job.attemptCount < 5) (hnow : Bindable now) :
    ∃ s', s.updateJobStatus jobId status lastError inc now = .ok s' ∧
      ∀ jobId', s'.getJob jobId' =
        if jobId' = jobId then some (updated job status lastError inc now) else s.getJob jobId' := by
  obtain ⟨hid, hstorable⟩ := s.checked jobId job hjob
  obtain ⟨s', hok, hget⟩ := upsertJob_of_storable (s := s)
    (storable_updated status lastError inc hstorable hattempts hnow)
  refine ⟨s', ?_, fun jobId' => ?_⟩
  · unfold updateJobStatus
    rw [if_neg (not_not.mpr hnow), hjob]
    exact hok
  · rw [hget, ← hid]
    rfl

theorem bindable_zero : Bindable 0 := by decide

/-- A job with a fresh id is stored if none is active. -/
theorem Idle.createJob (blockId sourceNode targetNode : String) {version : ℤ}
    (repairType : RepairType) (h : Idle s) (hfresh : s.getJob jobId = none) (hnow : Bindable now)
    (hversion : Bindable version) : ∃ s', s.createJob blockId sourceNode targetNode version
        repairType jobId now = .ok (s', ⟨jobId, blockId, sourceNode, targetNode, version, repairType,
          .pending, 0, none, now, now, none⟩) ∧
      ∀ jobId', s'.getJob jobId' = if jobId' = jobId then
        some ⟨jobId, blockId, sourceNode, targetNode, version, repairType, .pending, 0, none, now,
          now, none⟩ else s.getJob jobId' := by
  have hstorable : (⟨jobId, blockId, sourceNode, targetNode, version, repairType, .pending, 0, none,
      now, now, none⟩ : RepairJob).Storable :=
    ⟨hversion, bindable_zero, hnow, hnow, by simp⟩
  obtain ⟨s', hok, hget⟩ := upsertJob_of_storable (s := s) hstorable
  refine ⟨s', ?_, hget⟩
  unfold RepairJobStore.createJob
  rw [h.findActiveJob, hfresh]
  simp only [Option.isSome_none, Bool.false_eq_true, if_false, hok]
  rfl

end NanoFabric.Metadata.RepairJobStore

namespace NanoFabric.Repair

open NanoFabric.Found
open NanoFabric.Metadata
open NanoFabric.Node (Bindable BlockRecord Row StorageEngine)
open NanoFabric.Storage

namespace RepairState

variable {s s' : RepairState} {b source target : String} {v : ℤ} {L : List String} {row : Row}

/-! ## Copies -/

/-- Two nodes that answer, of which the first has a live copy of a block that the second may take or
has as well. -/
structure Copyable (s : RepairState) (b source target : String) (row : Row) : Prop where
  named : b ≠ ""
  carried : s.Carries b
  ne : source ≠ target
  sourceAnswers : s.cluster.reaches s.silent source = true
  targetAnswers : s.cluster.reaches s.silent target = true
  held : (s.cluster.nodes source).liveRow b = some row
  pos : 1 ≤ row.version ∧ 1 ≤ row.originLsn
  bindable : Bindable row.version ∧ Bindable row.originLsn
  agrees : ∀ row', (s.cluster.nodes target).liveRow b = some row' →
    row'.data = row.data ∧ row'.version = row.version

/-- The search for a missing node raises at no addresses that the HTTP client takes. -/
theorem findMissingNode_of_taken (hb : s.Carries b) {L : List String} (htaken : ∀ n ∈ L, s.Taken n)
    (unhealthy : List String) : s.findMissingNode b L unhealthy =
      .ok ((L.find? (· ∈ unhealthy)).or (L.find? fun n => s.hasBlock n b ≠ some true)) := by
  unfold findMissingNode
  rcases L.find? (· ∈ unhealthy) with _ | n
  · rw [Option.none_or]
    rcases hlacking : L.find? (fun n => s.hasBlock n b ≠ some true) with _ | n
    · rfl
    · simp only
      rw [(htaken n (List.mem_of_find?_eq_some hlacking)).invalidUrl hb]
      rfl
  · rfl

/-- The request of a copy. -/
def copyRequest (b source : String) (row : Row) : RequestBody :=
  ⟨b, some (row.data.getD ""), row.version, some row.originLsn, some source⟩

/-- The state after a copy. -/
def copied (s : RepairState) (b source target : String) (row : Row) : RepairState :=
  s.setNode target ((s.cluster.nodes target).replicate (copyRequest b source row)).1

/-- The target of a copy is posted the request, if there is a valid one. -/
theorem copyBlock_of_reaches (hb : s.Carries b) (hsource : s.cluster.reaches s.silent source = true)
    (htarget : s.cluster.reaches s.silent target = true)
    (hrow : (s.cluster.nodes source).liveRow b = some row) :
    RepairState.copyBlock b source target s =
      match ReplicateRequest.validate (copyRequest b source row) with
      | none => (s, .error .invalidRequest)
      | some _ => (s.copied b source target row,
          .ok (decide (((s.cluster.nodes target).replicate (copyRequest b source row)).2 < 400))) := by
  have hlive := (LocalEngine.liveRow_eq_some.mp hrow).2
  have hreach := htarget
  unfold Cluster.reaches at hreach
  rw [Bool.and_eq_true, Option.any_eq_true, decide_eq_true_iff] at hreach
  obtain ⟨⟨address, haddress, htakes⟩, hanswers⟩ := hreach
  unfold RepairState.copyBlock
  rw [readBlock_of_reaches hb hsource, hrow]
  simp only [Option.elim_some, StorageEngine.blockRecord, hlive, Bool.false_eq_true, if_false,
    haddress, htakes, hanswers]
  rfl

theorem Copyable.validate (h : s.Copyable b source target row) :
    ReplicateRequest.validate (copyRequest b source row) =
      some ⟨⟨b, row.version, row.originLsn, source, h.named, h.pos.1, h.pos.2,
        ne_blank_of_reaches h.sourceAnswers⟩, row.data.getD ""⟩ :=
  LocalEngine.validate_eq_some ⟨h.named, h.pos.1, h.pos.2, ne_blank_of_reaches h.sourceAnswers⟩

/-- The target is posted the copy. -/
theorem Copyable.copyBlock (h : s.Copyable b source target row) :
    copyBlock b source target s =
      (s.setNode target ((s.cluster.nodes target).replicate (copyRequest b source row)).1,
        .ok (decide (((s.cluster.nodes target).replicate (copyRequest b source row)).2 < 400))) := by
  rw [copyBlock_of_reaches h.carried h.sourceAnswers h.targetAnswers h.held, h.validate]
  rfl

/-- The target has no tombstone of the block that is as new as its copies. -/
def Accepts (s : RepairState) (b target : String) : Prop :=
  ∀ grave, (s.cluster.nodes target).rows b = some grave → grave.deleted = true →
    ∀ n ∈ s.healthyNodes, ∀ row, (s.cluster.nodes n).liveRow b = some row →
      grave.version < row.version

/-- A node that accepts the copy acknowledges it, and then has a live row that agrees with it. -/
theorem Copyable.copied_of_accepts (h : s.Copyable b source target row)
    (hup : source ∈ s.healthyNodes) (haccepts : s.Accepts b target) :
    ((s.cluster.nodes target).replicate (copyRequest b source row)).2 = 200 ∧
      ∃ row', ((s.cluster.nodes target).replicate (copyRequest b source row)).1.liveRow b = some row' ∧
        row'.data.getD "" = row.data.getD "" ∧ row'.version = row.version := by
  rcases hlive : (s.cluster.nodes target).liveRow b with _ | row'
  · -- nothing live: the copy becomes the row
    obtain ⟨hcode, hrow⟩ := LocalEngine.replicate_accepts h.validate h.bindable (by
      intro grave hgrave
      have hdel : grave.deleted = true := by
        by_contra hno
        have := LocalEngine.liveRow_eq_some.mpr ⟨hgrave, by simpa using hno⟩
        rw [hlive] at this
        cases this
      exact ⟨hdel, haccepts grave hgrave hdel source hup row h.held⟩)
    exact ⟨hcode, _, LocalEngine.liveRow_eq_some.mpr ⟨hrow, rfl⟩, rfl, rfl⟩
  · obtain ⟨hrow, hdel⟩ := LocalEngine.liveRow_eq_some.mp hlive
    obtain ⟨hdata, hversion⟩ := h.agrees row' hlive
    obtain ⟨hcode, hrow'⟩ := LocalEngine.replicate_already h.validate hrow hdel hversion
    exact ⟨hcode, row', LocalEngine.liveRow_eq_some.mpr ⟨hrow', hdel⟩, by rw [hdata], hversion⟩

/-- A node that does not accept the copy still has no live row. -/
theorem Copyable.buried_of_not_accepts (h : s.Copyable b source target row)
    (hagree : ∀ n ∈ s.healthyNodes, ∀ row', (s.cluster.nodes n).liveRow b = some row' →
      row'.version = row.version) (hno : ¬ s.Accepts b target) :
    ((s.cluster.nodes target).replicate (copyRequest b source row)).1.liveRow b = none := by
  unfold Accepts at hno
  push Not at hno
  obtain ⟨grave, hgrave, hdel, n, hn, row', hrow', hle⟩ := hno
  have hrow := LocalEngine.replicate_buried h.validate hgrave hdel
    ((hagree n hn row' hrow').symm.le.trans hle)
  rw [Option.eq_none_iff_forall_ne_some]
  intro u hu
  obtain ⟨hu, hlive⟩ := LocalEngine.liveRow_eq_some.mp hu
  obtain rfl := Option.some.inj (hrow.symm.trans hu)
  rw [hdel] at hlive
  cases hlive

/-- Two nodes that are reached are compared by their answers. -/
theorem verifyCopy_of_reaches (hb : s.Carries b)
    (hsource : s.cluster.reaches s.silent source = true)
    (htarget : s.cluster.reaches s.silent target = true) :
    s.verifyCopy b source target =
      .ok ((s.readBlock source b).agrees (s.readBlock target b)) := by
  have hvalid : s.invalidUrl target b = false := by
    unfold Carries at hb
    rw [invalidUrl_of_reaches htarget, hb]
    rfl
  unfold verifyCopy
  rw [readBlock_of_reaches hb hsource]
  rcases (s.cluster.nodes source).liveRow b with _ | row
  · simp [hvalid]
  · simp [hvalid]

theorem verifyCopy_of_agree {row' : Row} (hb : s.Carries b)
    (hsource : s.cluster.reaches s.silent source = true)
    (htarget : s.cluster.reaches s.silent target = true)
    (hrow : (s.cluster.nodes source).liveRow b = some row)
    (hrow' : (s.cluster.nodes target).liveRow b = some row')
    (hagree : row'.data.getD "" = row.data.getD "" ∧ row'.version = row.version) :
    s.verifyCopy b source target = .ok true := by
  rw [verifyCopy_of_reaches hb hsource htarget, readBlock_of_reaches hb hsource,
    readBlock_of_reaches hb htarget, hrow, hrow']
  simp [Answer.agrees, StorageEngine.blockRecord, hagree.1, hagree.2]

theorem verifyCopy_of_none (hb : s.Carries b)
    (hsource : s.cluster.reaches s.silent source = true)
    (htarget : s.cluster.reaches s.silent target = true)
    (hnone : (s.cluster.nodes target).liveRow b = none) :
    s.verifyCopy b source target = .ok false := by
  rw [verifyCopy_of_reaches hb hsource htarget, readBlock_of_reaches hb htarget, hnone]
  cases s.readBlock source b <;> rfl

theorem Copyable.liveRow_copied (h : s.Copyable b source target row) :
    ((s.copied b source target row).cluster.nodes source).liveRow b = some row := by
  unfold copied setNode
  simp only [Function.update_of_ne h.ne]
  exact h.held

theorem liveRow_copied_target : ((s.copied b source target row).cluster.nodes target).liveRow b =
    ((s.cluster.nodes target).replicate (copyRequest b source row)).1.liveRow b := by
  unfold copied setNode
  simp only [Function.update_self]

theorem truthy_some {n : String} (h : n ≠ "") : truthy (some n) = some n :=
  truthy_eq_some.mpr ⟨rfl, h⟩

/-- The part of a repair before the placement changes, for two nodes that answer. -/
theorem copyVerified_of_reaches (hb : s.Carries b)
    (hsource : s.cluster.reaches s.silent source = true)
    (htarget : s.cluster.reaches s.silent target = true)
    (hrow : (s.cluster.nodes source).liveRow b = some row) :
    copyVerified b (some source) (some target) s =
      match ReplicateRequest.validate (copyRequest b source row) with
      | none => (s, .error .invalidRequest)
      | some _ => (s.copied b source target row, .ok (
          if ((s.cluster.nodes target).replicate (copyRequest b source row)).2 < 400 then
            if ((s.copied b source target row).readBlock source b).agrees
                ((s.copied b source target row).readBlock target b) then .ok target
            else .error "verification failed"
          else .error "copy failed")) := by
  have hnamed := truthy_some (ne_blank_of_reaches htarget)
  have hverify : (s.copied b source target row).verifyCopy b source target = .ok _ :=
    verifyCopy_of_reaches hb hsource htarget
  unfold copyVerified chooseSource
  simp only [truthy_some (ne_blank_of_reaches hsource), chooseTarget_of_truthy hnamed,
    hnamed, copyBlock_of_reaches hb hsource htarget hrow]
  cases ReplicateRequest.validate (copyRequest b source row) with
  | none => rfl
  | some req =>
      by_cases hcode : ((s.cluster.nodes target).replicate (copyRequest b source row)).2 < 400
      · simp only [hcode, decide_true, if_true, hverify]
        cases ((s.copied b source target row).readBlock source b).agrees
          ((s.copied b source target row).readBlock target b) <;> rfl
      · simp only [hcode, decide_false, if_false]

/-- The part of a repair before the placement changes, for a node that accepts the copy. -/
theorem Copyable.copyVerified_of_accepts (h : s.Copyable b source target row)
    (hup : source ∈ s.healthyNodes) (haccepts : s.Accepts b target) :
    copyVerified b (some source) (some target) s = (s.copied b source target row, .ok (.ok target)) ∧
      (s.copied b source target row).verifyCopy b source target = .ok true := by
  obtain ⟨hcode, row', hrow', hagree⟩ := h.copied_of_accepts hup haccepts
  have hverify : (s.copied b source target row).verifyCopy b source target = .ok true :=
    verifyCopy_of_agree h.carried h.sourceAnswers h.targetAnswers h.liveRow_copied
      (liveRow_copied_target.trans hrow') hagree
  refine ⟨?_, hverify⟩
  have hagrees := hverify.symm.trans (verifyCopy_of_reaches h.carried h.sourceAnswers h.targetAnswers)
  rw [copyVerified_of_reaches h.carried h.sourceAnswers h.targetAnswers h.held, h.validate]
  simp only [hcode, ← Except.ok.inj hagrees, if_true, (by decide : (200 : ℕ) < 400)]

/-- The part of a repair before the placement changes, for a node that does not accept the copy. -/
theorem Copyable.copyVerified_of_not_accepts (h : s.Copyable b source target row)
    (hagree : ∀ n ∈ s.healthyNodes, ∀ row', (s.cluster.nodes n).liveRow b = some row' →
      row'.version = row.version) (hno : ¬ s.Accepts b target) :
    ∃ message, copyVerified b (some source) (some target) s =
      (s.copied b source target row, .ok (.error message)) := by
  have hnone := h.buried_of_not_accepts hagree hno
  have hverify : (s.copied b source target row).verifyCopy b source target = .ok false :=
    verifyCopy_of_none h.carried h.sourceAnswers h.targetAnswers (liveRow_copied_target.trans hnone)
  have hagrees := hverify.symm.trans (verifyCopy_of_reaches h.carried h.sourceAnswers h.targetAnswers)
  rw [copyVerified_of_reaches h.carried h.sourceAnswers h.targetAnswers h.held, h.validate]
  simp only [← Except.ok.inj hagrees, Bool.false_eq_true, if_false]
  split_ifs
  · exact ⟨_, rfl⟩
  · exact ⟨_, rfl⟩

end RepairState

end NanoFabric.Repair
