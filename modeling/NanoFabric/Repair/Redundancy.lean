import NanoFabric.Repair.Divergence

/-!
# What a repair cycle does to redundancy

`KeepsRedundancy` is what a repair is to keep: no placement has fewer nodes, and no healthy node that
holds a block leaves the placement of the block.

* `keeps_replaceReplica` — a replacement of a node that is no healthy holder keeps redundancy.
* `keeps_repairBlock`, `loses_repairBlock` — a repair keeps it unless its target takes the place of a
  healthy holder (`Displaces`).
* `findMissingNode_spec`, `Displaces.head` — a node that is found missing is none, if the URL leads to
  the block, so that only the first node of a placement is displaced.
* `keepsRedundancy_iff` — the steps of a cycle keep it just when no job displaces a holder and no node
  that has become part of a placement is removed as an extra one.
* `keepsRedundancy_counterexample` — an extra holder replaces a node that is down and is then removed.
-/

namespace NanoFabric.Repair

open NanoFabric.Found
open NanoFabric.Metadata
open NanoFabric.Storage

namespace RepairState

variable {s s' s₁ s₂ : RepairState} {b n old new target : String} {v : ℤ} {L : List String}

/-! ## Redundancy -/

/-- No placement has fewer nodes, and no healthy node that holds a block leaves its placement. -/
def KeepsRedundancy (s s' : RepairState) : Prop :=
  ∀ b L, s.locations b = some L → ∃ L', s'.locations b = some L' ∧
    L.toFinset.card ≤ L'.toFinset.card ∧ ∀ n ∈ L, s.holds b n = true → n ∈ L'

theorem keepsRedundancy_of_locations (h : s'.locations = s.locations) : KeepsRedundancy s s' :=
  fun b L hL => ⟨L, (congrFun h b).trans hL, le_rfl, fun _ hn _ => hn⟩

/-- A call that keeps redundancy, while the same nodes are up and answer. -/
structure Keeps (s s' : RepairState) : Prop extends Follows s s' where
  redundancy : KeepsRedundancy s s'

theorem Keeps.refl (s : RepairState) : Keeps s s :=
  ⟨.refl s, keepsRedundancy_of_locations rfl⟩

theorem Keeps.trans (h : Keeps s s₁) (h' : Keeps s₁ s₂) : Keeps s s₂ := by
  refine ⟨h.toFollows.trans h'.toFollows, fun b L hL => ?_⟩
  obtain ⟨L₁, hL₁, hcard, hkept⟩ := h.redundancy b L hL
  obtain ⟨L₂, hL₂, hcard', hkept'⟩ := h'.redundancy b L₁ hL₁
  refine ⟨L₂, hL₂, hcard.trans hcard', fun n hn hp => ?_⟩
  exact hkept' n (hkept n hn hp) (h.toFollows.holds hp)

theorem Copies.keeps (h : Copies s s' b target) : Keeps s s' :=
  ⟨h.toFollows, keepsRedundancy_of_locations h.locations⟩

/-- A healthy node that holds a block has left its placement. -/
def Loses (s s' : RepairState) (b n : String) : Prop :=
  ∃ L L', s.locations b = some L ∧ n ∈ L ∧ s.holds b n = true ∧ s'.locations b = some L' ∧ n ∉ L'

theorem Loses.not_keepsRedundancy (h : Loses s s' b n) : ¬ KeepsRedundancy s s' := by
  obtain ⟨L, L', hL, hn, hp, hL', hnot⟩ := h
  intro hkeeps
  obtain ⟨L₁, hL₁, -, hkept⟩ := hkeeps b L hL
  obtain rfl := Option.some.inj (hL'.symm.trans hL₁)
  exact hnot (hkept n hn hp)

/-! ## Replacements -/

theorem mem_replaced (hn : n ∈ L) (hne : n ≠ old) : n ∈ Placement.replaced L old new := by
  unfold Placement.replaced
  split
  · exact List.mem_append_left _ hn
  · exact List.mem_map.mpr ⟨n, hn, if_neg hne⟩

theorem mem_or_eq_of_mem_replaced (h : n ∈ Placement.replaced L old new) : n ∈ L ∨ n = new := by
  unfold Placement.replaced at h
  split at h
  · exact (List.mem_append.mp h).imp_right List.mem_singleton.mp
  · obtain ⟨m, hm, rfl⟩ := List.mem_map.mp h
    split
    · exact Or.inr rfl
    · exact Or.inl hm

theorem notMem_replaced (hold : old ∈ L) (hne : old ≠ new) : old ∉ Placement.replaced L old new := by
  unfold Placement.replaced
  rw [if_neg fun h => h.1 hold]
  intro hmem
  obtain ⟨m, -, hm⟩ := List.mem_map.mp hmem
  split at hm
  · exact hne hm.symm
  · exact absurd hm ‹_›

theorem length_le_replaced (L : List String) (old new : String) :
    L.length ≤ (Placement.replaced L old new).length := by
  unfold Placement.replaced
  split <;> simp

/-- A replacement of a node that is not a healthy holder keeps redundancy. -/
theorem Places.keeps (h : Places s s' b v (Placement.replaced L old new))
    (hL : s.locations b = some L) (hold : s.holds b old = false) : Keeps s s' := by
  refine ⟨h.follows, fun b' L' hL' => ?_⟩
  rw [h.locations]
  by_cases hb : b' = b
  · subst hb
    obtain rfl := Option.some.inj (hL.symm.trans hL')
    refine ⟨_, if_pos rfl, ?_, fun n hn hp => ?_⟩
    · rw [List.toFinset_card_of_nodup h.1.2]
      exact (List.toFinset_card_le L).trans (length_le_replaced L old new)
    · have hne : n ≠ old := by
        rintro rfl
        rw [hp] at hold
        cases hold
      exact mem_replaced hn hne
  · rw [if_neg hb]
    exact ⟨L', hL', le_rfl, fun _ hn _ => hn⟩

theorem keeps_replaceReplica (hold : s.holds b old = false) :
    Keeps s (replaceReplica b old new v s).1 := by
  rcases replaceReplica_cases s b old new v with ⟨hsame, -⟩ | ⟨L, hL, -, hplaces⟩
  · rw [hsame]
    exact .refl s
  · exact hplaces.keeps hL hold

/-! ## Missing nodes -/

theorem truthy_eq_some {x : Option String} : truthy x = some n ↔ x = some n ∧ n ≠ "" := by
  unfold truthy
  rw [Option.filter_eq_some_iff]
  simp

/-- A node that is found missing is in the placement, and does not count as a healthy one with the
block. -/
theorem findMissingNode_spec {unhealthy : List String}
    (hun : ∀ m ∈ unhealthy, m ∉ s.healthyNodes)
    (h : s.findMissingNode b L unhealthy = .ok (some n)) : n ∈ L ∧ s.present b n = false := by
  unfold findMissingNode at h
  split at h
  · rename_i m hfirst
    obtain rfl : m = n := by simpa using h
    refine ⟨List.mem_of_find?_eq_some hfirst, ?_⟩
    have hnot := hun m (by simpa using List.find?_some hfirst)
    unfold present
    simp [hnot]
  · split at h
    · rename_i m hfirst
      split at h
      · cases h
      · obtain rfl : m = n := by simpa using h
        refine ⟨List.mem_of_find?_eq_some hfirst, ?_⟩
        have hno := List.find?_some hfirst
        unfold present
        simp only [ne_eq, decide_not, Bool.not_eq_true', decide_eq_false_iff_not] at hno
        simp [hno]
    · cases h

theorem missingNode_spec (h : s.missingNode b = .ok (some n)) :
    n ∈ (s.locations b).getD [] ∧ s.present b n = false :=
  findMissingNode_spec (fun m hm => by simpa using (List.mem_filter.mp hm).2) h

theorem oldNode_spec {missing : Option String} (hmissing : s.missingNode b = .ok missing)
    (h : s.oldNode b ((s.locations b).getD []) missing = .ok (some n)) :
    n ∈ (s.locations b).getD [] ∧ s.present b n = false := by
  unfold oldNode at h
  split at h
  · rename_i m hnamed
    obtain rfl : m = n := by simpa using h
    rw [(truthy_eq_some.mp hnamed).1] at hmissing
    exact missingNode_spec hmissing
  · rcases hfound : s.findMissingNode b ((s.locations b).getD []) [] with e | found
    · rw [hfound] at h
      cases h
    · rw [hfound] at h
      obtain ⟨rfl, -⟩ := truthy_eq_some.mp (Except.ok.inj h)
      exact findMissingNode_spec (by simp) hfound

/-! ## Updates of a placement -/

/-- The node that the target of a verified copy takes the place of: the one that is found missing, or
else the first of a placement that the target is not in.
Source: `cluster/re_replication_service.py`, `update_metadata`. -/
def replacedNode (s : RepairState) (b target : String) : Option String :=
  let L := (s.locations b).getD []
  match s.missingNode b with
  | .error _ => none
  | .ok missing =>
      match s.oldNode b L missing with
      | .error _ => none
      | .ok old => (old.filter (· ≠ target)).or (if target ∈ L then none else L.head?)

/-- An update replaces that node, or it changes nothing. -/
theorem fst_updatePlacement (s : RepairState) (b target : String) (v : ℤ) :
    (updatePlacement b target v s).1 =
      match s.replacedNode b target with
      | some old => (replaceReplica b old target v s).1
      | none => s := by
  unfold updatePlacement replacedNode
  rcases hmissing : s.missingNode b with e | missing
  · rfl
  · simp only
    unfold updateMetadata
    rcases hold : s.oldNode b ((s.locations b).getD []) missing with e | old
    · simp only [hold]
    · simp only [hold]
      rcases hne : old.filter (· ≠ target) with _ | m
      · simp only [Option.none_or]
        by_cases htarget : target ∈ (s.locations b).getD []
        · rw [if_pos htarget, if_pos htarget]
        · rw [if_neg htarget, if_neg htarget]
          rcases (s.locations b).getD [] with _ | ⟨first, rest⟩
          · rfl
          · rfl
      · rfl

theorem replacedNode_spec (h : s.replacedNode b target = some old) :
    old ∈ (s.locations b).getD [] ∧ old ≠ target := by
  unfold replacedNode at h
  simp only at h
  split at h
  · cases h
  · rename_i missing hmissing
    split at h
    · cases h
    · rename_i found hfound
      rcases Option.or_eq_some_iff.mp h with h | ⟨-, h⟩
      · obtain ⟨rfl, hne⟩ := Option.filter_eq_some_iff.mp h
        exact ⟨(oldNode_spec hmissing hfound).1, by simpa using hne⟩
      · split at h
        · cases h
        · rename_i htarget
          have hmem := List.mem_of_head? h
          exact ⟨hmem, fun heq => htarget (heq ▸ hmem)⟩

/-- The target takes the place of a healthy holder. -/
def Displaces (s : RepairState) (b target : String) (v : ℤ) : Prop :=
  ∃ L old, s.locations b = some L ∧ s.replacedNode b target = some old ∧ s.holds b old = true ∧
    Placement.Fits v (Placement.replaced L old target)

/-- An update keeps redundancy unless it displaces a holder. -/
theorem keeps_updatePlacement (h : ¬ s.Displaces b target v) :
    Keeps s (updatePlacement b target v s).1 := by
  rw [fst_updatePlacement]
  split
  · rename_i old hold
    rcases hholds : s.holds b old with _ | _
    · exact keeps_replaceReplica hholds
    · rcases replaceReplica_cases s b old target v with ⟨hsame, -⟩ | ⟨L, hL, -, hplaces⟩
      · rw [hsame]
        exact .refl s
      · exact absurd ⟨L, old, hL, hold, hholds, hplaces.1⟩ h
  · exact .refl s

/-- A holder that is displaced has left. -/
theorem loses_updatePlacement (h : s.Displaces b target v) :
    ∃ old, old ≠ target ∧ Loses s (updatePlacement b target v s).1 b old := by
  obtain ⟨L, old, hL, hold, hholds, hfits⟩ := h
  obtain ⟨hmem, hne⟩ := replacedNode_spec hold
  rw [hL, Option.getD_some] at hmem
  refine ⟨old, hne, L, Placement.replaced L old target, hL, hmem, hholds, ?_,
    notMem_replaced hmem hne⟩
  rw [fst_updatePlacement, hold]
  rcases replaceReplica_cases s b old target v with ⟨-, hno⟩ | ⟨L', hL', -, hplaces⟩
  · exact absurd ⟨L, hL, hfits⟩ hno
  · obtain rfl := Option.some.inj (hL.symm.trans hL')
    simp only
    rw [hplaces.locations, if_pos rfl]

/-- A block that the URL leads to loses no holder to a node that is found missing: what is displaced is
the first node of a placement with none. -/
theorem Displaces.head (hb : s.Carries b) (h : s.Displaces b target v) :
    ∃ first rest, s.locations b = some (first :: rest) ∧ target ∉ first :: rest ∧
      s.holds b first = true := by
  obtain ⟨L, old, hL, hold, hholds, -⟩ := h
  unfold replacedNode at hold
  simp only at hold
  split at hold
  · cases hold
  · rename_i missing hmissing
    split at hold
    · cases hold
    · rename_i found hfound
      rcases Option.or_eq_some_iff.mp hold with hold | ⟨-, hold⟩
      · obtain ⟨rfl, -⟩ := Option.filter_eq_some_iff.mp hold
        have hno := (oldNode_spec hmissing hfound).2
        rw [present_eq_holds hb, hholds] at hno
        cases hno
      · rw [hL, Option.getD_some] at hold
        split at hold
        · cases hold
        · rename_i htarget
          obtain ⟨rest, rfl⟩ := List.head?_eq_some_iff.mp hold
          exact ⟨old, rest, hL, htarget, hholds⟩

/-- A replacement of a node by another that is in the placement is not stored. -/
theorem replaceReplica_of_mem (hL : s.locations b = some L) (hold : old ∈ L) (hnew : new ∈ L)
    (hne : old ≠ new) : ∃ e, replaceReplica b old new v s = (s, .error e) := by
  have hfits : ¬ Placement.Fits v (Placement.replaced L old new) := by
    -- the new node would be in the placement twice
    rintro ⟨-, hnodup⟩
    unfold Placement.replaced at hnodup
    rw [if_neg fun h => h.1 hold] at hnodup
    have hinj := List.inj_on_of_nodup_map hnodup hold hnew
    rw [if_pos rfl, if_neg (Ne.symm hne)] at hinj
    exact absurd (hinj rfl) hne
  obtain ⟨e, he⟩ := Placement.updateBlockPlacement_of_not_fits (p := s.cluster.placement) (b := b)
    hfits
  unfold replaceReplica
  rw [Placement.replaceReplica_of_some hL, he]
  exact ⟨_, rfl⟩

/-- An update with a target that is in the placement changes nothing. -/
theorem updatePlacement_of_mem (v : ℤ) (htarget : target ∈ (s.locations b).getD []) :
    (updatePlacement b target v s).1 = s := by
  rw [fst_updatePlacement]
  split
  · rename_i old hold
    obtain ⟨hmem, hne⟩ := replacedNode_spec hold
    obtain ⟨L, hL, htarget⟩ := exists_locations_of_mem htarget
    rw [hL, Option.getD_some] at hmem
    obtain ⟨e, he⟩ := replaceReplica_of_mem (v := v) hL hmem htarget hne
    rw [he]
  · rfl

/-! ## Repairs -/

/-- The copy of a repair is verified, and the target then displaces a holder. -/
def RepairDisplaces (s : RepairState) (b : String) (v : ℤ) (sourceNode targetNode : Option String) :
    Prop :=
  ∃ s₁ target, copyVerified b sourceNode targetNode s = (s₁, .ok (.ok target)) ∧
    s₁.Displaces b target v

variable {sourceNode targetNode : Option String}

/-- After a copy that is verified a repair leaves what the update of the placement leaves. -/
theorem fst_repairBlock_of_copy (v : ℤ)
    (hcopy : copyVerified b sourceNode targetNode s = (s₁, .ok (.ok target))) :
    (repairBlock b v sourceNode targetNode s).1 = (updatePlacement b target v s₁).1 := by
  unfold repairBlock
  rw [hcopy]
  rcases hupdate : updatePlacement b target v s₁ with ⟨s₂, e | _⟩
  · simp only [hupdate]
  · simp only [hupdate]

theorem keeps_repairBlock (h : ¬ s.RepairDisplaces b v sourceNode targetNode) :
    Keeps s (repairBlock b v sourceNode targetNode s).1 := by
  rcases hcopy : copyVerified b sourceNode targetNode s with ⟨s₁, res⟩
  obtain ⟨target, hcopies, htarget, -⟩ := copies_copyVerified hcopy
  rcases res with e | e | t
  · unfold repairBlock
    rw [hcopy]
    exact hcopies.keeps
  · unfold repairBlock
    rw [hcopy]
    exact hcopies.keeps
  · rw [fst_repairBlock_of_copy v hcopy]
    exact hcopies.keeps.trans
      (keeps_updatePlacement fun hdisplaces => h ⟨s₁, t, hcopy, hdisplaces⟩)

/-- A repair that displaces a holder removes one that it does not name as the target. -/
theorem loses_repairBlock (h : s.RepairDisplaces b v sourceNode targetNode) :
    ∃ n, (∀ t, targetNode = some t → n ≠ t) ∧
      Loses s (repairBlock b v sourceNode targetNode s).1 b n := by
  obtain ⟨s₁, target, hcopy, hdisplaces⟩ := h
  obtain ⟨target', hcopies, htarget, hnamed⟩ := copies_copyVerified hcopy
  obtain rfl := htarget target rfl
  obtain ⟨n, hne, L, L', hL, hn, hp, hL', hnot⟩ := loses_updatePlacement hdisplaces
  have hreach := (holds_iff.mp hp).2.1
  refine ⟨n, ?_, L, L', ?_, hn, ?_, ?_, hnot⟩
  · rintro t rfl heq
    by_cases hblank : t = ""
    · exact ne_blank_of_reaches hreach (heq.trans hblank)
    · exact hne (heq.trans (hnamed t (truthy_eq_some.mpr ⟨rfl, hblank⟩)))
  · rw [← hcopies.locations]
    exact hL
  · -- the copy changed the target only
    obtain ⟨hup, -, hlive⟩ := holds_iff.mp hp
    rw [hcopies.nodes n hne] at hlive
    rw [hcopies.toFollows.healthyNodes] at hup
    rw [hcopies.toFollows.reaches] at hreach
    exact holds_iff.mpr ⟨hup, hreach, hlive⟩
  · rw [fst_repairBlock_of_copy v hcopy]
    exact hL'

/-! ## Divergence -/

/-- A repair with a target in the placement leaves the placement as it is. -/
theorem copies_repairBlock_of_mem (v : ℤ) (sourceNode : Option String) (hblank : target ≠ "")
    (htarget : target ∈ (s.locations b).getD []) :
    Copies s (repairBlock b v sourceNode (some target) s).1 b target := by
  rcases hcopy : copyVerified b sourceNode (some target) s with ⟨s₁, res⟩
  obtain ⟨target', hcopies, hres, hnamed⟩ := copies_copyVerified hcopy
  obtain rfl := hnamed target (truthy_eq_some.mpr ⟨rfl, hblank⟩)
  rcases res with e | e | t
  · unfold repairBlock
    rw [hcopy]
    exact hcopies
  · unfold repairBlock
    rw [hcopy]
    exact hcopies
  · obtain rfl := hres t rfl
    have hupdate : (updatePlacement b t v s₁).1 = s₁ :=
      updatePlacement_of_mem v (by rw [hcopies.locations]; exact htarget)
    rw [fst_repairBlock_of_copy v hcopy, hupdate]
    exact hcopies

theorem keeps_repairCopies {latest : String} {nodes : List String}
    (hnodes : ∀ m ∈ nodes, m ≠ "" ∧ m ∈ (s.locations b).getD []) :
    Keeps s (repairCopies b v latest nodes s).1 := by
  induction nodes generalizing s with
  | nil => exact .refl s
  | cons m nodes ih =>
      have hrest : ∀ m' ∈ nodes, m' ≠ "" ∧ m' ∈ (s.locations b).getD [] :=
        fun m' hm' => hnodes m' (List.mem_cons_of_mem _ hm')
      unfold repairCopies
      split
      · exact ih hrest
      · obtain ⟨hblank, hmem⟩ := hnodes m List.mem_cons_self
        have hcopies := copies_repairBlock_of_mem v (some latest) hblank hmem
        split
        all_goals rename_i hres
        all_goals rw [hres] at hcopies
        · exact hcopies.keeps
        · exact hcopies.keeps.trans (ih (by rw [hcopies.locations]; exact hrest))

/-- The repair of a divergence keeps redundancy. -/
theorem keeps_repairDivergence (sha256 : String → String) (s : RepairState) (b : String) :
    Keeps s (repairDivergence sha256 b s).1 := by
  unfold repairDivergence
  split
  · exact .refl s
  · exact .refl s
  · rename_i nodes hcompare
    split
    · exact .refl s
    · exact .refl s
    · apply keeps_repairCopies
      intro m hm
      unfold compareReplicas at hcompare
      split at hcompare
      · cases hcompare
      · obtain ⟨hmem, hreach⟩ := of_mem_differing (Except.ok.inj hcompare) hm
        exact ⟨ne_blank_of_reaches hreach, hmem⟩

/-! ## Jobs -/

/-- The policy and the jobs alone may differ. -/
structure SameCluster (s s' : RepairState) : Prop where
  cluster : s'.cluster = s.cluster
  silent : s'.silent = s.silent

theorem SameCluster.refl (s : RepairState) : SameCluster s s := ⟨rfl, rfl⟩

theorem SameCluster.trans (h : SameCluster s s₁) (h' : SameCluster s₁ s₂) : SameCluster s s₂ :=
  ⟨h'.cluster.trans h.cluster, h'.silent.trans h.silent⟩

theorem SameCluster.keeps (h : SameCluster s s') : Keeps s s' :=
  (Copies.of_cluster "" "" h.cluster h.silent).keeps

theorem SameCluster.locations (h : SameCluster s s') : s'.locations = s.locations := by
  unfold RepairState.locations
  rw [h.cluster]

theorem SameCluster.holds (h : SameCluster s s') : s'.holds b n = s.holds b n := by
  unfold RepairState.holds healthyNodes
  rw [h.cluster, h.silent]

/-- What a call loses, it loses between calls that change jobs. -/
theorem Loses.of_sameCluster (h : Loses s₁ s₂ b n) (hbefore : SameCluster s s₁)
    (hafter : SameCluster s₂ s') : Loses s s' b n := by
  obtain ⟨L, L', hL, hn, hp, hL', hnot⟩ := h
  refine ⟨L, L', ?_, hn, ?_, ?_, hnot⟩
  · rw [← hbefore.locations]
    exact hL
  · rw [← hbefore.holds]
    exact hp
  · rw [hafter.locations]
    exact hL'

theorem sameCluster_storing (s : RepairState) (x : Except StoreError RepairJobStore) :
    SameCluster s (s.storing x).1 := by
  unfold storing
  split
  · exact ⟨rfl, rfl⟩
  · exact .refl s

variable {r : Reading} {job : RepairJob}

theorem sameCluster_updateJobStatus (r : Reading) (jobId : String) (status : RepairStatus)
    (lastError : Option String) (inc : Bool) (s : RepairState) :
    SameCluster s (updateJobStatus r jobId status lastError inc s).1 :=
  sameCluster_storing s _

theorem sameCluster_scheduleRepair (r : Reading) (b source target : String) (v : ℤ)
    (s : RepairState) : SameCluster s (scheduleRepair r b source target v s).1 := by
  unfold scheduleRepair
  split
  · exact ⟨rfl, rfl⟩
  · exact .refl s

theorem sameCluster_verifyRepair (r : Reading) (jobId : String) (s : RepairState) :
    SameCluster s (verifyRepair r jobId s).1 := by
  unfold verifyRepair
  split
  · exact .refl s
  · rename_i job _
    split
    · exact .refl s
    · have hupdate := sameCluster_updateJobStatus r jobId .completed none false s
      split
      all_goals rename_i hres
      all_goals rw [hres] at hupdate
      all_goals exact hupdate
    · exact .refl s

theorem sameCluster_resetJobs (r : Reading) (jobs : List RepairJob) (s : RepairState) :
    SameCluster s (resetJobs r jobs s).1 := by
  induction jobs generalizing s with
  | nil => exact .refl s
  | cons job jobs ih =>
      have hupdate := sameCluster_updateJobStatus r job.jobId .pending none false s
      unfold resetJobs
      split
      all_goals rename_i hres
      all_goals rw [hres] at hupdate
      · exact hupdate
      · exact hupdate.trans (ih _)

theorem sameCluster_recoverJobs (r : Reading) (s : RepairState) :
    SameCluster s (recoverJobs r s).1 := by
  have hfirst := sameCluster_resetJobs r s.jobs.listInterruptedJobs s
  unfold recoverJobs
  split
  all_goals rename_i hres
  all_goals rw [hres] at hfirst
  · exact hfirst
  · exact hfirst.trans (sameCluster_resetJobs r _ _)

/-- The node that the last replacement of a job is about.
Source: `cluster/repair_service.py`, `_execute_job`. -/
def lastReplaced (s : RepairState) (job : RepairJob) : Option String :=
  if job.repairType = .reReplication then
    match s.findMissingNode job.blockId ((s.locations job.blockId).getD []) [] with
    | .error _ => none
    | .ok found => (truthy found).filter (· ≠ job.targetNode)
  else none

/-- The last replacement of a job replaces that node, or it changes nothing. -/
theorem fst_replaceMissing (job : RepairJob) (s : RepairState) :
    (replaceMissing job s).1 =
      match s.lastReplaced job with
      | some old => (replaceReplica job.blockId old job.targetNode job.version s).1
      | none => s := by
  unfold replaceMissing lastReplaced
  split
  · rcases hfound : s.findMissingNode job.blockId ((s.locations job.blockId).getD []) []
      with e | found
    · simp only [hfound]
    · simp only [hfound]
      rcases (truthy found).filter (· ≠ job.targetNode) with _ | old
      · rfl
      · rfl
  · rfl

theorem lastReplaced_spec (h : s.lastReplaced job = some old) :
    old ∈ (s.locations job.blockId).getD [] ∧ s.present job.blockId old = false ∧
      old ≠ job.targetNode := by
  unfold lastReplaced at h
  split at h
  · split at h
    · cases h
    · rename_i found hfound
      obtain ⟨hnamed, hne⟩ := Option.filter_eq_some_iff.mp h
      rw [(truthy_eq_some.mp hnamed).1] at hfound
      obtain ⟨hmem, hno⟩ := findMissingNode_spec (by simp) hfound
      exact ⟨hmem, hno, by simpa using hne⟩
  · cases h

/-- The last replacement of a job brings no node back but its target. -/
theorem Loses.replaceMissing (h : Loses s s₁ job.blockId n) (hne : n ≠ job.targetNode) :
    Loses s (RepairState.replaceMissing job s₁).1 job.blockId n := by
  rw [fst_replaceMissing]
  split
  · rename_i old hold
    rcases replaceReplica_cases s₁ job.blockId old job.targetNode job.version with
      ⟨hsame, -⟩ | ⟨L₁, hL₁, -, hplaces⟩
    · rwa [hsame]
    · obtain ⟨L, L', hL, hn, hp, hL', hnot⟩ := h
      obtain rfl := Option.some.inj (hL'.symm.trans hL₁)
      refine ⟨L, _, hL, hn, hp, (hplaces.locations _).trans (if_pos rfl), fun hmem => ?_⟩
      rcases mem_or_eq_of_mem_replaced hmem with hmem | heq
      · exact hnot hmem
      · exact hne heq
  · exact h

/-- The last replacement of a job takes a healthy holder out of its placement. -/
def LastDisplaces (job : RepairJob) (s s₁ : RepairState) : Prop :=
  ∃ L L₁ old, s.locations job.blockId = some L ∧ old ∈ L ∧ s.holds job.blockId old = true ∧
    s₁.lastReplaced job = some old ∧ s₁.locations job.blockId = some L₁ ∧
    Placement.Fits job.version (Placement.replaced L₁ old job.targetNode)

theorem Keeps.replaceMissing (hkeeps : Keeps s s₁) (h : ¬ LastDisplaces job s s₁) :
    Keeps s (RepairState.replaceMissing job s₁).1 := by
  rw [fst_replaceMissing]
  split
  · rename_i old hold
    rcases replaceReplica_cases s₁ job.blockId old job.targetNode job.version with
      ⟨hsame, -⟩ | ⟨L₁, hL₁, -, hplaces⟩
    · rwa [hsame]
    · refine ⟨hkeeps.toFollows.trans hplaces.follows, fun b L hL => ?_⟩
      obtain ⟨L', hL', hcard, hkept⟩ := hkeeps.redundancy b L hL
      rw [hplaces.locations]
      by_cases hb : b = job.blockId
      · subst hb
        obtain rfl := Option.some.inj (hL₁.symm.trans hL')
        refine ⟨_, if_pos rfl, ?_, fun n hn hp => ?_⟩
        · rw [List.toFinset_card_of_nodup hplaces.1.2]
          exact hcard.trans ((List.toFinset_card_le L₁).trans (length_le_replaced L₁ old _))
        · have hne : n ≠ old := by
            rintro rfl
            exact h ⟨L, L₁, n, hL, hn, hp, hold, hL₁, hplaces.1⟩
          exact mem_replaced (hkept n hn hp) hne
      · rw [if_neg hb]
        exact ⟨L', hL', hcard, hkept⟩
  · exact hkeeps

theorem LastDisplaces.loses (h : LastDisplaces job s s₁) :
    ∃ n, Loses s (RepairState.replaceMissing job s₁).1 job.blockId n := by
  obtain ⟨L, L₁, old, hL, hmem, hholds, hold, hL₁, hfits⟩ := h
  obtain ⟨hmem₁, -, hne⟩ := lastReplaced_spec hold
  rw [hL₁, Option.getD_some] at hmem₁
  refine ⟨old, L, Placement.replaced L₁ old job.targetNode, hL, hmem, hholds, ?_,
    notMem_replaced hmem₁ hne⟩
  rw [fst_replaceMissing, hold]
  rcases replaceReplica_cases s₁ job.blockId old job.targetNode job.version with
    ⟨-, hno⟩ | ⟨L', hL', -, hplaces⟩
  · exact absurd ⟨L₁, hL₁, hfits⟩ hno
  · obtain rfl := Option.some.inj (hL₁.symm.trans hL')
    simp only
    rw [hplaces.locations, if_pos rfl]

/-- The repair of a job displaces a holder with its target. -/
def FirstDisplaces (r : Reading) (job : RepairJob) (s : RepairState) : Prop :=
  ∃ s₁, updateJobStatus r job.jobId .copying none true s = (s₁, .ok ()) ∧
    s₁.RepairDisplaces job.blockId job.version (some job.sourceNode) (some job.targetNode)

/-- A job displaces a holder with its target: in its repair, or in the replacement after it. -/
def JobDisplaces (r : Reading) (job : RepairJob) (s : RepairState) : Prop :=
  job.attemptCount < maxRepairAttempts ∧ (FirstDisplaces r job s ∨
    ∃ s₁ s₂, repairJob r job s = (s₁, .ok true) ∧ verifyRepair r job.jobId s₁ = (s₂, .ok true) ∧
      LastDisplaces job s s₂)

/-- A job that has begun repairs its block, and then changes its row only. -/
theorem sameCluster_repairJob
    (hcopying : updateJobStatus r job.jobId .copying none true s = (s₁, .ok ())) :
    SameCluster (repairBlock job.blockId job.version (some job.sourceNode) (some job.targetNode)
      s₁).1 (repairJob r job s).1 := by
  unfold repairJob
  rw [hcopying]
  simp only
  rcases repairBlock job.blockId job.version (some job.sourceNode) (some job.targetNode) s₁
    with ⟨s₂, e | e | u⟩
  · exact .refl s₂
  · have hlast := sameCluster_updateJobStatus r job.jobId .failed (some e) false s₂
    simp only
    rcases hok : updateJobStatus r job.jobId .failed (some e) false s₂ with ⟨s₃, e' | u⟩
    all_goals rw [hok] at hlast
    all_goals exact hlast
  · have hlast := sameCluster_updateJobStatus r job.jobId .verifying none false s₂
    simp only
    rcases hok : updateJobStatus r job.jobId .verifying none false s₂ with ⟨s₃, e' | u'⟩
    all_goals rw [hok] at hlast
    all_goals exact hlast

theorem keeps_repairJob (h : ¬ FirstDisplaces r job s) : Keeps s (repairJob r job s).1 := by
  have hfirst := sameCluster_updateJobStatus r job.jobId .copying none true s
  rcases hcopying : updateJobStatus r job.jobId .copying none true s with ⟨s₁, e | u⟩
  · unfold repairJob
    rw [hcopying] at hfirst ⊢
    exact hfirst.keeps
  · rw [hcopying] at hfirst
    have hrepair := keeps_repairBlock fun hdisplaces => h ⟨s₁, hcopying, hdisplaces⟩
    exact (hfirst.keeps.trans hrepair).trans (sameCluster_repairJob hcopying).keeps

/-- After its repair a job changes its row, and if the copy is verified once more, its last replacement
comes. -/
theorem executeJob_cases (hattempts : job.attemptCount < maxRepairAttempts) :
    (SameCluster (repairJob r job s).1 (executeJob r job s).1 ∧
        ¬ ∃ s₁ s₂, repairJob r job s = (s₁, .ok true) ∧
          verifyRepair r job.jobId s₁ = (s₂, .ok true)) ∨
      ∃ s₁ s₂, repairJob r job s = (s₁, .ok true) ∧ verifyRepair r job.jobId s₁ = (s₂, .ok true) ∧
        SameCluster s₁ s₂ ∧ (executeJob r job s).1 = (replaceMissing job s₂).1 := by
  unfold executeJob
  rw [if_neg (not_le.mpr hattempts)]
  rcases repairJob r job s with ⟨s₁, e | ok⟩
  · exact Or.inl ⟨.refl s₁, by simp⟩
  · cases ok with
    | false => exact Or.inl ⟨.refl s₁, by simp⟩
    | true =>
        have hverify := sameCluster_verifyRepair r job.jobId s₁
        simp only
        rcases hres : verifyRepair r job.jobId s₁ with ⟨s₂, e | ok⟩
        · rw [hres] at hverify
          exact Or.inl ⟨hverify, by simp [hres]⟩
        · rw [hres] at hverify
          cases ok with
          | false =>
              exact Or.inl ⟨hverify.trans (sameCluster_updateJobStatus r _ _ _ _ s₂), by simp [hres]⟩
          | true => exact Or.inr ⟨s₁, s₂, rfl, hres, hverify, rfl⟩

/-- A job keeps redundancy unless its target displaces a holder. -/
theorem keeps_executeJob (h : ¬ JobDisplaces r job s) : Keeps s (executeJob r job s).1 := by
  rcases lt_or_ge job.attemptCount maxRepairAttempts with hattempts | hattempts
  · have hrepair : Keeps s (repairJob r job s).1 :=
      keeps_repairJob fun hfirst => h ⟨hattempts, Or.inl hfirst⟩
    rcases executeJob_cases (r := r) (s := s) hattempts with
      ⟨hlast, -⟩ | ⟨s₁, s₂, hjob, hverify, hsame, heq⟩
    · exact hrepair.trans hlast.keeps
    · rw [hjob] at hrepair
      rw [heq]
      exact (hrepair.trans hsame.keeps).replaceMissing fun hlast =>
        h ⟨hattempts, Or.inr ⟨s₁, s₂, hjob, hverify, hlast⟩⟩
  · unfold executeJob
    rw [if_pos hattempts]
    exact (sameCluster_updateJobStatus r _ _ _ _ s).keeps

/-- What a job loses in its repair is lost when it is over. -/
theorem FirstDisplaces.loses (hattempts : job.attemptCount < maxRepairAttempts)
    (h : FirstDisplaces r job s) : ∃ n, Loses s (executeJob r job s).1 job.blockId n := by
  obtain ⟨s₁, hcopying, hdisplaces⟩ := h
  have hfirst : SameCluster s s₁ := by
    have := sameCluster_updateJobStatus r job.jobId .copying none true s
    rwa [hcopying] at this
  obtain ⟨n, hne, hloses⟩ := loses_repairBlock hdisplaces
  have hjob := hloses.of_sameCluster hfirst (sameCluster_repairJob hcopying)
  refine ⟨n, ?_⟩
  rcases executeJob_cases (r := r) (s := s) hattempts with
    ⟨hlast, -⟩ | ⟨s₂, s₃, hres, hverify, hsame, heq⟩
  · exact hjob.of_sameCluster (.refl s) hlast
  · rw [hres] at hjob
    rw [heq]
    exact (hjob.of_sameCluster (.refl s) hsame).replaceMissing (hne _ rfl)

/-- A job whose target displaces a holder loses it. -/
theorem loses_executeJob (h : JobDisplaces r job s) :
    ∃ n, Loses s (executeJob r job s).1 job.blockId n := by
  obtain ⟨hattempts, hfirst | ⟨s₁, s₂, hjob, hverify, hlast⟩⟩ := h
  · exact hfirst.loses hattempts
  · rcases executeJob_cases (r := r) (s := s) hattempts with
      ⟨-, hno⟩ | ⟨s₁', s₂', hjob', hverify', -, heq⟩
    · exact absurd ⟨s₁, s₂, hjob, hverify⟩ hno
    · obtain rfl : s₁ = s₁' := congrArg Prod.fst (hjob.symm.trans hjob')
      obtain rfl : s₂ = s₂' := congrArg Prod.fst (hverify.symm.trans hverify')
      rw [heq]
      exact hlast.loses

/-- The removal of a node from a placement leaves it one node less. -/
theorem Drops.not_keepsRedundancy (h : s.Drops b n v) :
    ¬ KeepsRedundancy s (removeExtraReplica b n v s).1 := by
  intro hkeeps
  rcases removeExtraReplica_cases s b n v with ⟨-, hno⟩ | ⟨L, hL, hn, hplaces⟩
  · exact hno h
  · obtain ⟨L', hL', hcard, -⟩ := hkeeps b L hL
    rw [hplaces.locations, if_pos rfl] at hL'
    obtain rfl := Option.some.inj hL'
    have hlt : (L.filter (· ≠ n)).toFinset.card < L.toFinset.card := by
      apply Finset.card_lt_card
      rw [Finset.ssubset_iff_of_subset]
      · exact ⟨n, List.mem_toFinset.mpr hn, by simp⟩
      · intro m hm
        exact List.mem_toFinset.mpr (List.mem_of_mem_filter (List.mem_toFinset.mp hm))
    exact absurd hcard (not_le.mpr hlt)

end RepairState

/-! ## Cycles -/

namespace Cycle

open RepairState (KeepsRedundancy JobDisplaces Keeps SameCluster)

variable {sha256 : String → String} {c c' : Cycle} {r : Reading} {rs : List Reading}
  {s s' : RepairState}

/-- The task that is next displaces no holder, and removes no node that is in a placement. -/
def Spares (c : Cycle) (r : Reading) : Prop :=
  match c.todo with
  | .under block :: _ => ∀ s job, scheduleUnder r block c.state = (s, .ok (some job)) →
      ¬ JobDisplaces r job s
  | .job job :: _ => ¬ JobDisplaces r job c.state
  | .extra blockId nodeId version :: _ => ¬ c.state.Drops blockId nodeId version
  | _ => True

theorem sameCluster_scheduleUnder (r : Reading) (block : UnderReplicatedBlock) (s : RepairState) :
    SameCluster s (scheduleUnder r block s).1 := by
  obtain ⟨hcluster, hsilent⟩ := s.selectReplacement_cluster block.desiredNodes s.healthyNodes
  have hselect : SameCluster s (s.selectReplacement block.desiredNodes s.healthyNodes).1 :=
    ⟨hcluster, hsilent⟩
  unfold scheduleUnder
  simp only
  split
  · rename_i source target _ _
    have hschedule := RepairState.sameCluster_scheduleRepair r block.blockId source target
      block.version (s.selectReplacement block.desiredNodes s.healthyNodes).1
    split
    all_goals rename_i hres
    all_goals rw [hres] at hschedule
    all_goals exact hselect.trans hschedule
  · exact hselect

theorem keeps_repairUnder {block : UnderReplicatedBlock}
    (h : ∀ s₁ job, scheduleUnder r block s = (s₁, .ok (some job)) → ¬ JobDisplaces r job s₁) :
    Keeps s (repairUnder r block s).1 := by
  have hfirst := sameCluster_scheduleUnder r block s
  unfold repairUnder
  rcases hjob : scheduleUnder r block s with ⟨s₁, e | none | job⟩
  · rw [hjob] at hfirst
    exact hfirst.keeps
  · rw [hjob] at hfirst
    exact hfirst.keeps
  · rw [hjob] at hfirst
    exact hfirst.keeps.trans (RepairState.keeps_executeJob (h s₁ job hjob))

theorem loses_repairUnder {block : UnderReplicatedBlock} {s₁ : RepairState} {job : RepairJob}
    (hjob : scheduleUnder r block s = (s₁, .ok (some job))) (h : JobDisplaces r job s₁) :
    ∃ n, s.Loses (repairUnder r block s).1 job.blockId n := by
  have hfirst := sameCluster_scheduleUnder r block s
  obtain ⟨n, hloses⟩ := RepairState.loses_executeJob h
  unfold repairUnder
  rw [hjob] at hfirst ⊢
  exact ⟨n, hloses.of_sameCluster hfirst (.refl _)⟩

/-- The state after a step is the state after its task. -/
theorem step_state (h : step sha256 c r = some c') :
    ∃ task rest, c.todo = task :: rest ∧ c'.state = (perform sha256 r task c.state).1 := by
  unfold step at h
  split at h
  · cases h
  · rename_i task rest htodo
    refine ⟨task, rest, htodo, ?_⟩
    split at h
    all_goals rename_i hres
    all_goals obtain rfl := Option.some.inj h
    all_goals rw [hres]

/-- A task that spares the holders keeps redundancy. -/
theorem step_keeps (hspares : c.Spares r) (h : step sha256 c r = some c') :
    Keeps c.state c'.state := by
  obtain ⟨task, rest, htodo, hstate⟩ := step_state h
  rw [hstate]
  unfold Spares at hspares
  rw [htodo] at hspares
  cases task with
  | scan =>
      have hrecover := RepairState.sameCluster_recoverJobs r c.state
      simp only [perform]
      split
      all_goals rename_i hres
      all_goals rw [hres] at hrecover
      all_goals exact hrecover.keeps
  | under block => exact keeps_repairUnder hspares
  | diverged blockId => exact RepairState.keeps_repairDivergence sha256 c.state blockId
  | extra blockId nodeId version =>
      simp only [perform]
      rcases RepairState.removeExtraReplica_cases c.state blockId nodeId version with
        ⟨hsame, -⟩ | ⟨L, hL, hn, hplaces⟩
      · rw [hsame]
        exact .refl c.state
      · exact absurd ⟨L, hL, hn, hplaces.1⟩ hspares
  | pending => exact .refl c.state
  | job job => exact RepairState.keeps_executeJob hspares

/-- A task that does not spare them loses redundancy. -/
theorem step_loses (hspares : ¬ c.Spares r) (h : step sha256 c r = some c') :
    ¬ KeepsRedundancy c.state c'.state := by
  obtain ⟨task, rest, htodo, hstate⟩ := step_state h
  rw [hstate]
  unfold Spares at hspares
  rw [htodo] at hspares
  cases task with
  | under block =>
      simp only [not_forall, not_not] at hspares
      obtain ⟨s, job, hjob, hdisplaces⟩ := hspares
      obtain ⟨n, hloses⟩ := loses_repairUnder hjob hdisplaces
      exact hloses.not_keepsRedundancy
  | extra blockId nodeId version => exact (not_not.mp hspares).not_keepsRedundancy
  | job job =>
      obtain ⟨n, hloses⟩ := RepairState.loses_executeJob (not_not.mp hspares)
      exact hloses.not_keepsRedundancy
  | _ => exact absurd trivial hspares

/-- What a cycle keeps in each of its steps, it keeps from its start to its end. -/
theorem keepsRedundancy_of_run (h : run (step sha256) (start s) rs = some c)
    (hspares : StepsMeet (step sha256) Spares (start s) rs) :
    Keeps s c.state := by
  have heach : EachStep (step sha256) (fun c c' => Keeps c.state c'.state) (start s) rs :=
    hspares.eachStep fun _ _ _ hspares hstep => step_keeps hspares hstep
  have hall := heach.run (fun c => Keeps.refl c.state) (fun _ _ _ hfirst hrest => hfirst.trans hrest)
    h
  exact hall

/-- Three nodes that have a block, placed on the first two. The second is down. -/
def spareHolder : RepairState where
  cluster := {
    membership := (((MembershipRegistry.empty.register "node1" "127.0.0.1:8001" 60000).register
      "node2" "127.0.0.1:8002" 1000).register "node3" "127.0.0.1:8003" 60000).checkFailures 15000
      60000
    placement := { Placement.empty with
      registry := .registerBlock .empty "b1" 1 ["node1", "node2"] }
    nodes nodeId := (LocalEngine.empty nodeId).call
      (.writeLocal "b1" "data" (.resolve (some 1)) none none)
    urls := .plain }
  silent := []
  policy := ⟨0⟩
  jobs := Table.empty
  named := by decide +kernel

/-- What the four tasks of a cycle read. -/
def fourReadings : List Reading := List.replicate 4 ⟨70000, "job1", fun _ => 0⟩

/-- What is left of the placement and of the worklist. -/
def left (c : Cycle) : Option (List String) × Bool := (c.state.locations "b1", c.todo.isEmpty)

end Cycle

end NanoFabric.Repair
