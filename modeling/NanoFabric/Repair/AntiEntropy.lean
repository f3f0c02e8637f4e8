import NanoFabric.Node.Merkle
import NanoFabric.Repair.JobSpec

/-!
# Anti-entropy

What `AntiEntropyService.repair_divergence` of `cluster/anti_entropy_service.py` leaves of the copies of
a block. Each node whose copy was compared is repaired from the node that was selected, unless the
repair of one raises.

* `readRow_sent` — a repair replaces an older row by the one that is sent, and no other.
* `exists_oldNode` — it then finds no node to replace just when every node of the placement is up and
  has the block, up to the first without a name; otherwise the target is in the placement, which would
  have it twice, and the repair raises (`updatePlacement_of_gap`).
* `converges_iff` — so that the copies converge just when no read raises and they agree, or what differs
  is detected, the copies of the greatest version agree, the newest can be sent, and no node is missing.
-/

namespace NanoFabric.Repair.RepairState

open NanoFabric.Found
open NanoFabric.Metadata
open NanoFabric.Node (Bindable BlockRecord Row StorageEngine)
open NanoFabric.Storage

/-! ## What anti-entropy is for -/

/-- The nodes of the placement that are up and have a copy. -/
def holders (s : RepairState) (b : String) : List String :=
  ((s.locations b).getD []).filter (s.holds b ·)

/-- A copy that a holder has, of the greatest version. -/
def Latest (s : RepairState) (b : String) (copy : String × ℤ) : Prop :=
  (∃ n ∈ s.holders b, s.copyAt b n = some copy) ∧
    ∀ n ∈ s.holders b, ∀ copy', s.copyAt b n = some copy' → copy'.2 ≤ copy.2

/-- The replicas of a block converge, and its placement stays. -/
structure Converges (sha256 : String → String) (s : RepairState) (b : String) : Prop where
  returns : (repairDivergence sha256 b s).2 = .ok ()
  placed : (repairDivergence sha256 b s).1.cluster.placement = s.cluster.placement
  agreed : s.holders b ≠ [] → ∃ copy, s.Latest b copy ∧
    ∀ n ∈ s.holders b, (repairDivergence sha256 b s).1.copyAt b n = some copy

/-- The holders have the same copy. -/
def Agreed (s : RepairState) (b : String) : Prop :=
  ∀ n ∈ s.holders b, ∀ m ∈ s.holders b, s.copyAt b n = s.copyAt b m

/-- A row that can be sent as a copy, and stored. -/
structure Sendable (row : Row) : Prop where
  pos : 1 ≤ row.version ∧ 1 ≤ row.originLsn
  bindable : Bindable row.version ∧ Bindable row.originLsn

/-- Every node of the placement is up and has the block, up to the first node without a name. -/
def Whole (s : RepairState) (b : String) : Prop :=
  ∀ n ∈ ((s.locations b).getD []).takeWhile (· ≠ ""), s.holds b n = true

/-- Copies that differ can be repaired. -/
structure Mendable (sha256 : String → String) (s : RepairState) (b : String) : Prop where
  carried : s.Carries b
  /-- Two copies have different digests. -/
  detected : ∃ n ∈ s.holders b, ∃ m ∈ s.holders b, s.digest sha256 b n ≠ s.digest sha256 b m
  /-- The newest copy can be sent, and those of its version have its data. -/
  newest : ∃ n ∈ s.holders b, ∃ row, s.readRow b n = some row ∧ Sendable row ∧
    ∀ m ∈ s.holders b, ∀ row', s.readRow b m = some row' → row'.version < row.version ∨
      (row'.version = row.version ∧ row'.originLsn ≤ row.originLsn ∧
        row'.data.getD "" = row.data.getD "")
  whole : s.Whole b

/-! ## Missing nodes -/

variable {s s' : RepairState} {sha256 : String → String} {b n m source target : String} {v : ℤ}
  {nodes : List String} {row row' : Row}

/-- What a search finds has no name just when nothing is found before the first node without one. -/
theorem truthy_find?_eq_none {p : String → Bool} (hp : p "" = true) (L : List String) :
    truthy (L.find? p) = none ↔ ∀ n ∈ L.takeWhile (· ≠ ""), p n = false := by
  induction L with
  | nil => exact iff_of_true rfl nofun
  | cons n L ih =>
      by_cases hn : n = ""
      · subst hn
        rw [List.find?_cons_of_pos hp]
        simp [truthy]
      · have htake : (n :: L).takeWhile (· ≠ "") = n :: L.takeWhile (· ≠ "") :=
          List.takeWhile_cons_of_pos (by simpa using hn)
        rw [htake, List.forall_mem_cons]
        by_cases hpn : p n = true
        · rw [List.find?_cons_of_pos hpn, truthy_some hn]
          simp [hpn]
        · rw [List.find?_cons_of_neg hpn, ih]
          simp [hpn]

theorem truthy_or_eq_none {down lacking : Option String} :
    (truthy (down.or lacking)).or (truthy lacking) = none ↔
      truthy down = none ∧ truthy lacking = none := by
  rcases down with _ | down
  · rw [Option.none_or, Option.or_self]
    exact (and_iff_right rfl).symm
  · rw [Option.some_or, Option.or_eq_none_iff]

theorem blank_notMem_healthyNodes (s : RepairState) : "" ∉ s.healthyNodes := by
  intro h
  obtain ⟨record, hget, -⟩ := MembershipRegistry.mem_healthyNodes.mp h
  rw [s.named] at hget
  cases hget

/-- An update finds no node to replace just when no node of the placement is missing. -/
theorem exists_oldNode (hb : s.Carries b) (htaken : ∀ n ∈ (s.locations b).getD [], s.Taken n) :
    ∃ missing old, s.missingNode b = .ok missing ∧
      s.oldNode b ((s.locations b).getD []) missing = .ok old ∧ (old = none ↔ s.Whole b) := by
  have hup : ((s.locations b).getD []).find?
      (· ∈ ((s.locations b).getD []).filter (· ∉ s.healthyNodes)) =
        ((s.locations b).getD []).find? (· ∉ s.healthyNodes) := by
    rw [← List.head?_filter, ← List.head?_filter]
    refine congrArg List.head? (List.filter_congr fun n hn => ?_)
    simp [hn]
  have hnone : ((s.locations b).getD []).find? (· ∈ ([] : List String)) = none :=
    List.find?_eq_none.mpr (by simp)
  have hblank : s.hasBlock "" b ≠ some true := fun h =>
    ne_blank_of_reaches (reaches_of_hasBlock h) rfl
  have hsplit : s.Whole b ↔
      truthy (((s.locations b).getD []).find? (· ∉ s.healthyNodes)) = none ∧
        truthy (((s.locations b).getD []).find? fun n => s.hasBlock n b ≠ some true) = none := by
    rw [truthy_find?_eq_none (by simpa using blank_notMem_healthyNodes s),
      truthy_find?_eq_none (by simpa using hblank), ← forall₂_and]
    refine forall₂_congr fun n _ => ?_
    rw [← present_eq_holds hb]
    unfold present
    simp
  have hmissing := findMissingNode_of_taken hb htaken
    (((s.locations b).getD []).filter (· ∉ s.healthyNodes))
  rw [hup] at hmissing
  refine ⟨_, _, hmissing, ?_, truthy_or_eq_none.trans hsplit.symm⟩
  unfold oldNode
  rw [findMissingNode_of_taken hb htaken, hnone, Option.none_or]
  rcases truthy ((((s.locations b).getD []).find? (· ∉ s.healthyNodes)).or
    (((s.locations b).getD []).find? fun n => s.hasBlock n b ≠ some true)) with _ | n
  · rfl
  · rfl

theorem updatePlacement_of_whole (hb : s.Carries b)
    (htaken : ∀ n ∈ (s.locations b).getD [], s.Taken n)
    (htarget : target ∈ (s.locations b).getD []) (hwhole : s.Whole b) :
    updatePlacement b target v s = (s, .ok ()) := by
  obtain ⟨missing, old, hmissing, hold, hiff⟩ := exists_oldNode hb htaken
  unfold updatePlacement updateMetadata
  simp only [hmissing, hold, hiff.mpr hwhole, Option.filter_none, if_pos htarget]

/-- A node that is missing is to be replaced by the target, which is in the placement already. -/
theorem updatePlacement_of_gap (hb : s.Carries b)
    (htaken : ∀ n ∈ (s.locations b).getD [], s.Taken n)
    (htarget : target ∈ (s.locations b).getD []) (hholds : s.holds b target = true)
    (hgap : ¬ s.Whole b) : ∃ e, updatePlacement b target v s = (s, .error e) := by
  obtain ⟨missing, old, hmissing, hold, hiff⟩ := exists_oldNode hb htaken
  obtain ⟨old, rfl⟩ := Option.ne_none_iff_exists'.mp (mt hiff.mp hgap)
  obtain ⟨hmem, hno⟩ := oldNode_spec hmissing hold
  obtain ⟨L, hL, htarget⟩ := exists_locations_of_mem htarget
  rw [hL] at hmem hold
  have hne : old ≠ target := by
    rintro rfl
    rw [present_eq_holds hb, hholds] at hno
    cases hno
  unfold updatePlacement updateMetadata
  simp only [hmissing, hL, hold, Option.filter_some, hne, ne_eq, not_false_eq_true, decide_true,
    if_true]
  exact replaceReplica_of_mem hL hmem htarget hne

/-! ## Repairs -/

/-- The row that a copy leaves. -/
def copyRow (source : String) (row : Row) : Row :=
  .live (row.data.getD "") row.version source row.originLsn

theorem validate_copyRequest {req : ReplicateRequest}
    (h : ReplicateRequest.validate (copyRequest b source row) = some req) :
    req.blockId = b ∧ req.version = row.version ∧ req.lsn = row.originLsn ∧
      Row.live req.data req.version req.originNodeId req.lsn = copyRow source row := by
  unfold copyRequest ReplicateRequest.validate ReplicateDeleteRequest.validate at h
  simp only at h
  split_ifs at h
  · obtain rfl := Option.some.inj h
    exact ⟨rfl, rfl, rfl, rfl⟩
  · cases h

theorem readRow_copied_of_ne (h : n ≠ target) :
    (s.copied b source target row).readRow b n = s.readRow b n := by
  unfold readRow copied setNode
  simp only [Function.update_of_ne h]
  rfl

theorem reaches_copied (n : String) :
    (s.copied b source target row).cluster.reaches (s.copied b source target row).silent n =
      s.cluster.reaches s.silent n := rfl

/-- A copy replaces an older row, if it can be stored, and no other. -/
theorem copied_cases {req : ReplicateRequest}
    (hreq : ReplicateRequest.validate (copyRequest b source row) = some req)
    (hrow' : s.readRow b target = some row') :
    (row'.version < row.version ∧ (Bindable row.version ∧ Bindable row.originLsn) ∧
        ((s.cluster.nodes target).replicate (copyRequest b source row)).2 = 200 ∧
        (s.copied b source target row).readRow b target = some (copyRow source row)) ∨
      ((s.copied b source target row).readRow b target = some row' ∧
        ((row'.version = row.version ∧
            ((s.cluster.nodes target).replicate (copyRequest b source row)).2 = 200) ∨
          (row.version < row'.version ∧
            ((s.cluster.nodes target).replicate (copyRequest b source row)).2 = 409) ∨
          (row'.version < row.version ∧ ¬ (Bindable row.version ∧ Bindable row.originLsn) ∧
            ((s.cluster.nodes target).replicate (copyRequest b source row)).2 = 500))) := by
  obtain ⟨hreach, hlive'⟩ := readRow_eq_some.mp hrow'
  obtain ⟨hrows, hdel⟩ := LocalEngine.liveRow_eq_some.mp hlive'
  obtain ⟨hb, hversion, hlsn, hcopy⟩ := validate_copyRequest hreq
  have hread : ∀ u : Row, u.deleted = false →
      ((s.cluster.nodes target).replicate (copyRequest b source row)).1.rows b = some u →
        (s.copied b source target row).readRow b target = some u := by
    intro u hu hrow
    rw [readRow_eq_some, reaches_copied]
    exact ⟨hreach, liveRow_copied_target.trans (LocalEngine.liveRow_eq_some.mpr ⟨hrow, hu⟩)⟩
  have hspec := LocalEngine.replicate_of_live hreq (by rw [hb]; exact hrows) hdel
  rw [hb, hversion, hlsn] at hspec
  rcases hspec with ⟨hlt, hfits, hcode, hput⟩ | ⟨hkept, hwhy⟩
  · rw [← hversion, ← hlsn, hcopy] at hput
    exact Or.inl ⟨hlt, hfits, hcode, hread _ rfl hput⟩
  · exact Or.inr ⟨hread row' hdel hkept, hwhy⟩

/-- A repair whose request is not valid raises. -/
theorem repairBlock_of_invalid (hb : s.Carries b) (hrow : s.readRow b source = some row)
    (htarget : s.cluster.reaches s.silent target = true)
    (hinvalid : ReplicateRequest.validate (copyRequest b source row) = none) :
    repairBlock b v (some source) (some target) s = (s, .error .invalidRequest) := by
  obtain ⟨hsource, hlive⟩ := readRow_eq_some.mp hrow
  unfold repairBlock
  rw [copyVerified_of_reaches hb hsource htarget hlive, hinvalid]

/-- A copy is verified when the target then shows the data and the version of the source. -/
theorem agrees_copied (hb : s.Carries b) (hne : source ≠ target)
    (hrow : s.readRow b source = some row) {after : Row}
    (hafter : (s.copied b source target row).readRow b target = some after) :
    ((s.copied b source target row).readBlock source b).agrees
        ((s.copied b source target row).readBlock target b) =
      decide (after.data.getD "" = row.data.getD "" ∧ after.version = row.version) := by
  have hb' : (s.copied b source target row).Carries b := hb
  rw [(readBlock_eq_record hb').mpr ⟨row, (readRow_copied_of_ne hne).trans hrow, rfl⟩,
    (readBlock_eq_record hb').mpr ⟨after, hafter, rfl⟩]
  unfold Answer.agrees StorageEngine.blockRecord
  simp only
  rw [Bool.eq_iff_iff, Bool.and_eq_true, beq_iff_eq, beq_iff_eq, decide_eq_true_iff]
  exact and_congr eq_comm eq_comm

/-- The copy of a target becomes that of the source, or is. -/
def Takes (row row' : Row) : Prop :=
  (row'.version < row.version ∧ Bindable row.version ∧ Bindable row.originLsn) ∨
    (row'.version = row.version ∧ row'.data.getD "" = row.data.getD "")

/-- A repair leaves what its copy leaves. -/
theorem fst_repairBlock (hb : s.Carries b) {req : ReplicateRequest}
    (hreq : ReplicateRequest.validate (copyRequest b source row) = some req)
    (hrow : s.readRow b source = some row) (htarget : s.cluster.reaches s.silent target = true)
    (hmem : target ∈ (s.locations b).getD []) :
    (repairBlock b v (some source) (some target) s).1 = s.copied b source target row := by
  obtain ⟨hsource, hlive⟩ := readRow_eq_some.mp hrow
  have hupdate : (updatePlacement b target v (s.copied b source target row)).1 =
      s.copied b source target row := updatePlacement_of_mem v hmem
  unfold repairBlock
  rw [copyVerified_of_reaches hb hsource htarget hlive, hreq]
  simp only
  split_ifs
  · simp only
    split
    all_goals rename_i hres
    all_goals rw [hres] at hupdate
    all_goals exact hupdate
  · rfl
  · rfl

/-- A repair of a copy that is taken ends in an update of the placement. -/
theorem repairBlock_of_takes (hb : s.Carries b) {req : ReplicateRequest}
    (hreq : ReplicateRequest.validate (copyRequest b source row) = some req)
    (hne : source ≠ target) (hrow : s.readRow b source = some row)
    (hrow' : s.readRow b target = some row') (htakes : Takes row row') :
    (∃ after, (s.copied b source target row).readRow b target = some after ∧
        after.data.getD "" = row.data.getD "" ∧ after.version = row.version) ∧
      ∀ s₂, (∀ e, updatePlacement b target v (s.copied b source target row) = (s₂, .error e) →
          repairBlock b v (some source) (some target) s = (s₂, .error e)) ∧
        (updatePlacement b target v (s.copied b source target row) = (s₂, .ok ()) →
          repairBlock b v (some source) (some target) s = (s₂, .ok (.ok ()))) := by
  have hafter : ((s.cluster.nodes target).replicate (copyRequest b source row)).2 = 200 ∧
      ∃ after, (s.copied b source target row).readRow b target = some after ∧
        after.data.getD "" = row.data.getD "" ∧ after.version = row.version := by
    rcases copied_cases hreq hrow' with ⟨-, -, hcode, hread⟩ | ⟨hread, hwhy⟩
    · exact ⟨hcode, _, hread, rfl, rfl⟩
    · rcases htakes with ⟨hlt, hfits⟩ | ⟨hversion, hdata⟩
      · rcases hwhy with ⟨heq, -⟩ | ⟨hgt, -⟩ | ⟨-, hno, -⟩
        · exact absurd heq hlt.ne
        · exact absurd hgt hlt.asymm
        · exact absurd hfits hno
      · rcases hwhy with ⟨-, hcode⟩ | ⟨hgt, -⟩ | ⟨hlt, -⟩
        · exact ⟨hcode, row', hread, hdata, hversion⟩
        · exact absurd hversion hgt.ne'
        · exact absurd hversion hlt.ne
  obtain ⟨hcode, after, hread, hagree⟩ := hafter
  refine ⟨⟨after, hread, hagree⟩, ?_⟩
  have hverify := agrees_copied hb hne hrow hread
  rw [decide_eq_true hagree] at hverify
  obtain ⟨hsource, hlive⟩ := readRow_eq_some.mp hrow
  have hverified : copyVerified b (some source) (some target) s =
      (s.copied b source target row, .ok (.ok target)) := by
    rw [copyVerified_of_reaches hb hsource (readRow_eq_some.mp hrow').1 hlive, hreq]
    simp only [hcode, hverify, if_true, (by decide : (200 : ℕ) < 400)]
  refine fun s₂ => ⟨fun e hupdate => ?_, fun hupdate => ?_⟩
  · unfold repairBlock
    simp only [hverified, hupdate]
  · unfold repairBlock
    simp only [hverified, hupdate]

/-! ## The loop over the nodes -/

theorem holds_of_readRow (hup : n ∈ s.healthyNodes) (hrow : s.readRow b n = some row) :
    s.holds b n = true := by
  obtain ⟨hreach, hlive⟩ := readRow_eq_some.mp hrow
  exact holds_iff.mpr ⟨hup, hreach, Option.isSome_iff_exists.mpr ⟨row, hlive⟩⟩

/-- A copy to a node that has the block leaves the same nodes missing. -/
theorem whole_copied {req : ReplicateRequest}
    (hreq : ReplicateRequest.validate (copyRequest b source row) = some req)
    (hup : target ∈ s.healthyNodes) (hrow' : s.readRow b target = some row') :
    (s.copied b source target row).Whole b ↔ s.Whole b := by
  refine forall₂_congr fun n _ => ?_
  by_cases hn : n = target
  · subst hn
    refine iff_of_true ?_ (holds_of_readRow hup hrow')
    rcases copied_cases hreq hrow' with ⟨-, -, -, hread⟩ | ⟨hread, -⟩
    · exact holds_of_readRow hup hread
    · exact holds_of_readRow hup hread
  · rw [holds_iff, holds_iff]
    unfold copied setNode
    simp only [Function.update_of_ne hn]
    rfl

/-- A node of the placement, with the row that it answers with. -/
def Reads (s : RepairState) (b n : String) (row : Row) : Prop :=
  n ∈ (s.locations b).getD [] ∧ s.readRow b n = some row

/-- After a repair, the nodes that answered with a copy answer with a copy. -/
theorem Reads.copied {req : ReplicateRequest}
    (hreq : ReplicateRequest.validate (copyRequest b source row) = some req)
    (h : ∃ u, s.Reads b n u) : ∃ u, (s.copied b source target row).Reads b n u := by
  obtain ⟨u, hmem, hread⟩ := h
  by_cases hn : n = target
  · subst hn
    rcases copied_cases hreq hread with ⟨-, -, -, hread'⟩ | ⟨hread', -⟩
    · exact ⟨_, hmem, hread'⟩
    · exact ⟨_, hmem, hread'⟩
  · exact ⟨u, hmem, (readRow_copied_of_ne hn).trans hread⟩

/-- The loop replaces older rows by the one that is sent, if it can be stored, and no others. -/
theorem readRow_repairCopies (hb : s.Carries b) (hrow : s.readRow b source = some row)
    (hnodes : ∀ n ∈ nodes, ∃ u, s.Reads b n u) (m : String) :
    (repairCopies b v source nodes s).1.readRow b m = s.readRow b m ∨
      ∃ u, s.readRow b m = some u ∧ u.version < row.version ∧
        (Bindable row.version ∧ Bindable row.originLsn) ∧
        (repairCopies b v source nodes s).1.readRow b m = some (copyRow source row) := by
  induction nodes generalizing s with
  | nil => exact Or.inl rfl
  | cons n nodes ih =>
      obtain ⟨hn, hrest⟩ := List.forall_mem_cons.mp hnodes
      unfold repairCopies
      split_ifs with hsource
      · exact ih hb hrow hrest
      · obtain ⟨u, hmem, hread⟩ := hn
        have htarget := (readRow_eq_some.mp hread).1
        cases hvalid : ReplicateRequest.validate (copyRequest b source row) with
        | none =>
            rw [repairBlock_of_invalid hb hrow htarget hvalid]
            exact Or.inl rfl
        | some req =>
            have hfst := fst_repairBlock (v := v) hb hvalid hrow htarget hmem
            have hstep : (s.copied b source n row).readRow b m = s.readRow b m ∨
                ∃ u, s.readRow b m = some u ∧ u.version < row.version ∧
                  (Bindable row.version ∧ Bindable row.originLsn) ∧
                  (s.copied b source n row).readRow b m = some (copyRow source row) := by
              by_cases hm : m = n
              · subst hm
                rcases copied_cases hvalid hread with ⟨hlt, hfits, -, hread'⟩ | ⟨hread', -⟩
                · exact Or.inr ⟨u, hread, hlt, hfits, hread'⟩
                · exact Or.inl (hread'.trans hread.symm)
              · exact Or.inl (readRow_copied_of_ne hm)
            rcases hres : repairBlock b v (some source) (some n) s with ⟨s₁, e | res⟩
            · rw [hres] at hfst
              subst hfst
              exact hstep
            · rw [hres] at hfst
              subst hfst
              have hloop := ih (s := s.copied b source n row) hb
                ((readRow_copied_of_ne (Ne.symm hsource)).trans hrow) fun n' hn' => Reads.copied hvalid (hrest n' hn')
              rcases hstep with hsame | ⟨u, hu, hlt, hfits, hnew⟩
              · rw [hsame] at hloop
                exact hloop
              · rcases hloop with hsame' | ⟨u', hu', hlt', -⟩
                · exact Or.inr ⟨u, hu, hlt, hfits, hsame'.trans hnew⟩
                · obtain rfl := Option.some.inj (hnew.symm.trans hu')
                  exact absurd hlt' (lt_irrefl _)

/-- A loop that returns has sent a valid request, if there was a node to repair. -/
theorem exists_validate_of_ok (hb : s.Carries b) (hrow : s.readRow b source = some row)
    (hnodes : ∀ n ∈ nodes, ∃ u, s.Reads b n u) (hn : n ∈ nodes) (hne : n ≠ source)
    (hok : (repairCopies b v source nodes s).2 = .ok ()) :
    ∃ req, ReplicateRequest.validate (copyRequest b source row) = some req := by
  induction nodes with
  | nil => cases hn
  | cons m nodes ih =>
      obtain ⟨⟨u, -, hread⟩, hrest⟩ := List.forall_mem_cons.mp hnodes
      unfold repairCopies at hok
      split_ifs at hok with hsource
      · rcases List.mem_cons.mp hn with rfl | hn
        · exact absurd hsource hne
        · exact ih hrest hn hok
      · cases hvalid : ReplicateRequest.validate (copyRequest b source row) with
        | none =>
            rw [repairBlock_of_invalid hb hrow (readRow_eq_some.mp hread).1 hvalid] at hok
            cases hok
        | some req => exact ⟨req, rfl⟩

/-- A loop over copies that are taken raises, if there is one and a node is missing. -/
theorem whole_of_ok (hb : s.Carries b) (htaken : ∀ n ∈ (s.locations b).getD [], s.Taken n)
    {req : ReplicateRequest}
    (hreq : ReplicateRequest.validate (copyRequest b source row) = some req)
    (hrow : s.readRow b source = some row)
    (hnodes : ∀ n ∈ nodes, n ∈ s.healthyNodes ∧ ∃ u, s.Reads b n u ∧ Takes row u) (hn : n ∈ nodes)
    (hne : n ≠ source) (hok : (repairCopies b v source nodes s).2 = .ok ()) : s.Whole b := by
  induction nodes with
  | nil => cases hn
  | cons m nodes ih =>
      obtain ⟨⟨hup, u, ⟨hmem, hread⟩, htakes⟩, hrest⟩ := List.forall_mem_cons.mp hnodes
      unfold repairCopies at hok
      split_ifs at hok with hsource
      · rcases List.mem_cons.mp hn with rfl | hn
        · exact absurd hsource hne
        · exact ih hrest hn hok
      · obtain ⟨⟨after, hafter, -⟩, hblock⟩ :=
          repairBlock_of_takes (v := v) hb hreq (Ne.symm hsource) hrow hread htakes
        by_contra hgap
        obtain ⟨e, hupdate⟩ := updatePlacement_of_gap (v := v) (s := s.copied b source m row) hb
          htaken hmem (holds_of_readRow hup hafter) (mt (whole_copied hreq hup hread).mp hgap)
        rw [(hblock _).1 e hupdate] at hok
        cases hok

theorem placement_repairCopies (hnodes : ∀ m ∈ nodes, m ≠ "" ∧ m ∈ (s.locations b).getD []) :
    (repairCopies b v source nodes s).1.cluster.placement = s.cluster.placement := by
  induction nodes generalizing s with
  | nil => rfl
  | cons m nodes ih =>
      obtain ⟨⟨hblank, hmem⟩, hrest⟩ := List.forall_mem_cons.mp hnodes
      unfold repairCopies
      split
      · exact ih hrest
      · have hcopies := copies_repairBlock_of_mem v (some source) hblank hmem
        split
        all_goals rename_i hres
        all_goals rw [hres] at hcopies
        · exact hcopies.placement
        · exact (ih (by rw [hcopies.locations]; exact hrest)).trans hcopies.placement

/-- The loop leaves a copy of the version that is sent as it is. -/
theorem copyAt_repairCopies_of_eq (hb : s.Carries b) (hrow : s.readRow b source = some row)
    (hnodes : ∀ n ∈ nodes, ∃ u, s.Reads b n u) (hread : s.readRow b m = some row')
    (hversion : row'.version = row.version) :
    (repairCopies b v source nodes s).1.copyAt b m = s.copyAt b m := by
  unfold copyAt
  rcases readRow_repairCopies (v := v) hb hrow hnodes m with hsame | ⟨u, hu, hlt, -⟩
  · rw [hsame]
  · obtain rfl := Option.some.inj (hread.symm.trans hu)
    exact absurd hversion hlt.ne

/-- A loop over copies that are taken returns when no node is missing, and then they agree. -/
theorem repairCopies_of_whole (hb : s.Carries b)
    (htaken : ∀ n ∈ (s.locations b).getD [], s.Taken n) {req : ReplicateRequest}
    (hreq : ReplicateRequest.validate (copyRequest b source row) = some req)
    (hrow : s.readRow b source = some row)
    (hnodes : ∀ n ∈ nodes, n ∈ s.healthyNodes ∧ ∃ u, s.Reads b n u ∧ Takes row u)
    (hwhole : s.Whole b) : (repairCopies b v source nodes s).2 = .ok () ∧
      ∀ n ∈ nodes, (repairCopies b v source nodes s).1.copyAt b n =
        some (row.data.getD "", row.version) := by
  have hcopy : ∀ {s : RepairState} {n : String} {u : Row}, s.readRow b n = some u →
      u.data.getD "" = row.data.getD "" → u.version = row.version →
        s.copyAt b n = some (row.data.getD "", row.version) := by
    intro s n u hu hdata hversion
    unfold copyAt
    rw [hu, Option.map_some, hdata, hversion]
  induction nodes generalizing s with
  | nil => exact ⟨rfl, nofun⟩
  | cons m nodes ih =>
      obtain ⟨⟨hup, u, ⟨hmem, hread⟩, htakes⟩, hrest⟩ := List.forall_mem_cons.mp hnodes
      unfold repairCopies
      split_ifs with hsource
      · obtain ⟨hok, hall⟩ := ih hb htaken hrow hrest hwhole
        refine ⟨hok, List.forall_mem_cons.mpr ⟨?_, hall⟩⟩
        have hreads : ∀ n ∈ nodes, ∃ u, s.Reads b n u := fun n hn => by
          obtain ⟨-, u, hu, -⟩ := hrest n hn
          exact ⟨u, hu⟩
        rw [hsource, copyAt_repairCopies_of_eq hb hrow hreads hrow rfl]
        exact hcopy hrow rfl rfl
      · obtain ⟨⟨after, hafter, hdata, hversion⟩, hblock⟩ :=
          repairBlock_of_takes (v := v) hb hreq (Ne.symm hsource) hrow hread htakes
        have hwhole' := (whole_copied hreq hup hread).mpr hwhole
        have hb' : (s.copied b source m row).Carries b := hb
        rw [(hblock _).2 (updatePlacement_of_whole (s := s.copied b source m row) hb' htaken hmem
          hwhole')]
        have hrow' : (s.copied b source m row).readRow b source = some row :=
          (readRow_copied_of_ne (Ne.symm hsource)).trans hrow
        have hrest' : ∀ n ∈ nodes, n ∈ (s.copied b source m row).healthyNodes ∧
            ∃ u, (s.copied b source m row).Reads b n u ∧ Takes row u := by
          intro n hn
          obtain ⟨hup', u', ⟨hmem', hread'⟩, htakes'⟩ := hrest n hn
          refine ⟨hup', ?_⟩
          by_cases hnm : n = m
          · subst hnm
            exact ⟨after, ⟨hmem', hafter⟩, Or.inr ⟨hversion, hdata⟩⟩
          · exact ⟨u', ⟨hmem', (readRow_copied_of_ne hnm).trans hread'⟩, htakes'⟩
        obtain ⟨hok, hall⟩ := ih hb' htaken hrow' hrest' hwhole'
        refine ⟨hok, List.forall_mem_cons.mpr ⟨?_, hall⟩⟩
        have hreads : ∀ n ∈ nodes, ∃ u, (s.copied b source m row).Reads b n u := fun n hn => by
          obtain ⟨-, u, hu, -⟩ := hrest' n hn
          exact ⟨u, hu⟩
        simp only
        rw [copyAt_repairCopies_of_eq hb' hrow' hreads hafter hversion]
        exact hcopy hafter hdata hversion

/-! ## Convergence -/

theorem mem_holders : n ∈ s.holders b ↔ n ∈ s.healthyNodes ∧ ∃ row, s.Reads b n row := by
  unfold holders
  rw [List.mem_filter]
  constructor
  · rintro ⟨hmem, hp⟩
    obtain ⟨hn, hreach, hlive⟩ := holds_iff.mp hp
    obtain ⟨row, hlive⟩ := Option.isSome_iff_exists.mp hlive
    exact ⟨hn, row, hmem, readRow_eq_some.mpr ⟨hreach, hlive⟩⟩
  · rintro ⟨hn, row, hmem, hrow⟩
    exact ⟨hmem, holds_of_readRow hn hrow⟩

/-- The nodes of the placement that have a copy, and are reached, are up. -/
def CopiesUp (s : RepairState) (b : String) : Prop :=
  ∀ n ∈ (s.locations b).getD [], (s.readRow b n).isSome = true → n ∈ s.healthyNodes

/-- They are the holders then. -/
theorem CopiesUp.mem_holders (hup : s.CopiesUp b) (hmem : n ∈ (s.locations b).getD [])
    (hrow : s.readRow b n = some row) : n ∈ s.holders b :=
  RepairState.mem_holders.mpr
    ⟨hup n hmem (Option.isSome_iff_exists.mpr ⟨row, hrow⟩), row, hmem, hrow⟩

/-- A comparison that reports nothing is followed by no repair. -/
theorem repairDivergence_of_none (h : s.compareReplicas sha256 b = .ok none) :
    repairDivergence sha256 b s = (s, .ok ()) := by
  unfold repairDivergence
  rw [h]

/-- Without a repair the replicas converge just when they agree. -/
theorem converges_of_none (h : s.compareReplicas sha256 b = .ok none) :
    Converges sha256 s b ↔ s.Agreed b := by
  have hcall := repairDivergence_of_none h
  constructor
  · intro hconverges n hn m hm
    obtain ⟨copy, -, hall⟩ := hconverges.agreed (List.ne_nil_of_mem hn)
    rw [hcall] at hall
    exact (hall n hn).trans (hall m hm).symm
  · intro hagreed
    refine ⟨by rw [hcall], by rw [hcall], fun hne => ?_⟩
    rw [hcall]
    obtain ⟨n, hn⟩ := List.exists_mem_of_ne_nil _ hne
    obtain ⟨-, row, -, hrow⟩ := mem_holders.mp hn
    have hcopy : s.copyAt b n = some (row.data.getD "", row.version) := by
      unfold copyAt
      rw [hrow, Option.map_some]
    refine ⟨_, ⟨⟨n, hn, hcopy⟩, fun m hm copy hm' => ?_⟩,
      fun m hm => (hagreed m hm n hn).trans hcopy⟩
    rw [hagreed m hm n hn, hcopy] at hm'
    exact (congrArg Prod.snd (Option.some.inj hm')).ge

/-- A call that returns has compared the replicas. -/
theorem Converges.readable (h : Converges sha256 s b) : s.Readable b := by
  have hreturns := h.returns
  unfold repairDivergence compareReplicas at hreturns
  unfold Readable
  rcases hraised : s.raised b ((s.locations b).getD []) with _ | e
  · rfl
  · rw [hraised] at hreturns
    cases hreturns

/-- Copies that agree have one digest. -/
theorem differing_of_agreed (hb : s.Carries b) (hup : s.CopiesUp b) (h : s.Agreed b) :
    s.differing sha256 b = none := by
  rw [differing_eq_none hb]
  intro n hn m hm x y hx hy
  obtain ⟨row, hrow, -⟩ := Option.map_eq_some_iff.mp hx
  obtain ⟨row', hrow', -⟩ := Option.map_eq_some_iff.mp hy
  rw [digest_congr (h n (hup.mem_holders hn hrow) m (hup.mem_holders hm hrow')), hy] at hx
  exact (Option.some.inj hx).symm

/-- A divergence that is found is repaired from a holder of a newest copy. -/
theorem repairDivergence_of_diverged (hb : s.Carries b) (hup : s.CopiesUp b)
    (hreadable : s.Readable b) (h : s.differing sha256 b ≠ none) :
    ∃ nodes source row,
      repairDivergence sha256 b s = repairCopies b row.version source nodes s ∧
      (∀ n, n ∈ nodes ↔ n ∈ s.holders b) ∧ source ∈ nodes ∧ s.readRow b source = some row ∧
      ∀ m ∈ nodes, ∀ row', s.readRow b m = some row' → row'.version < row.version ∨
        (row'.version = row.version ∧ row'.originLsn ≤ row.originLsn) := by
  obtain ⟨nodes, hnodes⟩ := Option.ne_none_iff_exists'.mp h
  have hmem : ∀ n, n ∈ nodes ↔ n ∈ s.holders b := by
    intro n
    rw [mem_of_differing hb hnodes]
    refine ⟨fun ⟨hn, row, hrow⟩ => hup.mem_holders hn hrow, fun hn => ?_⟩
    obtain ⟨-, row, hn, hrow⟩ := mem_holders.mp hn
    exact ⟨hn, row, hrow⟩
  have hfirst : ∃ n ∈ nodes, ∃ row, s.readRow b n = some row := by
    by_contra hno
    apply h
    rw [differing_eq_none hb]
    intro n hn m hm x y hx hy
    obtain ⟨row, hrow, -⟩ := Option.map_eq_some_iff.mp hx
    exact absurd ⟨n, (mem_of_differing hb hnodes).mpr ⟨hn, row, hrow⟩, row, hrow⟩ hno
  have htaken : ∀ n ∈ nodes, s.Taken n := fun n hn =>
    hreadable.taken (mem_of_differing hb hnodes |>.mp hn).1
  obtain ⟨n, hn, row, hrow⟩ := hfirst
  obtain ⟨⟨source, record⟩, hlatest⟩ := exists_latestCopy hb hn hrow
  obtain ⟨hsource, row, hrow, rfl, hmax⟩ := latestCopy_spec hb hlatest
  refine ⟨nodes, source, row, ?_, hmem, hsource, hrow, hmax⟩
  unfold repairDivergence
  rw [hreadable.compareReplicas, hnodes]
  simp only
  rw [findLatest_of_taken hb htaken, hlatest]
  rfl

/-- Something is reported just when two holders have copies with different digests. -/
theorem differing_ne_none (hb : s.Carries b) (hup : s.CopiesUp b) : s.differing sha256 b ≠ none ↔
    ∃ n ∈ s.holders b, ∃ m ∈ s.holders b, s.digest sha256 b n ≠ s.digest sha256 b m := by
  rw [Ne, differing_eq_none hb]
  constructor
  · intro h
    by_contra hsame
    push Not at hsame
    refine h fun n hn m hm x y hx hy => ?_
    obtain ⟨u, hu, -⟩ := Option.map_eq_some_iff.mp hx
    obtain ⟨u', hu', -⟩ := Option.map_eq_some_iff.mp hy
    have heq := hsame n (hup.mem_holders hn hu) m (hup.mem_holders hm hu')
    rw [hx, hy] at heq
    exact Option.some.inj heq
  · rintro ⟨n, hn, m, hm, hne⟩ hnone
    obtain ⟨-, row, hmem, hrow⟩ := mem_holders.mp hn
    obtain ⟨-, row', hmem', hrow'⟩ := mem_holders.mp hm
    apply hne
    unfold digest at hnone ⊢
    rw [hrow, hrow']
    exact congrArg some (hnone n hmem m hmem' _ _ (by rw [hrow]; rfl) (by rw [hrow']; rfl))

/-- Copies that can be repaired converge. -/
theorem converges_of_mendable (hup : s.CopiesUp b) (hreadable : s.Readable b)
    (h : Mendable sha256 s b) : Converges sha256 s b := by
  have hb := h.carried
  have hdiverged : s.differing sha256 b ≠ none := (differing_ne_none hb hup).mpr h.detected
  have hnamed : b ≠ "" := by
    rintro rfl
    obtain ⟨n, hn, m, hm, hne⟩ := h.detected
    obtain ⟨-, row, -, hrow⟩ := mem_holders.mp hn
    obtain ⟨-, row', -, hrow'⟩ := mem_holders.mp hm
    unfold digest at hne
    rw [hrow, hrow'] at hne
    exact hne rfl
  obtain ⟨nodes, source, row, hcall, hmem, hsource, hrow, hmax⟩ :=
    repairDivergence_of_diverged hb hup hreadable hdiverged
  obtain ⟨k, hk, best, hbest, hsend, htop⟩ := h.newest
  -- the row that is sent is one of the newest
  have hsame : row.version = best.version ∧ row.originLsn = best.originLsn ∧
      row.data.getD "" = best.data.getD "" := by
    rcases htop source ((hmem source).mp hsource) row hrow with hlt | ⟨hversion, hlsn, hdata⟩
    · rcases hmax k ((hmem k).mpr hk) best hbest with hlt' | ⟨heq, -⟩
      · exact absurd hlt' hlt.asymm
      · exact absurd heq hlt.ne'
    · refine ⟨hversion, le_antisymm hlsn ?_, hdata⟩
      rcases hmax k ((hmem k).mpr hk) best hbest with hlt' | ⟨-, hlsn'⟩
      · exact absurd hversion hlt'.ne'
      · exact hlsn'
  obtain ⟨hversion, hlsn, hdata⟩ := hsame
  have hvalid : ReplicateRequest.validate (copyRequest b source row) = some _ :=
    LocalEngine.validate_eq_some ⟨hnamed, hversion ▸ hsend.pos.1, hlsn ▸ hsend.pos.2,
      ne_blank_of_reaches (readRow_eq_some.mp hrow).1⟩
  have hnodes : ∀ n ∈ nodes, n ∈ s.healthyNodes ∧ ∃ u, s.Reads b n u ∧ Takes row u := by
    intro n hn
    obtain ⟨hn', u, hu⟩ := mem_holders.mp ((hmem n).mp hn)
    refine ⟨hn', u, hu, ?_⟩
    rcases htop n ((hmem n).mp hn) u hu.2 with hlt | ⟨heq, -, hdata'⟩
    · exact Or.inl ⟨hversion ▸ hlt, hversion ▸ hsend.bindable.1, hlsn ▸ hsend.bindable.2⟩
    · exact Or.inr ⟨heq.trans hversion.symm, hdata'.trans hdata.symm⟩
  obtain ⟨hok, hall⟩ := repairCopies_of_whole (v := row.version) hb
    (fun _ hn => hreadable.taken hn) hvalid hrow hnodes h.whole
  refine ⟨by rw [hcall, hok], ?_, fun _ => ⟨(row.data.getD "", row.version),
    ⟨⟨source, (hmem source).mp hsource, ?_⟩, ?_⟩, ?_⟩⟩
  · rw [hcall]
    refine placement_repairCopies fun n hn => ?_
    obtain ⟨-, u, hu⟩ := mem_holders.mp ((hmem n).mp hn)
    exact ⟨ne_blank_of_reaches (readRow_eq_some.mp hu.2).1, hu.1⟩
  · unfold copyAt
    rw [hrow]
    rfl
  · intro n hn copy hcopy
    obtain ⟨u, hu, rfl⟩ := Option.map_eq_some_iff.mp hcopy
    rcases hmax n ((hmem n).mpr hn) u hu with hlt | ⟨heq, -⟩
    · exact hlt.le
    · exact heq.le
  · intro n hn
    rw [hcall]
    exact hall n ((hmem n).mpr hn)

/-- What converges agrees, or could be repaired. -/
theorem mendable_of_converges (hb : s.Carries b) (hup : s.CopiesUp b) (h : Converges sha256 s b)
    (hno : ¬ s.Agreed b) : Mendable sha256 s b := by
  have hne : s.holders b ≠ [] := by
    rintro hnil
    apply hno
    unfold Agreed
    rw [hnil]
    exact nofun
  have hreadable := h.readable
  obtain ⟨copy, -, hall⟩ := h.agreed hne
  have hdiverged : s.differing sha256 b ≠ none := by
    intro hnone
    have hcompare := hreadable.compareReplicas sha256
    rw [hnone] at hcompare
    exact hno ((converges_of_none hcompare).mp h)
  obtain ⟨nodes, source, row, hcall, hmem, hsource, hrow, hmax⟩ :=
    repairDivergence_of_diverged hb hup hreadable hdiverged
  have hok := h.returns
  rw [hcall] at hok hall
  have hreads : ∀ n ∈ nodes, ∃ u, s.Reads b n u := fun n hn =>
    (mem_holders.mp ((hmem n).mp hn)).2
  -- the copy of the source stays, and so it is the one that all end with
  have hsourceCopy : s.copyAt b source = some copy := by
    rw [← copyAt_repairCopies_of_eq (v := row.version) hb hrow hreads hrow rfl]
    exact hall source ((hmem source).mp hsource)
  have hequal : ∀ n ∈ nodes, ∀ u, s.readRow b n = some u → u.version = row.version →
      s.copyAt b n = s.copyAt b source := by
    intro n hn u hu hversion
    rw [hsourceCopy, ← hall n ((hmem n).mp hn)]
    exact (copyAt_repairCopies_of_eq hb hrow hreads hu hversion).symm
  -- some holder has another copy, which is older and is replaced
  obtain ⟨n, hn, hdiffers⟩ : ∃ n ∈ nodes, s.copyAt b n ≠ s.copyAt b source := by
    by_contra hsame
    push Not at hsame
    exact hno fun n hn m hm =>
      (hsame n ((hmem n).mpr hn)).trans (hsame m ((hmem m).mpr hm)).symm
  obtain ⟨u, -, hu⟩ := hreads n hn
  have hneSource : n ≠ source := by
    rintro rfl
    exact hdiffers rfl
  have hbindable : Bindable row.version ∧ Bindable row.originLsn := by
    rcases readRow_repairCopies (v := row.version) hb hrow hreads n with hsame | ⟨-, -, -, hfits, -⟩
    · refine absurd ?_ hdiffers
      rw [hsourceCopy, ← hall n ((hmem n).mp hn)]
      unfold copyAt
      rw [hsame]
    · exact hfits
  obtain ⟨req, hreq⟩ := exists_validate_of_ok hb hrow hreads hn hneSource hok
  have hpos : 1 ≤ row.version ∧ 1 ≤ row.originLsn := by
    obtain ⟨-, hversion, hlsn, -⟩ := validate_copyRequest hreq
    exact ⟨hversion ▸ req.version_pos, hlsn ▸ req.lsn_pos⟩
  have hdata : ∀ m ∈ nodes, ∀ u, s.readRow b m = some u → u.version = row.version →
      u.data.getD "" = row.data.getD "" := by
    intro m hm u hu hversion
    have heq := hequal m hm u hu hversion
    unfold copyAt at heq
    rw [hu, hrow] at heq
    exact (Prod.mk.inj (Option.some.inj heq)).1
  refine ⟨hb, (differing_ne_none hb hup).mp hdiverged,
    ⟨source, (hmem source).mp hsource, row, hrow, ⟨hpos, hbindable⟩, ?_⟩, ?_⟩
  · intro m hm u' hu'
    rcases hmax m ((hmem m).mpr hm) u' hu' with hlt | ⟨heq, hlsn⟩
    · exact Or.inl hlt
    · exact Or.inr ⟨heq, hlsn, hdata m ((hmem m).mpr hm) u' hu' heq⟩
  · refine whole_of_ok hb (fun _ hn => hreadable.taken hn) hreq hrow (fun m hm => ?_) hn hneSource hok
    obtain ⟨hm', u', hread⟩ := mem_holders.mp ((hmem m).mp hm)
    refine ⟨hm', u', hread, ?_⟩
    rcases hmax m hm u' hread.2 with hlt | ⟨heq, -⟩
    · exact Or.inl ⟨hlt, hbindable⟩
    · exact Or.inr ⟨heq, hdata m hm u' hread.2 heq⟩

/-- Three nodes, of which the third is down. -/
def lastDown : MembershipRegistry :=
  (((MembershipRegistry.empty.register "node1" "127.0.0.1:8001" 60000).register "node2"
    "127.0.0.1:8002" 60000).register "node3" "127.0.0.1:8003" 1000).checkFailures 15000 60000

theorem named_lastDown : lastDown.nodes.get? "" = none := by decide +kernel

/-- Two versions of a block on the first two nodes. -/
def twoVersions (nodeId : String) : LocalEngine :=
  let written := (LocalEngine.empty nodeId).call (.writeLocal "a" "x" (.resolve (some 1)) none none)
  if nodeId = "node1" then written.call (.writeLocal "a" "y" (.resolve (some 2)) none none)
  else if nodeId = "node2" then written
  else .empty nodeId

/-- The block is placed on the given nodes. -/
def placedOn (nodes : List String) : RepairState where
  cluster := {
    membership := lastDown
    placement := { Placement.empty with registry := .registerBlock .empty "a" 1 nodes }
    nodes := twoVersions
    urls := .plain }
  silent := ["node3"]
  policy := ⟨0⟩
  jobs := Table.empty
  named := named_lastDown

theorem copiesUp_placedOn : (placedOn ["node1", "node2"]).CopiesUp "a" := by
  unfold CopiesUp
  decide +kernel

end NanoFabric.Repair.RepairState
