import NanoFabric.Replication.Quorum

/-!
# Outcomes of reads

A read of a block whose nodes each return a live copy, answer that they have none, or cannot be
reached: what the coordinator reports of it, for every order in which the answers arrive.

* `read_eq_none` — nothing is found just when no node returns a copy, whether the others answered or
  could not be reached.
* `quorumSatisfied_read` — a quorum is reported just when enough nodes return a copy.
* `shown_read` — what is shown is independent of the order just when the newest copies carry the
  same data.
* `classifies_iff` — so that an outcome is classified just when the nodes that could not be reached
  leave a quorum, unless some node returns a copy, and the newest copies carry the same data.
-/

namespace NanoFabric.Replication

open NanoFabric.Node
open NanoFabric.Repair

/-! ## The nodes of a placement -/

/-- What a node of the placement gives the coordinator, where a node that is `none` cannot be
reached: an error and an answer without a copy come out the same.
Source: `node/read_coordinator.py`, `read_node`. -/
def readNode (nodes : String → Option TimedEngine) (blockId nodeId : String) : Option ReplicaCopy :=
  (nodes nodeId).bind fun t => copyOf (fun _ => t) blockId nodeId

/-- The node cannot be reached. -/
def unreachable (nodes : String → Option TimedEngine) (nodeId : String) : Bool :=
  (nodes nodeId).isNone

/-- The node returns a live copy. -/
def returnsCopy (nodes : String → Option TimedEngine) (blockId nodeId : String) : Bool :=
  (readNode nodes blockId nodeId).isSome

/-- The node answers that it has no live copy. -/
def answersAbsent (nodes : String → Option TimedEngine) (blockId nodeId : String) : Bool :=
  !unreachable nodes nodeId && !returnsCopy nodes blockId nodeId

/-- The copies in the order in which the nodes answer.
Source: `node/read_coordinator.py`, `_read_from_replicas`. -/
def readCopies (nodes : String → Option TimedEngine) (blockId : String) (arrivals : List String) :
    List ReplicaCopy :=
  arrivals.filterMap (readNode nodes blockId)

/-- Source: `node/read_coordinator.py`, `_read_local_only`. -/
def readLocalOnly (nodes : String → Option TimedEngine) (nodeId blockId : String) :
    Option ReadResult :=
  (readNode nodes blockId nodeId).map fun record => .ofCopy record true 1 .success

/-- A read of the coordinator `nodeId`, of a block that is placed on `locations` and whose answers
arrive in the order `arrivals`.
Source: `node/read_coordinator.py`, `read`. -/
def read (nodeId : String) (level : ConsistencyLevel) (nodes : String → Option TimedEngine)
    (blockId : String) (locations arrivals : List String) : Option ReadResult :=
  if locations = [] then readLocalOnly nodes nodeId blockId
  else coordinate level locations.length (readCopies nodes blockId arrivals)

/-- What a caller is shown of the block. -/
def ReadResult.shown (result : ReadResult) : String × ℤ × QuorumOutcome :=
  (result.data, result.version, result.outcome)

/-- The outcome of a read is classified, in whatever order the nodes answer. -/
structure Classifies (nodeId : String) (level : ConsistencyLevel)
    (nodes : String → Option TimedEngine) (blockId : String) (locations : List String) : Prop where
  /-- Nothing is found only when enough nodes answer that they have no copy. -/
  notFound : ∀ arrivals : List String, arrivals.Perm locations →
    read nodeId level nodes blockId locations arrivals = none →
      requiredReads locations.length level ≤ locations.countP (answersAbsent nodes blockId)
  /-- A quorum is reported when enough nodes return a copy, and only then. -/
  satisfied : ∀ arrivals : List String, arrivals.Perm locations →
    ((∃ result, read nodeId level nodes blockId locations arrivals = some result ∧
        result.quorumSatisfied = true) ↔
      requiredReads locations.length level ≤ locations.countP (returnsCopy nodes blockId))
  /-- What is shown does not depend on the order of the answers. -/
  order : ∀ arrivals arrivals' : List String, arrivals.Perm locations → arrivals'.Perm locations →
    (read nodeId level nodes blockId locations arrivals).map ReadResult.shown =
      (read nodeId level nodes blockId locations arrivals').map ReadResult.shown

/-- No node that returns a copy returns a newer one. -/
def Newest (nodes : String → Option TimedEngine) (blockId : String) (locations : List String)
    (c : ReplicaCopy) : Prop :=
  (∃ n ∈ locations, readNode nodes blockId n = some c) ∧
    ∀ n ∈ locations, ∀ d, readNode nodes blockId n = some d → d.key ≤ c.key

/-- When the outcomes are classified: if no node returns a copy, those that could not be reached leave
enough others, and the copies of the greatest version, LSN and time carry the same data. -/
structure Decided (level : ConsistencyLevel) (nodes : String → Option TimedEngine)
    (blockId : String) (locations : List String) : Prop where
  reached : (∀ n ∈ locations, returnsCopy nodes blockId n = false) →
    locations.countP (unreachable nodes) + requiredReads locations.length level ≤ locations.length
  agree : ∀ c d, Newest nodes blockId locations c → Newest nodes blockId locations d →
    c.data = d.data

/-! ## The copies that arrive -/

variable {nodes : String → Option TimedEngine} {nodeId blockId n : String}
  {locations arrivals : List String} {level : ConsistencyLevel} {c d : ReplicaCopy}

theorem mem_readCopies :
    c ∈ readCopies nodes blockId arrivals ↔ ∃ n ∈ arrivals, readNode nodes blockId n = some c :=
  List.mem_filterMap

theorem perm_readCopies (h : arrivals.Perm locations) :
    (readCopies nodes blockId arrivals).Perm (readCopies nodes blockId locations) :=
  h.filterMap _

/-- There are as many copies as nodes that return one. -/
theorem length_readCopies :
    (readCopies nodes blockId arrivals).length = arrivals.countP (returnsCopy nodes blockId) := by
  induction arrivals with
  | nil => rfl
  | cons n ns ih =>
      unfold readCopies returnsCopy at ih ⊢
      rcases hcopy : readNode nodes blockId n with _ | c
      · rw [List.filterMap_cons_none hcopy, List.countP_cons_of_neg (by simp [hcopy]), ih]
      · rw [List.filterMap_cons_some hcopy, List.countP_cons_of_pos (by simp [hcopy]),
          List.length_cons, ih]

theorem readNode_deleted (h : readNode nodes blockId n = some c) : c.deleted = false := by
  obtain ⟨t, -, hcopy⟩ := Option.bind_eq_some_iff.mp h
  exact (copyOf_nodeId hcopy).2.2

/-- Every copy counts: no node answers with a deleted one. -/
theorem successfulCopies_readCopies :
    successfulCopies (readCopies nodes blockId arrivals) = readCopies nodes blockId arrivals := by
  refine List.filter_eq_self.mpr fun c hc => ?_
  obtain ⟨n, -, hcopy⟩ := mem_readCopies.mp hc
  rw [readNode_deleted hcopy, Bool.not_false, Bool.or_true]

/-- The nodes of a placement return a copy, answer without one, or cannot be reached. -/
theorem countP_outcomes (nodes : String → Option TimedEngine) (blockId : String)
    (locations : List String) : locations.countP (returnsCopy nodes blockId) +
    locations.countP (answersAbsent nodes blockId) + locations.countP (unreachable nodes) =
      locations.length := by
  induction locations with
  | nil => rfl
  | cons n ns ih =>
      have hone : (if returnsCopy nodes blockId n then 1 else 0) +
          (if answersAbsent nodes blockId n then 1 else 0) +
            (if unreachable nodes n then 1 else 0) = 1 := by
        unfold answersAbsent returnsCopy unreachable readNode
        rcases nodes n with _ | t
        · rfl
        · rw [Option.bind_some]
          cases copyOf (fun _ => t) blockId n <;> rfl
      rw [List.countP_cons, List.countP_cons, List.countP_cons, List.length_cons]
      omega

/-- The copy that is met first stays selected when no other is newer. -/
theorem selectLatest_cons_of_max {copies : List ReplicaCopy} (h : ∀ d ∈ copies, d.key ≤ c.key) :
    selectLatest (c :: copies) = some c := by
  induction copies with
  | nil => rfl
  | cons d copies ih =>
      have hle : ¬ 0 < compareCopies d c := by
        rw [compareCopies_pos, not_lt]
        exact h d List.mem_cons_self
      have hrest := ih fun e he => h e (List.mem_cons_of_mem _ he)
      simp only [selectLatest, List.foldl_cons, if_neg hle] at hrest ⊢
      exact hrest

/-! ## Reads -/

/-- A read of a block that is placed: the newest copy that arrives first is shown. -/
theorem read_eq (h : locations ≠ []) : read nodeId level nodes blockId locations arrivals =
    (selectLatest (readCopies nodes blockId arrivals)).map fun latest =>
      if requiredReads locations.length level ≤ arrivals.countP (returnsCopy nodes blockId) then
        .ofCopy latest true (readCopies nodes blockId arrivals).length .success
      else .ofCopy latest false (readCopies nodes blockId arrivals).length .failed := by
  unfold read
  rw [if_neg h]
  simp only [coordinate, successfulCopies_readCopies, isQuorumSatisfied, ← length_readCopies]
  by_cases hnil : readCopies nodes blockId arrivals = []
  · rw [if_pos hnil, hnil]
    rfl
  · rw [if_neg hnil]
    by_cases hsat : requiredReads locations.length level ≤
        (readCopies nodes blockId arrivals).length
    · simp only [hsat, decide_true, if_true]
    · simp only [hsat, decide_false, if_false, Bool.false_eq_true]

/-- Nothing is found just when no node returns a copy. -/
theorem read_eq_none (h : locations ≠ []) (harr : arrivals.Perm locations) :
    read nodeId level nodes blockId locations arrivals = none ↔
      ∀ n ∈ locations, returnsCopy nodes blockId n = false := by
  rw [read_eq h, Option.map_eq_none_iff, selectLatest_eq_none, ← List.length_eq_zero_iff,
    length_readCopies, List.countP_eq_zero]
  exact forall_congr' fun n => by rw [harr.mem_iff, Bool.not_eq_true]

theorem one_le_requiredReads (level : ConsistencyLevel) (h : locations ≠ []) : 1 ≤ requiredReads locations.length level := by
  cases level with
  | one => exact le_rfl
  | all => exact List.length_pos_iff.mpr h
  | quorum => exact Nat.le_add_left 1 _

/-- A quorum is reported just when enough nodes return a copy. -/
theorem quorumSatisfied_read (h : locations ≠ []) (harr : arrivals.Perm locations) :
    (∃ result, read nodeId level nodes blockId locations arrivals = some result ∧
        result.quorumSatisfied = true) ↔
      requiredReads locations.length level ≤ locations.countP (returnsCopy nodes blockId) := by
  rw [read_eq h, harr.countP_eq]
  constructor
  · rintro ⟨result, hread, hq⟩
    obtain ⟨latest, -, rfl⟩ := Option.map_eq_some_iff.mp hread
    by_contra hlt
    rw [if_neg hlt] at hq
    cases hq
  · intro hle
    have hcopies : readCopies nodes blockId arrivals ≠ [] := by
      rw [ne_eq, ← List.length_eq_zero_iff, length_readCopies, harr.countP_eq]
      have hone := one_le_requiredReads level h
      omega
    obtain ⟨latest, hsel⟩ := Option.ne_none_iff_exists'.mp (mt selectLatest_eq_none.mp hcopies)
    simp only [hsel, if_pos hle, Option.map_some]
    exact ⟨_, rfl, rfl⟩

/-- The selected copy is a newest one of the placement. -/
theorem newest_of_selectLatest (harr : arrivals.Perm locations)
    (h : selectLatest (readCopies nodes blockId arrivals) = some c) :
    Newest nodes blockId locations c := by
  obtain ⟨hmem, hmax⟩ := selectLatest_eq_some h
  obtain ⟨n, hn, hcopy⟩ := mem_readCopies.mp hmem
  exact ⟨⟨n, harr.mem_iff.mp hn, hcopy⟩, fun m hm d hd =>
    hmax d (mem_readCopies.mpr ⟨m, harr.mem_iff.mpr hm, hd⟩)⟩

theorem Newest.key_eq (hc : Newest nodes blockId locations c)
    (hd : Newest nodes blockId locations d) : c.key = d.key := by
  obtain ⟨⟨n, hn, hcn⟩, hcmax⟩ := hc
  obtain ⟨⟨m, hm, hdm⟩, hdmax⟩ := hd
  exact le_antisymm (hdmax n hn c hcn) (hcmax m hm d hdm)

/-- Every newest copy is the one that is selected when its node answers first. -/
theorem exists_arrivals (h : Newest nodes blockId locations c) :
    ∃ arrivals : List String, arrivals.Perm locations ∧
      selectLatest (readCopies nodes blockId arrivals) = some c := by
  obtain ⟨⟨n, hn, hcopy⟩, hmax⟩ := h
  refine ⟨n :: locations.erase n, (List.perm_cons_erase hn).symm, ?_⟩
  unfold readCopies
  rw [List.filterMap_cons_some hcopy]
  refine selectLatest_cons_of_max fun d hd => ?_
  obtain ⟨m, hm, hdm⟩ := List.mem_filterMap.mp hd
  exact hmax m (List.mem_of_mem_erase hm) d hdm

/-- What is shown is independent of the order of the answers just when the newest copies carry the
same data. -/
theorem shown_read (h : locations ≠ []) :
    (∀ arrivals arrivals' : List String, arrivals.Perm locations → arrivals'.Perm locations →
      (read nodeId level nodes blockId locations arrivals).map ReadResult.shown =
        (read nodeId level nodes blockId locations arrivals').map ReadResult.shown) ↔
      ∀ c d, Newest nodes blockId locations c → Newest nodes blockId locations d →
        c.data = d.data := by
  -- the answers decide the copy that is shown, and only their number the outcome
  have hshown : ∀ arrivals : List String, arrivals.Perm locations →
      (read nodeId level nodes blockId locations arrivals).map ReadResult.shown =
        (selectLatest (readCopies nodes blockId arrivals)).map fun latest =>
          (latest.data, latest.version,
            if requiredReads locations.length level ≤
                locations.countP (returnsCopy nodes blockId) then
              QuorumOutcome.success
            else .failed) := by
    intro arrivals harr
    rw [read_eq h, Option.map_map, harr.countP_eq]
    apply Option.map_congr
    intro latest _
    rw [Function.comp_apply]
    split_ifs <;> rfl
  constructor
  · intro horder c d hc hd
    obtain ⟨arrivals, harr, hsel⟩ := exists_arrivals hc
    obtain ⟨arrivals', harr', hsel'⟩ := exists_arrivals hd
    have heq := horder arrivals arrivals' harr harr'
    rw [hshown _ harr, hshown _ harr', hsel, hsel', Option.map_some, Option.map_some] at heq
    exact congrArg Prod.fst (Option.some.inj heq)
  · intro hagree arrivals arrivals' harr harr'
    rw [hshown _ harr, hshown _ harr']
    have hperm : (readCopies nodes blockId arrivals).Perm (readCopies nodes blockId arrivals') :=
      (perm_readCopies harr).trans (perm_readCopies harr').symm
    rcases hsel : selectLatest (readCopies nodes blockId arrivals) with _ | c
    · have hnil := hperm.symm
      rw [selectLatest_eq_none.mp hsel] at hnil
      rw [hnil.eq_nil]
      rfl
    · have hne : readCopies nodes blockId arrivals' ≠ [] := by
        intro hnil
        rw [hnil] at hperm
        rw [hperm.eq_nil] at hsel
        cases hsel
      obtain ⟨d, hsel'⟩ := Option.ne_none_iff_exists'.mp (mt selectLatest_eq_none.mp hne)
      have hc := newest_of_selectLatest harr hsel
      have hd := newest_of_selectLatest harr' hsel'
      rw [hsel', Option.map_some, Option.map_some, hagree c d hc hd,
        (ReplicaCopy.key_inj.mp (hc.key_eq hd)).1]

/-- An outcome is classified just when the nodes that cannot be reached leave a quorum, unless some
node returns a copy, and the newest copies carry the same data. -/
theorem classifies_iff (h : locations ≠ []) :
    Classifies nodeId level nodes blockId locations ↔ Decided level nodes blockId locations := by
  have hcount := countP_outcomes nodes blockId locations
  have hnone : (∀ n ∈ locations, returnsCopy nodes blockId n = false) →
      locations.countP (returnsCopy nodes blockId) = 0 := fun hnone =>
    List.countP_eq_zero.mpr fun n hn => Bool.not_eq_true _ ▸ hnone n hn
  constructor
  · intro hclass
    refine ⟨fun hmissing => ?_, (shown_read h).mp hclass.order⟩
    have hle := hclass.notFound locations (List.Perm.refl _)
      ((read_eq_none h (List.Perm.refl _)).mpr hmissing)
    have hzero := hnone hmissing
    omega
  · intro hdecided
    refine ⟨fun arrivals harr hread => ?_, fun arrivals harr => quorumSatisfied_read h harr,
      (shown_read h).mpr hdecided.agree⟩
    have hmissing := (read_eq_none h harr).mp hread
    have hle := hdecided.reached hmissing
    have hzero := hnone hmissing
    omega

/-- Three nodes that all hold the same version of the block. -/
theorem classifies_iff_written :
    Classifies "node1" .quorum (fun n => some (written n "new" 2 5 100)) "a"
        ["node1", "node2", "node3"] ↔
      Decided .quorum (fun n => some (written n "new" 2 5 100)) "a" ["node1", "node2", "node3"] :=
  classifies_iff (by decide)

/-- When no node of the placement can be reached, the block is reported as not found. -/
theorem classifies_counterexample : ¬ ∀ (nodeId : String) (level : ConsistencyLevel)
    (nodes : String → Option TimedEngine) (blockId : String) (locations : List String),
    locations ≠ [] → Classifies nodeId level nodes blockId locations := by
  intro h
  have hclass := h "node1" .quorum (fun _ => none) "a" ["node1", "node2", "node3"] (by decide)
  have hle := hclass.notFound _ (List.Perm.refl _) (by decide +kernel)
  revert hle
  decide +kernel

end NanoFabric.Replication
