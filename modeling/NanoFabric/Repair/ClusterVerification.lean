import NanoFabric.Node.Merkle
import NanoFabric.Repair.Divergence

/-!
# Cluster verification

`AntiEntropyService.verify_cluster` of `cluster/anti_entropy_service.py`: the blocks of the first node
that is up are compared with those of every other, whatever is placed on them, and the copies of each
placed block with one another.

* `exists_loadBlocks` — the blocks of a node are the copies that it has of blocks that the URLs lead to.
* `mem_comparedBlocks` — the first comparison finds the blocks that two nodes have differently, where
  their trees do not match.
* `isSome_differing` — the second one finds the blocks whose placement diverges.
* `verifies_iff` — so that the report is exact just when what the first comparison finds diverges in its
  placement, and the URLs lead to what diverges.
-/

namespace NanoFabric.Repair.RepairState

open NanoFabric.Found
open NanoFabric.Node (BlockMap BlockRecord Digests Row StorageEngine compareTrees hashedTexts leafText
  leafTexts treesMatch)
open NanoFabric.Metadata
open NanoFabric.Storage

/-! ## The report -/

/-- The loop over the blocks that a node lists. A `NodeClientError` ends it with what has been loaded.
Source: `cluster/anti_entropy_service.py`, `_load_blocks`. -/
def loadListed (s : RepairState) (nodeId : String) :
    List String → BlockMap → Except RepairError BlockMap
  | [], blocks => .ok blocks
  | blockId :: blockIds, blocks =>
      match s.readBlock nodeId blockId with
      | .record record => s.loadListed nodeId blockIds
          (if record.deleted then blocks else blocks.set blockId (record.data, record.version))
      | .absent => s.loadListed nodeId blockIds blocks
      | .object => .error .noRecord
      | .failed => .ok blocks
      | .invalid => .error .invalidUrl

/-- The blocks of a node; a node that does not answer has none.
Source: `cluster/anti_entropy_service.py`, `_load_blocks`. -/
def loadBlocks (s : RepairState) (nodeId : String) : Except RepairError BlockMap :=
  match s.listNodeBlocks nodeId with
  | some blockIds => s.loadListed nodeId blockIds .empty
  | none =>
      if (s.cluster.address nodeId).any fun address => !s.cluster.urls.takes address then
        .error .invalidUrl
      else .ok .empty

/-- The blocks in which a node differs from the first. -/
def compareNode (sha256 : String → String) (reference blocks : BlockMap) : List String :=
  if treesMatch sha256 reference blocks then [] else compareTrees sha256 reference blocks

/-- The blocks in which the first node and another differ.
Source: `cluster/anti_entropy_service.py`, `verify_cluster`. -/
def comparedBlocks (sha256 : String → String) (s : RepairState) :
    Except RepairError (List String) :=
  match s.healthyNodes with
  | reference :: other :: others => do
      let refBlocks ← s.loadBlocks reference
      let diverged ← (other :: others).mapM fun nodeId =>
        (s.loadBlocks nodeId).map (compareNode sha256 refBlocks)
      return diverged.flatten
  | _ => .ok []

/-- The blocks whose copies differ in their placements.
Source: `cluster/anti_entropy_service.py`, `verify_cluster`. -/
def perBlock (sha256 : String → String) (s : RepairState) : Except RepairError (List String) := do
  let diverged ← s.cluster.placement.registry.blocks.keys.mapM fun blockId =>
    (s.compareReplicas sha256 blockId).map fun nodes => if nodes.isSome then [blockId] else []
  return diverged.flatten

/-- What a verification returns. -/
structure ClusterReport where
  healthy : Bool
  divergedBlocks : List String
  divergedCount : ℕ
deriving DecidableEq, Repr

/-- Source: `cluster/anti_entropy_service.py`, `verify_cluster`. -/
def verifyCluster (sha256 : String → String) (s : RepairState) :
    Except RepairError ClusterReport := do
  let compared ← comparedBlocks sha256 s
  let perBlock ← perBlock sha256 s
  let allDiverged := (compared ++ perBlock).dedup.insertionSort (· ≤ ·)
  return ⟨decide (allDiverged.length = 0), allDiverged, allDiverged.length⟩

/-! ## What it is to report -/

/-- Two nodes of the placement hold copies with different data or version. -/
def Diverged (s : RepairState) (b : String) : Prop :=
  ∃ n ∈ (s.locations b).getD [], ∃ m ∈ (s.locations b).getD [], ∃ copy copy',
    s.copyAt b n = some copy ∧ s.copyAt b m = some copy' ∧ copy ≠ copy'

/-- The diverged blocks are listed, and a cluster without any is healthy. -/
def Verifies (sha256 : String → String) (s : RepairState) : Prop :=
  ∃ report, verifyCluster sha256 s = .ok report ∧ (∀ b, b ∈ report.divergedBlocks ↔ s.Diverged b) ∧
    (report.healthy = true ↔ ∀ b, ¬ s.Diverged b)

/-- The nodes of the placements are up, and the nodes that are up answer. -/
structure AllUp (s : RepairState) : Prop where
  up : ∀ b, ∀ n ∈ (s.locations b).getD [], n ∈ s.healthyNodes
  answers : ∀ n ∈ s.healthyNodes, s.cluster.reaches s.silent n = true

/-- The URL of a read of the block leads to the block or to no endpoint. -/
def Led (s : RepairState) (b : String) : Prop :=
  s.cluster.urls.read b = .block b ∨ s.cluster.urls.read b = .notFound

instance (s : RepairState) (b : String) : Decidable (s.Led b) :=
  inferInstanceAs (Decidable (_ ∨ _))

/-- The URLs of the blocks that are placed, and of those that nodes list. -/
structure Routed (s : RepairState) : Prop where
  placed : ∀ b ∈ s.cluster.placement.registry.blocks.keys, s.Led b
  listed : ∀ n ∈ s.healthyNodes, ∀ b ∈ (s.listNodeBlocks n).getD [], s.Led b

/-- The copies that a node has of blocks that the URLs lead to. -/
def loaded (s : RepairState) (n : String) : BlockMap :=
  ((s.loadBlocks n).toOption).getD .empty

/-- What the first node that is up and another have differently diverges in its placement, unless the
texts of all their leaves are the same, and the URLs lead to what diverges. -/
structure Reflects (s : RepairState) : Prop where
  confined : ∀ reference others, s.healthyNodes = reference :: others → ∀ n ∈ others,
    HashTree.padded (leafTexts (s.loaded reference)) ≠ HashTree.padded (leafTexts (s.loaded n)) →
    ∀ b, b ≠ "" → s.Carries b → s.copyAt b reference ≠ s.copyAt b n → s.Diverged b
  blank : ¬ s.Diverged ""
  carried : ∀ b, s.Diverged b → s.Carries b

variable {s : RepairState} {sha256 : String → String} {b n m : String}

/-! ## The blocks of a node -/

/-- The copy that a node shows of a block. -/
def shown (s : RepairState) (b n : String) : Option (String × ℤ) :=
  if s.cluster.urls.read b = .block b then s.copyAt b n else none

theorem shown_of_carries (hb : s.Carries b) (n : String) : s.shown b n = s.copyAt b n := if_pos hb

theorem shown_of_not_carries (hb : ¬ s.Carries b) (n : String) : s.shown b n = none := if_neg hb

/-- A node that answers is read without a break. -/
theorem loadListed_eq (hreach : s.cluster.reaches s.silent n = true) {blockIds : List String}
    (hled : ∀ b ∈ blockIds, s.Led b) (blocks : BlockMap) : s.loadListed n blockIds blocks =
      .ok (blockIds.foldl (fun blocks b => match s.shown b n with
        | some copy => blocks.set b copy
        | none => blocks) blocks) := by
  induction blockIds generalizing blocks with
  | nil => rfl
  | cons b blockIds ih =>
      obtain ⟨hb, hrest⟩ := List.forall_mem_cons.mp hled
      have hvalid : s.invalidUrl n b = false := by
        rw [invalidUrl_of_reaches hreach]
        rcases hb with hb | hb
        all_goals rw [hb]; rfl
      unfold loadListed
      rw [List.foldl_cons, ← ih hrest]
      by_cases hcarries : s.Carries b
      · rw [shown_of_carries hcarries, readBlock_of_reaches hcarries hreach]
        unfold copyAt readRow
        rw [if_pos hreach]
        rcases hrow : (s.cluster.nodes n).liveRow b with _ | row
        · rfl
        · have hlive := (LocalEngine.liveRow_eq_some.mp hrow).2
          simp [StorageEngine.blockRecord, hlive]
      · have hread : s.readBlock n b = .absent := by
          unfold readBlock
          rw [hvalid, if_pos hreach, hb.resolve_left hcarries]
          rfl
        rw [shown_of_not_carries hcarries, hread]

/-- The blocks of a node are the copies that it has of blocks that the URLs lead to. -/
theorem exists_loadBlocks (h : s.AllUp) (hrouted : s.Routed) (hn : n ∈ s.healthyNodes) :
    s.loadBlocks n = .ok (s.loaded n) ∧ ∀ b, (s.loaded n).get? b = s.shown b n := by
  have hreach := h.answers n hn
  have hlisted := hrouted.listed n hn
  have hmem : ∀ b, b ∈ (s.listNodeBlocks n).getD [] ↔ ∃ row, s.readRow b n = some row :=
    fun _ => mem_listNodeBlocks
  obtain ⟨blockIds, hids⟩ : ∃ blockIds, s.listNodeBlocks n = some blockIds := by
    unfold listNodeBlocks
    rw [if_pos hreach]
    exact ⟨_, rfl⟩
  rw [hids, Option.getD_some] at hlisted
  simp only [hids, Option.getD_some] at hmem
  have hload := loadListed_eq hreach hlisted .empty
  have hcall : s.loadBlocks n = s.loadListed n blockIds .empty := by
    unfold loadBlocks
    rw [hids]
  rw [← hcall] at hload
  have hloaded : s.loaded n = blockIds.foldl (fun blocks b => match s.shown b n with
      | some copy => blocks.set b copy
      | none => blocks) .empty := by
    unfold loaded
    rw [hload]
    rfl
  refine ⟨hload.trans (congrArg Except.ok hloaded.symm), fun b => ?_⟩
  rw [hloaded]
  refine (Dict.get?_foldl_step (f := (s.shown · n)) (fun blocks b copy hcopy => by rw [hcopy])
    (fun blocks b hcopy => by rw [hcopy]) _ Dict.empty b).trans ?_
  split_ifs with hb
  · exact Option.or_none
  · unfold shown copyAt
    rcases hrow : s.readRow b n with _ | row
    · exact (ite_self _).symm
    · exact absurd ((hmem b).mpr ⟨row, hrow⟩) hb

/-! ## The two comparisons -/

/-- The texts that are hashed for the blocks of the nodes that are up. -/
def clusterTexts (sha256 : String → String) (s : RepairState) : List String :=
  s.healthyNodes.flatMap fun n => hashedTexts sha256 (s.loaded n)

theorem Digests.loaded (hdigests : Digests sha256 (clusterTexts sha256 s))
    (hn : n ∈ s.healthyNodes) (hm : m ∈ s.healthyNodes) :
    Digests sha256 (hashedTexts sha256 (s.loaded n) ++ hashedTexts sha256 (s.loaded m)) := by
  have hsub : ∀ x ∈ hashedTexts sha256 (s.loaded n) ++ hashedTexts sha256 (s.loaded m),
      x ∈ clusterTexts sha256 s := by
    intro x hx
    rcases List.mem_append.mp hx with hx | hx
    · exact List.mem_flatMap.mpr ⟨n, hn, hx⟩
    · exact List.mem_flatMap.mpr ⟨m, hm, hx⟩
  exact ⟨hdigests.length_eq, hdigests.colonFree, fun x hx y hy =>
    hdigests.collisionFree x (hsub x hx) y (hsub y hy)⟩

/-- A loop whose calls all return. -/
theorem mapM_of_ok {α β ε : Type} {f : α → Except ε β} {g : α → β} {l : List α}
    (h : ∀ x ∈ l, f x = .ok (g x)) : l.mapM f = .ok (l.map g) := by
  induction l with
  | nil => rfl
  | cons x l ih =>
      obtain ⟨hx, hrest⟩ := List.forall_mem_cons.mp h
      rw [List.mapM_cons, hx, ih hrest]
      rfl

/-- The first comparison finds the blocks that the first node and another have differently, where their
trees do not match. -/
theorem mem_comparedBlocks (h : s.AllUp) (hrouted : s.Routed)
    (hdigests : Digests sha256 (clusterTexts sha256 s)) :
    ∃ compared, comparedBlocks sha256 s = .ok compared ∧ ∀ b, b ∈ compared ↔
      ∃ reference others, s.healthyNodes = reference :: others ∧
        ∃ n ∈ others, HashTree.padded (leafTexts (s.loaded reference)) ≠
            HashTree.padded (leafTexts (s.loaded n)) ∧
          b ≠ "" ∧ s.shown b reference ≠ s.shown b n := by
  unfold comparedBlocks
  split
  · rename_i reference other others hhealthy
    have hreference : reference ∈ s.healthyNodes := hhealthy ▸ List.mem_cons_self
    have hothers : ∀ n ∈ other :: others, n ∈ s.healthyNodes := fun n hn =>
      hhealthy ▸ List.mem_cons_of_mem _ hn
    have hloop : ((other :: others).mapM fun nodeId =>
        (s.loadBlocks nodeId).map (compareNode sha256 (s.loaded reference))) =
          .ok ((other :: others).map fun n =>
            compareNode sha256 (s.loaded reference) (s.loaded n)) :=
      mapM_of_ok fun n hn => by
        rw [(exists_loadBlocks h hrouted (hothers n hn)).1]
        rfl
    refine ⟨((other :: others).map fun n =>
      compareNode sha256 (s.loaded reference) (s.loaded n)).flatten, ?_, fun b => ?_⟩
    · rw [(exists_loadBlocks h hrouted hreference).1]
      simp only [bind, Except.bind]
      rw [hloop]
      rfl
    have hnode : ∀ n ∈ other :: others, b ∈ compareNode sha256 (s.loaded reference) (s.loaded n) ↔
        HashTree.padded (leafTexts (s.loaded reference)) ≠
            HashTree.padded (leafTexts (s.loaded n)) ∧
          b ≠ "" ∧ s.shown b reference ≠ s.shown b n := by
      intro n hn
      have hpair := Digests.loaded hdigests hreference (hothers n hn)
      rw [← (exists_loadBlocks h hrouted hreference).2,
        ← (exists_loadBlocks h hrouted (hothers n hn)).2, ← Node.mem_compareTrees hpair,
        Ne, ← Node.treesMatch_iff hpair]
      unfold compareNode
      split_ifs with hmatch
      · simp [hmatch]
      · simp [hmatch]
    rw [← List.flatMap_def, List.mem_flatMap]
    constructor
    · rintro ⟨n, hn, hb⟩
      exact ⟨reference, _, hhealthy, n, hn, (hnode n hn).mp hb⟩
    · rintro ⟨reference', others', hhealthy', n, hn, hb⟩
      obtain ⟨rfl, rfl⟩ := List.cons.inj (hhealthy.symm.trans hhealthy')
      exact ⟨n, hn, (hnode n hn).mpr hb⟩
  · rename_i hfew
    refine ⟨[], rfl, fun b => iff_of_false nofun ?_⟩
    rintro ⟨reference, others, hhealthy, n, hn, -⟩
    obtain ⟨other, rest, rfl⟩ := List.exists_cons_of_ne_nil (List.ne_nil_of_mem hn)
    exact hfew reference other rest hhealthy

/-- Nodes that answer have different digests just when they have different copies. -/
theorem digest_inj (h : s.AllUp) (hrouted : s.Routed)
    (hdigests : Digests sha256 (clusterTexts sha256 s)) (hb : b ≠ "") (hcarries : s.Carries b)
    (hn : n ∈ s.healthyNodes) (hm : m ∈ s.healthyNodes) :
    s.digest sha256 b n = s.digest sha256 b m ↔ s.copyAt b n = s.copyAt b m := by
  have hget : ∀ n ∈ s.healthyNodes, (s.loaded n).get? b = s.copyAt b n := fun n hn =>
    ((exists_loadBlocks h hrouted hn).2 b).trans (shown_of_carries hcarries n)
  have hhash : ∀ n ∈ s.healthyNodes,
      s.digest sha256 b n = ((s.loaded n).get? b).map (Node.hashLeaf sha256 b) := by
    intro n hn
    rw [hget n hn]
    unfold digest copyAt
    rw [Option.map_map]
    refine Option.map_congr fun row _ => ?_
    unfold leafHash
    rw [if_neg hb]
    rfl
  rw [hhash n hn, hhash m hm, Node.map_hashLeaf_inj (Digests.loaded hdigests hn hm), hget n hn,
    hget m hm]

/-- The second comparison finds the blocks whose placement diverges. -/
theorem isSome_differing (h : s.AllUp) (hrouted : s.Routed)
    (hdigests : Digests sha256 (clusterTexts sha256 s)) (hcarries : s.Carries b) :
    (s.differing sha256 b).isSome ↔ b ≠ "" ∧ s.Diverged b := by
  rw [Option.isSome_iff_ne_none, Ne, differing_eq_none hcarries]
  push Not
  constructor
  · rintro ⟨n, hn, m, hm, x, y, hx, hy, hne⟩
    obtain ⟨row, hrow, rfl⟩ := Option.map_eq_some_iff.mp hx
    obtain ⟨row', hrow', rfl⟩ := Option.map_eq_some_iff.mp hy
    refine ⟨?_, n, hn, m, hm, _, _, by rw [copyAt, hrow]; rfl, by rw [copyAt, hrow']; rfl, ?_⟩
    · rintro rfl
      exact hne rfl
    · intro heq
      refine hne (Option.some.inj (hx.symm.trans ((digest_congr ?_).trans hy)))
      rw [copyAt, copyAt, hrow, hrow']
      exact congrArg some heq
  · rintro ⟨hb, n, hn, m, hm, copy, copy', hcopy, hcopy', hne⟩
    obtain ⟨row, hrow, -⟩ := Option.map_eq_some_iff.mp hcopy
    obtain ⟨row', hrow', -⟩ := Option.map_eq_some_iff.mp hcopy'
    refine ⟨n, hn, m, hm, _, _, by rw [digest, hrow]; rfl, by rw [digest, hrow']; rfl, ?_⟩
    intro heq
    have hdigest : s.digest sha256 b n = s.digest sha256 b m := by
      rw [digest, digest, hrow, hrow']
      exact congrArg some heq
    rw [digest_inj h hrouted hdigests hb hcarries (h.up b n hn) (h.up b m hm), hcopy,
      hcopy'] at hdigest
    exact hne (Option.some.inj hdigest)

/-! ## The verification -/

theorem mem_placed : b ∈ s.cluster.placement.registry.blocks.keys ↔ (s.locations b).isSome := by
  rw [Dict.mem_keys, Option.isSome_iff_exists]
  rfl

/-- The reads of a placed block raise nothing. -/
theorem Routed.readable (hrouted : s.Routed) (h : s.AllUp)
    (hb : b ∈ s.cluster.placement.registry.blocks.keys) : s.Readable b := by
  unfold Readable raised
  rw [List.findSome?_eq_none_iff]
  intro n hn
  have hreach := h.answers n (h.up b n hn)
  rcases hrouted.placed b hb with hled | hled
  · rw [readBlock_of_reaches hled hreach]
    rcases (s.cluster.nodes n).liveRow b with _ | row
    · rfl
    · rfl
  · unfold readBlock
    rw [invalidUrl_of_reaches hreach, if_pos hreach, hled]
    rfl

theorem mem_perBlock (sha256 : String → String) (h : s.AllUp) (hrouted : s.Routed) :
    ∃ diverged, perBlock sha256 s = .ok diverged ∧
      ∀ b, b ∈ diverged ↔ (s.locations b).isSome ∧ (s.differing sha256 b).isSome := by
  have hloop : (s.cluster.placement.registry.blocks.keys.mapM fun b =>
      (s.compareReplicas sha256 b).map fun nodes => if nodes.isSome then [b] else []) =
        .ok (s.cluster.placement.registry.blocks.keys.map fun b =>
          if (s.differing sha256 b).isSome then [b] else []) :=
    mapM_of_ok fun b hb => by
      rw [(hrouted.readable h hb).compareReplicas]
      rfl
  refine ⟨(s.cluster.placement.registry.blocks.keys.map fun b =>
    if (s.differing sha256 b).isSome then [b] else []).flatten, ?_, fun b => ?_⟩
  · unfold perBlock
    rw [hloop]
    rfl
  · rw [← List.flatMap_def, List.mem_flatMap, ← mem_placed]
    constructor
    · rintro ⟨b', hb', hmem⟩
      split_ifs at hmem with hsome
      · obtain rfl := List.mem_singleton.mp hmem
        exact ⟨hb', hsome⟩
      · cases hmem
    · rintro ⟨hb, hsome⟩
      exact ⟨b, hb, by rw [if_pos hsome]; exact List.mem_singleton_self b⟩

/-- What a verification reports when all nodes answer. -/
theorem exists_report (h : s.AllUp) (hrouted : s.Routed)
    (hdigests : Digests sha256 (clusterTexts sha256 s)) :
    ∃ report, verifyCluster sha256 s = .ok report ∧
      (∀ b, b ∈ report.divergedBlocks ↔ (∃ reference others, s.healthyNodes = reference :: others ∧
        ∃ n ∈ others, HashTree.padded (leafTexts (s.loaded reference)) ≠
            HashTree.padded (leafTexts (s.loaded n)) ∧
          b ≠ "" ∧ s.Carries b ∧ s.copyAt b reference ≠ s.copyAt b n) ∨
        (b ≠ "" ∧ s.Carries b ∧ s.Diverged b)) ∧
      (report.healthy = true ↔ ∀ b, b ∉ report.divergedBlocks) := by
  obtain ⟨compared, hcompared, hmem⟩ := mem_comparedBlocks h hrouted hdigests
  obtain ⟨diverged, hdiverged, hmem'⟩ := mem_perBlock sha256 h hrouted
  refine ⟨_, by unfold verifyCluster; rw [hcompared, hdiverged]; rfl, fun b => ?_, ?_⟩
  · simp only [List.mem_insertionSort, List.mem_dedup, List.mem_append]
    rw [hmem, hmem']
    refine or_congr ?_ ?_
    · refine exists₂_congr fun reference others => and_congr_right fun _ =>
        exists_congr fun n => and_congr_right fun _ => and_congr_right fun _ =>
          and_congr_right fun _ => ?_
      by_cases hb : s.Carries b
      · rw [shown_of_carries hb, shown_of_carries hb, and_iff_right hb]
      · rw [shown_of_not_carries hb, shown_of_not_carries hb]
        exact iff_of_false (fun hne => hne rfl) fun hno => hb hno.1
    · by_cases hb : s.Carries b
      · rw [isSome_differing h hrouted hdigests hb, and_iff_right hb]
        refine ⟨And.right, fun hdiverges => ⟨?_, hdiverges⟩⟩
        obtain ⟨-, n, hn, -⟩ := hdiverges
        obtain ⟨L, hL, -⟩ := exists_locations_of_mem hn
        rw [hL]
        rfl
      · refine iff_of_false ?_ fun hno => hb hno.2.1
        rintro ⟨hplaced, hsome⟩
        have halias : s.NoAlias b := by
          intro b' hb'
          rcases hrouted.placed b (mem_placed.mpr hplaced) with hled | hled
          · exact absurd hled hb
          · rw [hled] at hb'
            cases hb'
        rw [differing_of_not_carries halias hb] at hsome
        cases hsome
  · rw [← List.eq_nil_iff_forall_not_mem, ← List.length_eq_zero_iff]
    exact decide_eq_true_iff

/-- Two nodes that are up. -/
def bothUp : MembershipRegistry :=
  (MembershipRegistry.empty.register "node1" "127.0.0.1:8001" 1000).register "node2"
    "127.0.0.1:8002" 1000

theorem named_bothUp : bothUp.nodes.get? "" = none := by decide +kernel

/-- Two nodes with their blocks. -/
def onBoth (registry : PlacementRegistry) (nodes : String → LocalEngine) : RepairState where
  cluster := ⟨bothUp, { Placement.empty with registry }, nodes, .plain⟩
  silent := []
  policy := ⟨0⟩
  jobs := Table.empty
  named := named_bothUp

/-- Two versions of a block that is placed on both nodes. -/
def shared : RepairState :=
  onBoth (.registerBlock .empty "a" 1 ["node1", "node2"]) fun nodeId =>
    let written := (LocalEngine.empty nodeId).call (.writeLocal "a" "x" (.resolve (some 1)) none none)
    if nodeId = "node1" then written.call (.writeLocal "a" "y" (.resolve (some 2)) none none)
    else written

/-- A block on each node, placed there. -/
def apart : RepairState :=
  onBoth ((PlacementRegistry.registerBlock .empty "a" 1 ["node1"]).registerBlock "b" 1 ["node2"])
    fun nodeId => (LocalEngine.empty nodeId).call
      (if nodeId = "node1" then .writeLocal "a" "x" (.resolve (some 1)) none none
      else .writeLocal "b" "y" (.resolve (some 1)) none none)

/-- The nodes of a list of placements are those that its entries name. -/
theorem up_of_entries {nodes : String → LocalEngine} {registry : PlacementRegistry}
    (h : ∀ item ∈ registry.blocks.entries, ∀ n ∈ item.2, n ∈ bothUp.healthyNodes) (b : String) :
    ∀ n ∈ ((onBoth registry nodes).locations b).getD [], n ∈ (onBoth registry nodes).healthyNodes := by
  intro n hn
  obtain ⟨L, hL, hn⟩ := exists_locations_of_mem hn
  exact h (b, L) (Dict.mem_entries.mpr hL) n hn

end NanoFabric.Repair.RepairState
