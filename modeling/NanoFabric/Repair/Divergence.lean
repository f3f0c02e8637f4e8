import NanoFabric.Found.Register
import NanoFabric.Repair.RepairService

/-!
# What a comparison of replicas finds

The copies of a block at the nodes of its placement, and what `compare_replicas` and `_find_latest` of
`cluster/anti_entropy_service.py` make of them, for a block that the URLs carry.

* `differing_eq_none` — nothing is reported just when the copies that were read have one digest.
* `mem_of_differing` — otherwise the nodes with a copy are.
* `latestCopy_spec` — the node that is selected has a copy of the greatest version, and among those one
  of the greatest LSN.
* `differing_of_not_carries` — nothing is reported of a block that the URL leads to no block for.
* `Readable.compareReplicas`, `findLatest_of_taken` — neither raises when no read does.
-/

namespace NanoFabric.Repair.RepairState

open NanoFabric.Found
open NanoFabric.Node (BlockRecord Row StorageEngine)
open NanoFabric.Storage

variable {s : RepairState} {sha256 : String → String} {b n m : String} {nodes : List String}
  {row row' : Row}

/-! ## Copies -/

/-- The live row of a block on a node that is reached. -/
def readRow (s : RepairState) (b n : String) : Option Row :=
  if s.cluster.reaches s.silent n then (s.cluster.nodes n).liveRow b else none

theorem readRow_eq_some : s.readRow b n = some row ↔
    s.cluster.reaches s.silent n = true ∧ (s.cluster.nodes n).liveRow b = some row := by
  unfold readRow
  rw [Option.ite_none_right_eq_some]

theorem hasBlock_eq_true_iff (hb : s.Carries b) :
    s.hasBlock n b = some true ↔ ∃ row, s.readRow b n = some row := by
  rw [hasBlock_eq_true hb, Option.isSome_iff_exists, ← exists_and_left]
  exact exists_congr fun row => readRow_eq_some.symm

theorem deleted_of_readRow (h : s.readRow b n = some row) : row.deleted = false :=
  (LocalEngine.liveRow_eq_some.mp (readRow_eq_some.mp h).2).2

/-- A node that is not reached answers with nothing. -/
theorem readBlock_of_not_reaches (h : s.cluster.reaches s.silent n ≠ true) :
    s.readBlock n b = .invalid ∨ s.readBlock n b = .failed := by
  unfold readBlock
  rw [if_neg h]
  split
  · exact Or.inl rfl
  · exact Or.inr rfl

/-- A node that answers with a live copy answers with its row; any other answer has no copy. -/
theorem readBlock_eq_record (hb : s.Carries b) {record : BlockRecord} :
    s.readBlock n b = .record record ↔
      ∃ row, s.readRow b n = some row ∧ record = StorageEngine.blockRecord b row := by
  unfold readRow
  by_cases hreach : s.cluster.reaches s.silent n = true
  · rw [readBlock_of_reaches hb hreach, if_pos hreach]
    rcases (s.cluster.nodes n).liveRow b with _ | row
    · simp
    · simp [eq_comm]
  · rw [if_neg hreach]
    rcases readBlock_of_not_reaches (b := b) hreach with hread | hread
    · simp [hread]
    · simp [hread]

/-- What a list of nodes is searched for is found at those that answer with a copy. -/
theorem match_readBlock (hb : s.Carries b) {α : Type} (found : BlockRecord → α) (missed : α) :
    (match s.readBlock n b with
      | .record record => if record.deleted then missed else found record
      | _ => missed) =
    match s.readRow b n with
      | some row => found (StorageEngine.blockRecord b row)
      | none => missed := by
  rcases hrow : s.readRow b n with _ | row
  · split
    · rename_i record hread
      obtain ⟨row, hrow', -⟩ := (readBlock_eq_record hb).mp hread
      rw [hrow] at hrow'
      cases hrow'
    · rfl
  · rw [(readBlock_eq_record hb).mpr ⟨row, hrow, rfl⟩]
    exact if_neg (by simp [StorageEngine.blockRecord, deleted_of_readRow hrow])

/-- The HTTP client takes the address of a node, if it has one. -/
def Taken (s : RepairState) (n : String) : Prop :=
  ∀ address, s.cluster.address n = some address → s.cluster.urls.takes address = true

theorem Taken.of_reaches (h : s.cluster.reaches s.silent n = true) : s.Taken n := by
  unfold Cluster.reaches at h
  rw [Bool.and_eq_true, Option.any_eq_true] at h
  obtain ⟨⟨address, haddress, htakes⟩, -⟩ := h
  intro address' haddress'
  obtain rfl := Option.some.inj (haddress.symm.trans haddress')
  exact htakes

/-- A read of a block that the URLs carry raises at no such address. -/
theorem Taken.invalidUrl (h : s.Taken n) (hb : s.Carries b) : s.invalidUrl n b = false := by
  unfold Carries at hb
  unfold RepairState.invalidUrl
  rw [Option.any_eq_false]
  intro address haddress
  simp [h address haddress, hb]

theorem Taken.raised (hb : s.Carries b) (h : ∀ n ∈ nodes, s.Taken n) : s.raised b nodes = none := by
  unfold RepairState.raised
  rw [List.findSome?_eq_none_iff]
  intro n hn
  by_cases hreach : s.cluster.reaches s.silent n = true
  · rw [readBlock_of_reaches hb hreach]
    rcases (s.cluster.nodes n).liveRow b with _ | row
    · rfl
    · rfl
  · unfold readBlock
    rw [(h n hn).invalidUrl hb, if_neg hreach]
    rfl

/-- No read of the block at a node of its placement raises an exception that is not caught. -/
def Readable (s : RepairState) (b : String) : Prop := s.raised b ((s.locations b).getD []) = none

theorem Readable.raised_eq_none (h : s.Readable b) (hn : n ∈ (s.locations b).getD []) :
    (s.readBlock n b).raised = none := by
  unfold Readable RepairState.raised at h
  exact List.findSome?_eq_none_iff.mp h n hn

theorem Readable.invalidUrl (h : s.Readable b) (hn : n ∈ (s.locations b).getD []) :
    s.invalidUrl n b = false := by
  have hread := h.raised_eq_none hn
  unfold readBlock at hread
  by_contra hinvalid
  rw [if_pos (by simpa using hinvalid)] at hread
  cases hread

theorem Readable.taken (h : s.Readable b) (hn : n ∈ (s.locations b).getD []) : s.Taken n := by
  have hvalid := h.invalidUrl hn
  unfold RepairState.invalidUrl at hvalid
  intro address haddress
  rw [haddress, Option.any_some, Bool.or_eq_false_iff] at hvalid
  simpa using hvalid.1

/-- A node of the placement does not count as one with a block that the URL leads to no block for. -/
theorem Readable.hasBlock_ne (h : s.Readable b) (halias : s.NoAlias b) (hb : ¬ s.Carries b)
    (hn : n ∈ (s.locations b).getD []) : s.hasBlock n b ≠ some true := by
  have hread := h.raised_eq_none hn
  unfold RepairState.hasBlock
  rcases hanswer : s.readBlock n b with record | _ | _ | _ | _
  · exact absurd hanswer (readBlock_ne_record halias hb n record)
  all_goals
    rw [hanswer] at hread
    simp [Answer.hasBlock, Answer.raised] at hread ⊢

theorem Readable.compareReplicas (h : s.Readable b) (sha256 : String → String) :
    s.compareReplicas sha256 b = .ok (s.differing sha256 b) := by
  unfold Readable at h
  unfold RepairState.compareReplicas
  rw [h]

/-- What a node lists, where `none` is an exception.
Source: `node/api_server.py`, `list_blocks`; `cluster/node_client.py`, `list_blocks`. -/
def listNodeBlocks (s : RepairState) (nodeId : String) : Option (List String) :=
  if s.cluster.reaches s.silent nodeId then
    some (((s.cluster.nodes nodeId).listBlocks.filter fun blockId =>
      ((s.cluster.nodes nodeId).answer blockId).isSome).insertionSort (· ≤ ·))
  else none

/-- A node lists the blocks that it answers with a copy of. -/
theorem mem_listNodeBlocks :
    b ∈ (s.listNodeBlocks n).getD [] ↔ ∃ row, s.readRow b n = some row := by
  simp only [readRow_eq_some, exists_and_left]
  unfold listNodeBlocks
  by_cases hreach : s.cluster.reaches s.silent n = true
  · rw [if_pos hreach, Option.getD_some, List.mem_insertionSort, List.mem_filter,
      LocalEngine.mem_listBlocks, LocalEngine.answer_eq, Option.isSome_map,
      Option.isSome_iff_exists, and_self_iff]
    exact (and_iff_right hreach).symm
  · rw [if_neg hreach]
    exact iff_of_false nofun fun h => hreach h.1

/-- The data and the version of the copy that a node answers with. -/
def copyAt (s : RepairState) (b n : String) : Option (String × ℤ) :=
  (s.readRow b n).map fun row => (row.data.getD "", row.version)

theorem exists_locations_of_mem (h : n ∈ (s.locations b).getD []) :
    ∃ L, s.locations b = some L ∧ n ∈ L := by
  rcases hL : s.locations b with _ | L
  · rw [hL] at h
    cases h
  · rw [hL] at h
    exact ⟨L, rfl, h⟩

/-! ## Digests -/

/-- The digest of the copy that a node answers with. -/
def digest (s : RepairState) (sha256 : String → String) (b n : String) : Option String :=
  (s.readRow b n).map fun row => leafHash sha256 b (StorageEngine.blockRecord b row)

/-- Copies that are the same have the same digest. -/
theorem digest_congr (h : s.copyAt b n = s.copyAt b m) :
    s.digest sha256 b n = s.digest sha256 b m := by
  unfold copyAt at h
  unfold digest
  rcases hn : s.readRow b n with _ | row
  · rw [hn] at h
    rw [Option.map_eq_none_iff.mp h.symm]
  · rw [hn] at h
    obtain ⟨row', hm, heq⟩ := Option.map_eq_some_iff.mp h.symm
    rw [hm]
    obtain ⟨hdata, hversion⟩ := Prod.mk.inj heq
    simp only [Option.map_some, leafHash, StorageEngine.blockRecord, hdata, hversion]

/-- The digest of the answer of a node, if it is a live copy. -/
def answerDigest (s : RepairState) (sha256 : String → String) (b n : String) : Option String :=
  match s.readBlock n b with
  | .record record => if record.deleted then none else some (leafHash sha256 b record)
  | _ => none

/-- The digests are those of the live copies among the answers of the nodes. -/
theorem get?_nodeHashes (sha256 : String → String) (b : String) (nodes : List String) (n : String) :
    (s.nodeHashes sha256 b nodes).get? n = if n ∈ nodes then s.answerDigest sha256 b n else none := by
  unfold nodeHashes
  refine (Dict.get?_foldl_step (f := s.answerDigest sha256 b) (fun hashes m hash hm => ?_)
    (fun hashes m hm => ?_) nodes Dict.empty n).trans (if_congr Iff.rfl Option.or_none rfl)
  all_goals unfold answerDigest at hm
  · cases hread : s.readBlock m b with
    | record record =>
        simp only [hread] at hm ⊢
        obtain ⟨hlive, hhash⟩ := Option.ite_none_left_eq_some.mp hm
        rw [if_neg hlive, Option.some.inj hhash]
    | absent | object | failed | invalid =>
        rw [hread] at hm
        cases hm
  · cases hread : s.readBlock m b with
    | record record =>
        simp only [hread] at hm ⊢
        split
        · rfl
        · rw [if_neg ‹_›] at hm
          cases hm
    | absent | object | failed | invalid => rfl

/-- They are the digests of the copies that nodes of the list answer with. -/
theorem get?_nodeHashes_eq (hb : s.Carries b) (sha256 : String → String) (nodes : List String)
    (n : String) :
    (s.nodeHashes sha256 b nodes).get? n = if n ∈ nodes then s.digest sha256 b n else none := by
  have hdigest : s.answerDigest sha256 b n = s.digest sha256 b n := by
    refine (match_readBlock hb (fun record => some (leafHash sha256 b record)) none).trans ?_
    unfold digest
    cases s.readRow b n <;> rfl
  rw [get?_nodeHashes, hdigest]

/-- Nothing is reported just when the copies that were read have one digest. -/
theorem differing_eq_none (hb : s.Carries b) : s.differing sha256 b = none ↔
    ∀ n ∈ (s.locations b).getD [], ∀ m ∈ (s.locations b).getD [], ∀ x y,
      s.digest sha256 b n = some x → s.digest sha256 b m = some y → x = y := by
  unfold differing
  rw [ite_eq_right_iff]
  simp only [reduceCtorEq, imp_false, not_lt, Finset.card_le_one, List.mem_toFinset, Dict.mem_values,
    get?_nodeHashes_eq hb, Option.ite_none_right_eq_some]
  constructor
  · exact fun h n hn m hm x y hx hy => h x ⟨n, hn, hx⟩ y ⟨m, hm, hy⟩
  · rintro h x ⟨n, hn, hx⟩ y ⟨m, hm, hy⟩
    exact h n hn m hm x y hx hy

/-- The nodes that are reported are those of the placement that answered with a copy. -/
theorem mem_of_differing (hb : s.Carries b) (h : s.differing sha256 b = some nodes) :
    n ∈ nodes ↔ n ∈ (s.locations b).getD [] ∧ ∃ row, s.readRow b n = some row := by
  unfold differing at h
  simp only [Option.ite_none_right_eq_some, Option.some.injEq] at h
  obtain ⟨-, rfl⟩ := h
  simp only [Dict.mem_keys, get?_nodeHashes_eq hb, Option.ite_none_right_eq_some, digest,
    Option.map_eq_some_iff]
  constructor
  · rintro ⟨-, hn, row, hrow, -⟩
    exact ⟨hn, row, hrow⟩
  · rintro ⟨hn, row, hrow⟩
    exact ⟨_, hn, row, hrow, rfl⟩

/-- Whatever the URL leads to, they are in the placement, and they answer. -/
theorem of_mem_differing (h : s.differing sha256 b = some nodes) (hn : n ∈ nodes) :
    n ∈ (s.locations b).getD [] ∧ s.cluster.reaches s.silent n = true := by
  unfold differing at h
  simp only [Option.ite_none_right_eq_some, Option.some.injEq] at h
  obtain ⟨-, rfl⟩ := h
  obtain ⟨x, hx⟩ := Dict.mem_keys.mp hn
  rw [get?_nodeHashes, Option.ite_none_right_eq_some] at hx
  refine ⟨hx.1, by_contra fun hno => ?_⟩
  have hx := hx.2
  unfold answerDigest at hx
  rcases readBlock_of_not_reaches (b := b) hno with hread | hread
  all_goals rw [hread] at hx
  all_goals cases hx

/-- Nothing is reported of a block that the URL leads to no block for. -/
theorem differing_of_not_carries (halias : s.NoAlias b) (hb : ¬ s.Carries b) :
    s.differing sha256 b = none := by
  unfold differing
  have hvalues : (s.nodeHashes sha256 b ((s.locations b).getD [])).values.toFinset = ∅ := by
    rw [Finset.eq_empty_iff_forall_notMem]
    intro x hx
    obtain ⟨n, hn⟩ := Dict.mem_values.mp (List.mem_toFinset.mp hx)
    rw [get?_nodeHashes, Option.ite_none_right_eq_some] at hn
    have hdigest := hn.2
    unfold answerDigest at hdigest
    split at hdigest
    · exact readBlock_ne_record halias hb n _ ‹_›
    · cases hdigest
  simp only
  rw [hvalues]
  rfl

/-! ## The latest copy -/

/-- What copies are compared by. -/
def copyKey (copy : String × BlockRecord) : ℤ ×ₗ ℤ := toLex (copy.2.version, copy.2.originLsn)

theorem newer_iff {copy latest : String × BlockRecord} :
    newer copy latest = true ↔ copyKey latest < copyKey copy := by
  unfold newer copyKey
  rw [Prod.Lex.toLex_lt_toLex]
  split_ifs with h
  · rw [decide_eq_true_iff]
    omega
  · rw [decide_eq_true_iff]
    omega

theorem selectLatest_eq_foldl (copies : List (String × BlockRecord)) :
    selectLatest copies = copies.foldl (Register.put copyKey) none := by
  have hnewer : ∀ u w : String × BlockRecord, newer u w = true ↔ copyKey w < copyKey u :=
    fun _ _ => newer_iff
  cases copies with
  | nil => rfl
  | cons copy copies =>
      rw [List.foldl_cons, Register.put_none]
      exact (Register.foldl_put_some hnewer copies copy).symm

/-- The copy that a node answers with. -/
def readCopy (s : RepairState) (b n : String) : Option (String × BlockRecord) :=
  (s.readRow b n).map fun row => (n, StorageEngine.blockRecord b row)

/-- The selection puts the copies that were read into a register. -/
theorem latestCopy_eq (hb : s.Carries b) (nodes : List String) :
    s.latestCopy b nodes = (nodes.filterMap (s.readCopy b)).foldl (Register.put copyKey) none := by
  unfold latestCopy
  rw [selectLatest_eq_foldl]
  congr 1
  refine List.filterMap_congr fun n _ => ?_
  refine (match_readBlock hb (fun record => some (n, record)) none).trans ?_
  unfold readCopy
  cases s.readRow b n <;> rfl

theorem mem_readCopy {copy : String × BlockRecord} : copy ∈ nodes.filterMap (s.readCopy b) ↔
    copy.1 ∈ nodes ∧ ∃ row, s.readRow b copy.1 = some row ∧
      copy.2 = StorageEngine.blockRecord b row := by
  obtain ⟨k, record⟩ := copy
  simp only [List.mem_filterMap, readCopy, Option.map_eq_some_iff, Prod.mk.injEq]
  constructor
  · rintro ⟨n, hn, row, hrow, rfl, rfl⟩
    exact ⟨hn, row, hrow, rfl⟩
  · rintro ⟨hn, row, hrow, rfl⟩
    exact ⟨k, hn, row, hrow, rfl, rfl⟩

/-- The node that is selected has a copy of the greatest version, and among those one of the greatest
LSN. -/
theorem latestCopy_spec (hb : s.Carries b) {record : BlockRecord}
    (h : s.latestCopy b nodes = some (n, record)) :
    n ∈ nodes ∧ ∃ row, s.readRow b n = some row ∧ record = StorageEngine.blockRecord b row ∧
      ∀ m ∈ nodes, ∀ row', s.readRow b m = some row' → row'.version < row.version ∨
        (row'.version = row.version ∧ row'.originLsn ≤ row.originLsn) := by
  rw [latestCopy_eq hb] at h
  obtain ⟨hmem, htop⟩ := Register.tops_of_foldl h
  obtain ⟨hn, row, hrow, hrecord⟩ := mem_readCopy.mp hmem
  refine ⟨hn, row, hrow, hrecord, fun m hm row' hrow' => ?_⟩
  have hle := htop (m, StorageEngine.blockRecord b row') (mem_readCopy.mpr ⟨hm, row', hrow', rfl⟩)
  simp only at hrecord
  unfold copyKey at hle
  rw [Prod.Lex.toLex_le_toLex, hrecord] at hle
  exact hle

/-- A node is selected when one answers with a copy. -/
theorem exists_latestCopy (hb : s.Carries b) (hn : n ∈ nodes) (hrow : s.readRow b n = some row) :
    ∃ latest, s.latestCopy b nodes = some latest := by
  by_contra hnone
  rw [← Option.isSome_iff_exists, Option.not_isSome_iff_eq_none, latestCopy_eq hb] at hnone
  have hmem : (n, StorageEngine.blockRecord b row) ∈ nodes.filterMap (s.readCopy b) :=
    mem_readCopy.mpr ⟨hn, row, hrow, rfl⟩
  rw [Register.foldl_put_eq_none hnone] at hmem
  cases hmem

theorem findLatest_of_taken (hb : s.Carries b) (h : ∀ n ∈ nodes, s.Taken n) :
    s.findLatest b nodes = .ok (s.latestCopy b nodes) := by
  unfold findLatest
  rw [Taken.raised hb h]

end NanoFabric.Repair.RepairState
