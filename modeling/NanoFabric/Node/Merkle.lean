import NanoFabric.Found.Dict
import NanoFabric.Found.Merkle
import NanoFabric.Found.Numbered

/-!
# Merkle trees of blocks

The trees of `node/merkle.py` over the live blocks of a node. The digests come from outside: they have
64 characters, none of which is a colon, and no two of the texts that are hashed collide (`Digests`).

* `treesMatch_iff` — two trees match just when the texts of their leaves are the same once they are
  padded to the width of the tree.
* `mem_compareTrees` — a comparison lists the blocks that differ, except for the block without an id.
* `identifies_iff` — so that trees identify their blocks just when no other blocks have the same texts
  and the block without an id does not differ.
* `identifies_of_plain` — which is so for blocks whose ids have no colon and are not empty.
-/

namespace NanoFabric.Node

open NanoFabric.Found

/-! ## Trees -/

/-- The data and the version of each block. -/
abbrev BlockMap := Dict String (String × ℤ)

/-- Source: `node/merkle.py`, `_hash_pair`. -/
def hashPair (sha256 : String → String) (left right : String) : String := sha256 (left ++ right)

/-- The text of a leaf.
Source: `node/merkle.py`, `_hash_leaf`. -/
def leafText (blockId : String) (block : String × ℤ) : String :=
  blockId ++ ":" ++ toString block.2 ++ ":" ++ block.1

/-- Source: `node/merkle.py`, `_hash_leaf`. -/
def hashLeaf (sha256 : String → String) (blockId : String) (block : String × ℤ) : String :=
  sha256 (leafText blockId block)

/-- The blocks in the order of their ids.
Source: `node/merkle.py`, `_build`. -/
def sortedBlocks (blocks : BlockMap) : List (String × String × ℤ) :=
  (blocks.keys.insertionSort (· ≤ ·)).filterMap fun blockId =>
    (blocks.get? blockId).map fun block => (blockId, block)

/-- The leaves of a tree, with their ids.
Source: `node/merkle.py`, `_build`. -/
def treeLeaves (sha256 : String → String) (blocks : BlockMap) : List (String × String) :=
  (sortedBlocks blocks).map fun (blockId, block) => (blockId, hashLeaf sha256 blockId block)

/-- Source: `node/merkle.py`, `_build`, `_build_level`, `root_hash`. -/
def rootHash (sha256 : String → String) (blocks : BlockMap) : String :=
  (buildUp (hashPair sha256) ((treeLeaves sha256 blocks).map Prod.snd)).getD (hashPair sha256 "" "")

/-- The hashes of the leaves whose id is not empty.
Source: `node/merkle.py`, `leaf_hashes`. -/
def leafHashes (sha256 : String → String) (blocks : BlockMap) : Dict String String :=
  ((treeLeaves sha256 blocks).filter fun leaf => leaf.1 ≠ "").foldl
    (fun hashes leaf => hashes.set leaf.1 leaf.2) .empty

/-- Source: `node/merkle.py`, `compare_trees`. -/
def compareTrees (sha256 : String → String) (treeA treeB : BlockMap) : List String :=
  let hashesA := leafHashes sha256 treeA
  let hashesB := leafHashes sha256 treeB
  ((hashesA.keys ++ hashesB.keys).dedup.filter fun blockId =>
    hashesA.get? blockId ≠ hashesB.get? blockId).insertionSort (· ≤ ·)

/-- Source: `node/merkle.py`, `trees_match`. -/
def treesMatch (sha256 : String → String) (treeA treeB : BlockMap) : Bool :=
  rootHash sha256 treeA = rootHash sha256 treeB

/-! ## What identifies a set of blocks -/

/-- The texts of the leaves, in the order of the tree. -/
def leafTexts (blocks : BlockMap) : List String :=
  (sortedBlocks blocks).map fun (blockId, block) => leafText blockId block

/-- The texts that are hashed for a tree. -/
def hashedTexts (sha256 : String → String) (blocks : BlockMap) : List String :=
  match HashTree.ofList (leafTexts blocks) with
  | none => ["" ++ ""]
  | some tree => tree.texts sha256 id (· ++ ·)

/-- Digests in hexadecimal, of texts of which no two collide. -/
structure Digests (sha256 : String → String) (texts : List String) : Prop where
  length_eq : ∀ text, (sha256 text).length = 64
  colonFree : ∀ text, ':' ∉ (sha256 text).toList
  collisionFree : ∀ x ∈ texts, ∀ y ∈ texts, sha256 x = sha256 y → x = y

theorem Digests.symm {sha256 : String → String} {texts texts' : List String}
    (h : Digests sha256 (texts ++ texts')) : Digests sha256 (texts' ++ texts) :=
  ⟨h.length_eq, h.colonFree, fun x hx y hy =>
    h.collisionFree x (List.perm_append_comm.mem_iff.mp hx) y (List.perm_append_comm.mem_iff.mp hy)⟩

/-- Trees identify the blocks of two maps. -/
structure Identifies (sha256 : String → String) (blocksA blocksB : BlockMap) : Prop where
  /-- The roots are the same just when the maps are. -/
  matched : treesMatch sha256 blocksA blocksB = true ↔
    ∀ blockId, blocksA.get? blockId = blocksB.get? blockId
  /-- The comparison is empty just when the maps are the same. -/
  compared : compareTrees sha256 blocksA blocksB = [] ↔
    ∀ blockId, blocksA.get? blockId = blocksB.get? blockId
  /-- The comparison lists the ids whose presence, data or version differ. -/
  exact : ∀ blockId, blockId ∈ compareTrees sha256 blocksA blocksB ↔
    blocksA.get? blockId ≠ blocksB.get? blockId

/-! ## Leaves -/

variable {sha256 : String → String} {A B : BlockMap} {b b' : String} {x y : String × ℤ}

theorem toList_leafText (b : String) (x : String × ℤ) : (leafText b x).toList =
    b.toList ++ ':' :: ((Int.repr x.2).toList ++ ':' :: x.1.toList) := by
  simp [leafText]

theorem colon_mem_leafText : ':' ∈ (leafText b x).toList := by
  rw [toList_leafText]
  exact List.mem_append_right _ List.mem_cons_self

/-- The rest of a text, after the id, shows the version and the data. -/
theorem rest_inj (h : (Int.repr x.2).toList ++ ':' :: x.1.toList =
    (Int.repr y.2).toList ++ ':' :: y.1.toList) : x = y := by
  have hnot := notMem_repr (c := ':') (by decide) (by decide)
  obtain ⟨hversion, hdata⟩ := append_cons_inj_left (hnot x.2) (hnot y.2) h
  exact Prod.ext (String.toList_injective hdata)
    (Int.repr_injective (String.toList_injective hversion))

/-- Among the texts of one block, a text shows the version and the data. -/
theorem leafText_inj (h : leafText b x = leafText b y) : x = y := by
  have hlist := congrArg String.toList h
  rw [toList_leafText, toList_leafText] at hlist
  exact rest_inj (List.cons.inj (List.append_cancel_left hlist)).2

/-- A text shows everything when the id has no colon. -/
theorem leafText_inj_of_plain (hb : ':' ∉ b.toList) (hb' : ':' ∉ b'.toList)
    (h : leafText b x = leafText b' y) : b = b' ∧ x = y := by
  have hlist := congrArg String.toList h
  rw [toList_leafText, toList_leafText] at hlist
  obtain ⟨hid, hrest⟩ := append_cons_inj_left hb hb' hlist
  exact ⟨String.toList_injective hid, rest_inj hrest⟩

theorem mem_sortedBlocks : (b, x) ∈ sortedBlocks A ↔ A.get? b = some x := by
  unfold sortedBlocks
  simp only [List.mem_filterMap, List.mem_insertionSort, Option.map_eq_some_iff, Prod.mk.injEq]
  constructor
  · rintro ⟨b', -, x', hx', rfl, rfl⟩
    exact hx'
  · intro hx
    exact ⟨b, Dict.mem_keys.mpr ⟨x, hx⟩, x, hx, rfl, rfl⟩

/-- The ids of the blocks, in their order. -/
theorem map_fst_sortedBlocks (A : BlockMap) :
    (sortedBlocks A).map Prod.fst = A.keys.insertionSort (· ≤ ·) := by
  unfold sortedBlocks
  have hall : ∀ l : List String, (∀ b ∈ l, (A.get? b).isSome) →
      (l.filterMap fun b => (A.get? b).map fun x => (b, x)).map Prod.fst = l := by
    intro l
    induction l with
    | nil => exact fun _ => rfl
    | cons b l ih =>
        intro hl
        obtain ⟨x, hx⟩ := Option.isSome_iff_exists.mp (hl b List.mem_cons_self)
        rw [List.filterMap_cons_some (by rw [hx]; rfl), List.map_cons,
          ih fun b' hb' => hl b' (List.mem_cons_of_mem _ hb')]
  refine hall _ fun b hb => ?_
  obtain ⟨x, hx⟩ := Dict.mem_keys.mp ((List.mem_insertionSort _).mp hb)
  exact Option.isSome_iff_exists.mpr ⟨x, hx⟩

theorem nodup_map_fst_sortedBlocks (A : BlockMap) : ((sortedBlocks A).map Prod.fst).Nodup := by
  rw [map_fst_sortedBlocks]
  exact (List.perm_insertionSort _ _).nodup_iff.mpr A.nodup_keys

/-- The blocks of a map, whatever the order in which they were entered. -/
theorem sortedBlocks_congr (h : ∀ b, A.get? b = B.get? b) : sortedBlocks A = sortedBlocks B := by
  have hkeys : A.keys.Perm B.keys := by
    refine (List.perm_ext_iff_of_nodup A.nodup_keys B.nodup_keys).mpr fun b => ?_
    rw [Dict.mem_keys, Dict.mem_keys, h b]
  have hsorted : A.keys.insertionSort (· ≤ ·) = B.keys.insertionSort (· ≤ ·) :=
    ((List.perm_insertionSort _ _).trans (hkeys.trans (List.perm_insertionSort _ _).symm)).eq_of_sortedLE
      List.sortedLE_insertionSort List.sortedLE_insertionSort
  unfold sortedBlocks
  rw [hsorted]
  exact List.filterMap_congr fun b _ => by rw [h b]

theorem get?_leafHashes (b : String) : (leafHashes sha256 A).get? b =
    if b = "" then none else (A.get? b).map (hashLeaf sha256 b) := by
  have hmem : ∀ leaf, leaf ∈ (treeLeaves sha256 A).filter (fun leaf => leaf.1 ≠ "") ↔
      leaf.1 ≠ "" ∧ ∃ x, A.get? leaf.1 = some x ∧ leaf.2 = hashLeaf sha256 leaf.1 x := by
    rintro ⟨b', hash⟩
    unfold treeLeaves
    simp only [List.mem_filter, List.mem_map, Prod.exists, Prod.mk.injEq, decide_eq_true_eq]
    constructor
    · rintro ⟨⟨b'', data, version, hx, rfl, rfl⟩, hne⟩
      exact ⟨hne, data, version, mem_sortedBlocks.mp hx, rfl⟩
    · rintro ⟨hne, data, version, hx, rfl⟩
      exact ⟨⟨b', data, version, mem_sortedBlocks.mpr hx, rfl, rfl⟩, hne⟩
  have hnodup : (((treeLeaves sha256 A).filter fun leaf => leaf.1 ≠ "").map Prod.fst).Nodup := by
    refine List.Nodup.sublist (List.filter_sublist.map _) ?_
    unfold treeLeaves
    rw [List.map_map]
    exact nodup_map_fst_sortedBlocks A
  apply Option.ext
  intro hash
  unfold leafHashes
  rw [Dict.foldl_set_get?_eq_some Prod.fst Prod.snd _ hnodup]
  by_cases hb : b = ""
  · rw [if_pos hb]
    refine iff_of_false ?_ nofun
    rintro (⟨leaf, hleaf, rfl, -⟩ | ⟨-, hnone⟩)
    · exact ((hmem leaf).mp hleaf).1 hb
    · cases hnone
  · rw [if_neg hb, Option.map_eq_some_iff]
    constructor
    · rintro (⟨leaf, hleaf, rfl, rfl⟩ | ⟨-, hnone⟩)
      · obtain ⟨-, x, hx, hhash⟩ := (hmem leaf).mp hleaf
        exact ⟨x, hx, hhash.symm⟩
      · cases hnone
    · rintro ⟨x, hx, rfl⟩
      exact Or.inl ⟨(b, hashLeaf sha256 b x), (hmem _).mpr ⟨hb, x, hx, rfl⟩, rfl, rfl⟩

theorem mem_leafTexts {text : String} :
    text ∈ leafTexts A ↔ ∃ b x, A.get? b = some x ∧ text = leafText b x := by
  unfold leafTexts
  rw [List.mem_map]
  constructor
  · rintro ⟨⟨b, x⟩, hx, rfl⟩
    exact ⟨b, x, mem_sortedBlocks.mp hx, rfl⟩
  · rintro ⟨b, x, hx, rfl⟩
    exact ⟨(b, x), mem_sortedBlocks.mpr hx, rfl⟩

/-- In a map whose ids have no colon, each leaf has its own text. -/
theorem nodup_leafTexts (hA : ∀ b x, A.get? b = some x → b ≠ "" ∧ ':' ∉ b.toList) :
    (leafTexts A).Nodup := by
  refine List.Nodup.map_on ?_ (List.Nodup.of_map Prod.fst (nodup_map_fst_sortedBlocks A))
  rintro ⟨b, x⟩ hx ⟨b', y⟩ hy heq
  obtain ⟨rfl, rfl⟩ := leafText_inj_of_plain (hA b x (mem_sortedBlocks.mp hx)).2
    (hA b' y (mem_sortedBlocks.mp hy)).2 heq
  rfl

/-- Maps whose ids have no colon are told by the texts of their leaves. -/
theorem mem_of_leafTexts_eq (hA : ∀ b x, A.get? b = some x → b ≠ "" ∧ ':' ∉ b.toList)
    (hB : ∀ b x, B.get? b = some x → b ≠ "" ∧ ':' ∉ b.toList) (heq : leafTexts A = leafTexts B)
    (hx : A.get? b = some x) : B.get? b = some x := by
  have htext : leafText b x ∈ leafTexts B := heq ▸ mem_leafTexts.mpr ⟨b, x, hx, rfl⟩
  obtain ⟨b', y, hy, hleaf⟩ := mem_leafTexts.mp htext
  obtain ⟨rfl, rfl⟩ := leafText_inj_of_plain (hA b x hx).2 (hB b' y hy).2 hleaf
  exact hy

/-! ## Comparisons -/

/-- The texts of the leaves are hashed. -/
theorem leafText_mem_hashedTexts (hx : A.get? b = some x) : leafText b x ∈ hashedTexts sha256 A := by
  have htext : leafText b x ∈ leafTexts A := mem_leafTexts.mpr ⟨b, x, hx, rfl⟩
  have hne : (leafTexts A).map HashTree.leaf ≠ [] :=
    List.ne_nil_of_mem (List.mem_map_of_mem htext)
  obtain ⟨tree, htree⟩ := buildUp_isSome (f := HashTree.node) hne
  unfold hashedTexts HashTree.ofList
  rw [htree]
  have hleaf := (HashTree.mem_leaves_ofList htree).mpr htext
  exact (HashTree.leafText_mem_texts hleaf : id (leafText b x) ∈ _)

/-- Hashes of leaves tell the versions and the data of a block. -/
theorem map_hashLeaf_inj (h : Digests sha256 (hashedTexts sha256 A ++ hashedTexts sha256 B)) :
    (A.get? b).map (hashLeaf sha256 b) = (B.get? b).map (hashLeaf sha256 b) ↔
      A.get? b = B.get? b := by
  refine ⟨fun heq => ?_, fun heq => by rw [heq]⟩
  rcases hx : A.get? b with _ | x
  · rw [hx, Option.map_none] at heq
    exact (Option.map_eq_none_iff.mp heq.symm).symm
  · rw [hx, Option.map_some] at heq
    obtain ⟨y, hy, hhash⟩ := Option.map_eq_some_iff.mp heq.symm
    have htext := h.collisionFree _ (List.mem_append_right _ (leafText_mem_hashedTexts hy))
      _ (List.mem_append_left _ (leafText_mem_hashedTexts hx)) hhash
    rw [hy, leafText_inj htext]

/-- A comparison lists the blocks that differ, except for the block without an id. -/
theorem mem_compareTrees (h : Digests sha256 (hashedTexts sha256 A ++ hashedTexts sha256 B)) :
    b ∈ compareTrees sha256 A B ↔ b ≠ "" ∧ A.get? b ≠ B.get? b := by
  have hget : (leafHashes sha256 A).get? b = (leafHashes sha256 B).get? b ↔
      b = "" ∨ A.get? b = B.get? b := by
    rw [get?_leafHashes, get?_leafHashes]
    by_cases hb : b = ""
    · rw [if_pos hb, if_pos hb]
      exact iff_of_true rfl (Or.inl hb)
    · rw [if_neg hb, if_neg hb, map_hashLeaf_inj h]
      exact ⟨Or.inr, fun hor => hor.resolve_left hb⟩
  unfold compareTrees
  rw [List.mem_insertionSort, List.mem_filter, List.mem_dedup, List.mem_append, decide_eq_true_eq,
    Ne, hget, not_or]
  refine ⟨And.right, fun hne => ⟨?_, hne⟩⟩
  by_contra hnot
  have hnone : ∀ hashes : Dict String String, b ∉ hashes.keys → hashes.get? b = none := by
    intro hashes hkeys
    cases hhash : hashes.get? b with
    | none => rfl
    | some hash => exact absurd (Dict.mem_keys.mpr ⟨hash, hhash⟩) hkeys
  have hsame : (leafHashes sha256 A).get? b = (leafHashes sha256 B).get? b := by
    rw [hnone _ fun hmem => hnot (Or.inl hmem), hnone _ fun hmem => hnot (Or.inr hmem)]
  rcases hget.mp hsame with hb | heq
  · exact hne.1 hb
  · exact hne.2 heq

/-! ## Roots -/

/-- The root is the hash of the tree of the leaves' texts. -/
theorem rootHash_eq (sha256 : String → String) (A : BlockMap) : rootHash sha256 A =
    ((HashTree.ofList (leafTexts A)).map (HashTree.hash sha256 id (· ++ ·))).getD
      (sha256 ("" ++ "")) := by
  have hleaves : (treeLeaves sha256 A).map Prod.snd =
      (leafTexts A).map fun text => sha256 (id text) := by
    unfold treeLeaves leafTexts
    rw [List.map_map, List.map_map]
    rfl
  unfold rootHash
  rw [hleaves, ← HashTree.buildUp_hash]
  rfl

/-- The text of a pair of hashes shows the hashes. -/
theorem pairText_inj {texts : List String} (h : Digests sha256 texts) {x y x' y' : String}
    (heq : sha256 x ++ sha256 y = sha256 x' ++ sha256 y') :
    sha256 x = sha256 x' ∧ sha256 y = sha256 y' := by
  have hlist := congrArg String.toList heq
  rw [String.toList_append, String.toList_append] at hlist
  obtain ⟨hleft, hright⟩ := List.append_inj hlist (by
    rw [String.length_toList, String.length_toList, h.length_eq, h.length_eq])
  exact ⟨String.toList_injective hleft, String.toList_injective hright⟩

/-- No leaf is hashed as a pair. -/
theorem leafText_ne_pairText {texts : List String} (h : Digests sha256 texts) (b : String)
    (x : String × ℤ) (y y' : String) : leafText b x ≠ sha256 y ++ sha256 y' := by
  intro heq
  have hcolon : ':' ∈ (leafText b x).toList := colon_mem_leafText
  rw [heq, String.toList_append, List.mem_append] at hcolon
  rcases hcolon with hcolon | hcolon
  · exact h.colonFree y hcolon
  · exact h.colonFree y' hcolon

/-- The root of a tree of blocks is no hash of the empty text. -/
theorem hash_ne_hash_empty {texts : List String} {tree : HashTree String}
    (h : Digests sha256 (hashedTexts sha256 A ++ texts)) (hempty : "" ++ "" ∈ texts)
    (htree : HashTree.ofList (leafTexts A) = some tree) :
    tree.hash sha256 id (· ++ ·) ≠ sha256 ("" ++ "") := by
  intro heq
  have hhashed : hashedTexts sha256 A = tree.texts sha256 id (· ++ ·) := by
    unfold hashedTexts
    rw [htree]
  cases tree with
  | leaf text =>
      have htext := h.collisionFree text (by rw [hhashed]; exact List.mem_cons_self) _
        (List.mem_append_right _ hempty) heq
      obtain ⟨b, x, -, hleaf⟩ := mem_leafTexts.mp
        ((HashTree.mem_leaves_ofList htree).mp List.mem_cons_self)
      have hcolon : ':' ∈ (leafText b x).toList := colon_mem_leafText
      rw [← hleaf, htext] at hcolon
      exact absurd hcolon (by decide)
  | node left right =>
      have htext := h.collisionFree _
        (List.mem_append_left _ (by rw [hhashed]; exact List.mem_cons_self)) _
        (List.mem_append_right _ hempty) heq
      obtain ⟨y, hy⟩ := HashTree.exists_hash_eq sha256 id (· ++ ·) left
      have hlength := congrArg String.length htext
      simp only [hy, String.length_append, h.length_eq] at hlength
      have hzero : ("" : String).length = 0 := rfl
      omega

/-- Two trees match just when the texts of their leaves are the same once they are padded. -/
theorem treesMatch_iff (h : Digests sha256 (hashedTexts sha256 A ++ hashedTexts sha256 B)) :
    treesMatch sha256 A B = true ↔
      HashTree.padded (leafTexts A) = HashTree.padded (leafTexts B) := by
  unfold treesMatch
  rw [decide_eq_true_eq, rootHash_eq, rootHash_eq, ← HashTree.ofList_eq_iff]
  refine ⟨fun heq => ?_, fun heq => by rw [heq]⟩
  rcases hA : HashTree.ofList (leafTexts A) with _ | treeA
  · rcases hB : HashTree.ofList (leafTexts B) with _ | treeB
    · rfl
    · rw [hA, hB] at heq
      refine absurd heq.symm (hash_ne_hash_empty h.symm ?_ hB)
      unfold hashedTexts
      rw [hA]
      exact List.mem_cons_self
  · rcases hB : HashTree.ofList (leafTexts B) with _ | treeB
    · rw [hA, hB] at heq
      refine absurd heq (hash_ne_hash_empty h ?_ hA)
      unfold hashedTexts
      rw [hB]
      exact List.mem_cons_self
    · rw [hA, hB] at heq
      have htexts : hashedTexts sha256 A ++ hashedTexts sha256 B =
          treeA.texts sha256 id (· ++ ·) ++ treeB.texts sha256 id (· ++ ·) := by
        unfold hashedTexts
        rw [hA, hB]
      refine congrArg some (HashTree.hash_inj Function.injective_id
        (fun _ _ _ _ => pairText_inj h) (fun text htext y y' => ?_) (fun text htext text' htext' => ?_)
        heq)
      · have hleaf : ∃ b x, text = leafText b x := by
          rcases List.mem_append.mp htext with htext | htext
          · obtain ⟨b, x, -, hleaf⟩ := mem_leafTexts.mp ((HashTree.mem_leaves_ofList hA).mp htext)
            exact ⟨b, x, hleaf⟩
          · obtain ⟨b, x, -, hleaf⟩ := mem_leafTexts.mp ((HashTree.mem_leaves_ofList hB).mp htext)
            exact ⟨b, x, hleaf⟩
        obtain ⟨b, x, rfl⟩ := hleaf
        exact leafText_ne_pairText h b x y y'
      · exact h.collisionFree text (htexts ▸ List.mem_append_left _ htext) text'
          (htexts ▸ List.mem_append_right _ htext')

/-! ## What trees identify -/

/-- Trees identify their blocks just when no other blocks have the same texts and the block without an
id does not differ. -/
theorem identifies_iff (sha256 : String → String) (A B : BlockMap)
    (h : Digests sha256 (hashedTexts sha256 A ++ hashedTexts sha256 B)) :
    Identifies sha256 A B ↔ A.get? "" = B.get? "" ∧
      (HashTree.padded (leafTexts A) = HashTree.padded (leafTexts B) →
        ∀ b, A.get? b = B.get? b) := by
  constructor
  · intro hid
    refine ⟨?_, fun hpad => hid.matched.mp ((treesMatch_iff h).mpr hpad)⟩
    by_contra hne
    exact ((mem_compareTrees h).mp ((hid.exact "").mpr hne)).1 rfl
  · rintro ⟨hblank, hpad⟩
    have hexact : ∀ b, b ∈ compareTrees sha256 A B ↔ A.get? b ≠ B.get? b := by
      intro b
      rw [mem_compareTrees h]
      refine ⟨And.right, fun hne => ⟨?_, hne⟩⟩
      rintro rfl
      exact hne hblank
    refine ⟨?_, ?_, hexact⟩
    · rw [treesMatch_iff h]
      refine ⟨hpad, fun heq => ?_⟩
      unfold leafTexts
      rw [sortedBlocks_congr heq]
    · rw [List.eq_nil_iff_forall_not_mem]
      exact forall_congr' fun b => by rw [hexact b, not_not]

/-- Blocks whose ids have no colon and are not empty are identified. -/
theorem identifies_of_plain (h : Digests sha256 (hashedTexts sha256 A ++ hashedTexts sha256 B))
    (hA : ∀ b x, A.get? b = some x → b ≠ "" ∧ ':' ∉ b.toList)
    (hB : ∀ b x, B.get? b = some x → b ≠ "" ∧ ':' ∉ b.toList) : Identifies sha256 A B := by
  refine (identifies_iff sha256 A B h).mpr ⟨?_, fun hpad b => ?_⟩
  · have hnone : ∀ C : BlockMap, (∀ b x, C.get? b = some x → b ≠ "" ∧ ':' ∉ b.toList) →
        C.get? "" = none := by
      intro C hC
      cases hx : C.get? "" with
      | none => rfl
      | some x => exact absurd rfl (hC "" x hx).1
    rw [hnone A hA, hnone B hB]
  · have hlists := HashTree.padded_inj (nodup_leafTexts hA) (nodup_leafTexts hB) hpad
    refine Option.ext fun x => ?_
    exact ⟨mem_of_leafTexts_eq hA hB hlists, mem_of_leafTexts_eq hB hA hlists.symm⟩

/-- The digests of some texts. -/
def digests (text : String) : String :=
  if text = "a:1:x" then "db128abe221dde9e9ec104023dc34d40a40b82f5a9099f6e5dda8aabaa5e86e3"
  else if text = "b:1:y" then
    "611be38d5179d48a81bebfa48912325c19698ed6055eb6a6b5219946e989d88a"
  else if text = "db128abe221dde9e9ec104023dc34d40a40b82f5a9099f6e5dda8aabaa5e86e3" ++
      "611be38d5179d48a81bebfa48912325c19698ed6055eb6a6b5219946e989d88a" then
    "144901f16b05ca9d244db3880f47ff54463f97155fda197aa46457741732d0ce"
  else if text = "a:1:2:x" then
    "0a45992f0078883dcb6f016d843cc355dd312725459266eb89e114dbfb981493"
  else if text = "a:2:y" then
    "9df8d855db56cda4fe82f6472a7de4b0f215c518119c353312d68d6af5858808"
  else "e3b0c44298fc1c149afbf4c8996fb92427ae41e4649b934ca495991b7852b855"

theorem length_digests (text : String) : (digests text).length = 64 := by
  unfold digests
  split_ifs <;> rfl

theorem colon_notMem_digests (text : String) : ':' ∉ (digests text).toList := by
  unfold digests
  split_ifs <;> decide

/-- Two blocks and one of them are told apart. -/
theorem identifies_iff_pair : Identifies digests (Dict.empty.set "a" ("x", 1) |>.set "b" ("y", 1))
    (Dict.empty.set "a" ("x", 1)) :=
  (identifies_iff digests _ _ ⟨length_digests, colon_notMem_digests, by decide +kernel⟩).mpr
    ⟨by decide, fun h => absurd h (by decide +kernel)⟩

/-- The block `a` of version 1 with the data `2:x` has the text of the block `a:1` of version 2 with the
data `x`. -/
theorem identifies_counterexample : ¬∀ (sha256 : String → String) (A B : BlockMap),
    Digests sha256 (hashedTexts sha256 A ++ hashedTexts sha256 B) → Identifies sha256 A B := by
  intro hall
  have hid := hall digests (Dict.empty.set "a" ("2:x", 1)) (Dict.empty.set "a:1" ("x", 2))
    ⟨length_digests, colon_notMem_digests, by decide +kernel⟩
  exact absurd (hid.matched.mp (by decide +kernel) "a") (by decide)

end NanoFabric.Node
