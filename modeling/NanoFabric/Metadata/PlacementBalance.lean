import NanoFabric.Metadata.PlacementService

/-!
# Balanced placement

Calls of the round-robin policy one after the other with the same nodes and the same replication
factor.

* `RoundRobinPlacementPolicy.selections_eq` — they choose windows of the sorted nodes, each one node
  further than the one before.
* `RoundRobinPlacementPolicy.selections_balanced` — they are valid, and no node is chosen much more
  often than another, whatever the counter was.
-/

namespace NanoFabric.Metadata

open NanoFabric.Found

namespace RoundRobinPlacementPolicy

/-- Source: `metadata/placement_policy.py`, `advance`. -/
def advance (_ : RoundRobinPlacementPolicy) (steps : ℤ) : RoundRobinPlacementPolicy := ⟨steps⟩

/-- What `m` calls of `select_nodes` choose, and the policy after them. -/
def selections (p : RoundRobinPlacementPolicy) (availableNodes : List String)
    (replicationFactor : ℕ) :
    ℕ → Except String (List (List String) × RoundRobinPlacementPolicy)
  | 0 => .ok ([], p)
  | m + 1 =>
      match p.selectNodes availableNodes replicationFactor with
      | .error e => .error e
      | .ok (nodes, p') =>
          (selections p' availableNodes replicationFactor m).map fun r => (nodes :: r.1, r.2)

/-- What the choices of `m` calls have in common: each is of distinct nodes that are available, and
the choices are spread evenly over these. -/
structure Balanced (availableNodes : List String) (replicationFactor m : ℕ)
    (choices : List (List String)) : Prop where
  calls : choices.length = m
  valid : ∀ nodes ∈ choices,
    nodes.length = replicationFactor ∧ nodes.Nodup ∧ nodes ⊆ availableNodes
  first : ∀ node ∈ availableNodes,
    choices.countP (fun nodes => nodes.head? = some node) = m / availableNodes.length ∨
      choices.countP (fun nodes => nodes.head? = some node) = m ⌈/⌉ availableNodes.length
  total : ∀ node ∈ availableNodes,
    replicationFactor * (m / availableNodes.length) ≤ choices.flatten.count node ∧
      choices.flatten.count node ≤ replicationFactor * (m ⌈/⌉ availableNodes.length)

variable {available : List String} {rf : ℕ}

/-- A call with a replication factor that fits goes well. -/
theorem selectNodes_ok (p : RoundRobinPlacementPolicy) (hpos : 1 ≤ rf) (hrf : rf ≤ available.length) :
    p.selectNodes available rf = .ok
      (window (available.insertionSort (· ≤ ·)) (p.counter % available.length).toNat rf,
        ⟨p.counter + 1⟩) := by
  have hne : available ≠ [] := List.ne_nil_of_length_pos (lt_of_lt_of_le hpos hrf)
  unfold selectNodes window
  rw [if_neg hne, if_neg (not_lt.mpr hpos), if_neg (not_lt.mpr hrf)]
  simp only [List.length_insertionSort]

/-- The counter one step further, modulo the number of nodes. -/
theorem toNat_succ_emod (c : ℤ) {n : ℕ} (hn : 0 < n) :
    ((c + 1) % n).toNat = ((c % n).toNat + 1) % n := by
  have hn' : (n : ℤ) ≠ 0 := by omega
  zify
  rw [Int.toNat_of_nonneg (Int.emod_nonneg _ hn'), Int.toNat_of_nonneg (Int.emod_nonneg _ hn'),
    Int.emod_add_emod]

/-- The calls choose windows of the sorted nodes, each one node further than the one before. -/
theorem selections_eq (p : RoundRobinPlacementPolicy) (hpos : 1 ≤ rf) (hrf : rf ≤ available.length)
    (m : ℕ) :
    p.selections available rf m = .ok
      (windows (available.insertionSort (· ≤ ·)) (p.counter % available.length).toNat rf m,
        p.advance (p.counter + m)) := by
  have hn : 0 < available.length := lt_of_lt_of_le hpos hrf
  induction m generalizing p with
  | zero =>
      rw [Nat.cast_zero, add_zero]
      rfl
  | succ m ih =>
      rw [selections, selectNodes_ok p hpos hrf]
      have hrest := ih ⟨p.counter + 1⟩
      rw [toNat_succ_emod _ hn] at hrest
      have hwindows := windows_mod (available.insertionSort (· ≤ ·))
        ((p.counter % available.length).toNat + 1) rf m
      rw [List.length_insertionSort] at hwindows
      rw [hwindows] at hrest
      simp only [hrest, Except.map, windows_succ]
      refine congrArg Except.ok (congrArg _ (congrArg RoundRobinPlacementPolicy.mk ?_))
      push_cast
      ring

/-- The choices are valid and balanced, whatever the order of the nodes is and whatever the counter
was, after `advance` too. -/
theorem selections_balanced (hnodup : available.Nodup) (hpos : 1 ≤ rf) (hrf : rf ≤ available.length)
    (p : RoundRobinPlacementPolicy) (m : ℕ) : ∃ choices,
    p.selections available rf m = .ok (choices, p.advance (p.counter + m)) ∧
      Balanced available rf m choices := by
  refine ⟨_, selections_eq p hpos hrf m, ?_⟩
  set ring := available.insertionSort (· ≤ ·) with hring
  have hperm : ring.Perm available := List.perm_insertionSort _ _
  have hringNodup : ring.Nodup := hperm.nodup_iff.mpr hnodup
  have hlength : ring.length = available.length := hperm.length_eq
  have hne : ring ≠ [] := List.ne_nil_of_length_pos (by omega)
  set start := (p.counter % available.length).toNat
  constructor
  case calls => rw [windows, List.length_map, List.length_range]
  case valid =>
      intro nodes hnodes
      obtain ⟨i, -, rfl⟩ := mem_windows.mp hnodes
      exact ⟨length_window hne _ _, window_nodup hringNodup (by omega) _,
        fun node hnode => hperm.mem_iff.mp (mem_of_mem_window hnode)⟩
  case first =>
      intro node hnode
      obtain ⟨k, rfl⟩ := Nat.exists_eq_succ_of_ne_zero (Nat.one_le_iff_ne_zero.mp hpos)
      have hcount : (windows ring start (k + 1) m).countP (fun nodes => nodes.head? = some node) =
          (List.range m).countP (fun i => ring[(start + i) % ring.length]? = some node) := by
        rw [windows, List.countP_map]
        refine List.countP_congr fun i _ => ?_
        rw [Function.comp_apply, head?_window _ _ _ hne]
      have hturns := countP_turns hringNodup (hperm.mem_iff.mpr hnode) start m
      rw [← hcount, hlength] at hturns
      exact hturns
  case total =>
      intro node hnode
      have hcount := count_windows hringNodup (hperm.mem_iff.mpr hnode) start rf m
      rw [hlength] at hcount
      exact hcount

/-- Eleven calls for three nodes, two of them at a time, where the counter starts at seven. -/
theorem selections_balanced_seven : ∃ choices,
    (RoundRobinPlacementPolicy.mk 7).selections ["node2", "node3", "node1"] 2 11 =
        .ok (choices, .mk 18) ∧
      Balanced ["node2", "node3", "node1"] 2 11 choices :=
  selections_balanced (by decide) (by decide) (by decide) ⟨7⟩ 11

end RoundRobinPlacementPolicy

end NanoFabric.Metadata
