import NanoFabric.Metadata.PlacementView

/-!
# Replaying a log over newer placements

A node that restarts recovers the placements of its database, which the whole log it had applied has
written, and then applies that log again from an earlier entry. `Follows log a r w` describes what
it shows on the way, at the entry `a` of a log of which it has once applied `r` entries: what is not
yet the view of the first `a` entries comes from one of the prefixes up to `r`.

* `Follows.apply` — applying the next entry.
* `Follows.recover` — a restart from the database alone.
* `Follows.exact` — with the whole log applied again, the node shows the view of the log.
-/

namespace NanoFabric.Metadata

open NanoFabric.Found

/-! ## Views of logs -/

/-- A placed block has a row with its nodes and its version and is listed by its nodes, and a block
that is not placed has left no trace. -/
structure PlacementView.Coherent (w : PlacementView) : Prop where
  rows : ∀ b nodes, w.locations b = some nodes →
    ∃ v, w.versions b = some v ∧ w.rows b = some ⟨v, nodes.toFinset⟩
  unplaced : ∀ b, w.locations b = none →
    w.versions b = none ∧ w.rows b = none ∧ ∀ n, b ∉ w.inventory n
  listed : ∀ b nodes n, w.locations b = some nodes → n ∈ nodes → b ∈ w.inventory n

/-- A command allocates a block, places a block or does nothing to placements. -/
theorem PlacementView.apply_cases (c : Command) : (∀ w : PlacementView, w.apply c = w) ∨
    ∃ b v nodes, (∀ w : PlacementView, w.apply c = w.allocate b v nodes) ∨
      ∀ w : PlacementView, w.apply c = w.place b v nodes := by
  cases c with
  | allocateBlock b v nodes =>
      by_cases hfits : Placement.Fits (v.getD 1) nodes
      · exact Or.inr ⟨b, v.getD 1, nodes, Or.inl fun w => if_pos hfits⟩
      · exact Or.inl fun w => if_neg hfits
  | updatePlacement b v nodes =>
      by_cases hfits : Placement.Fits v nodes
      · exact Or.inr ⟨b, v, nodes, Or.inr fun w => if_pos hfits⟩
      · exact Or.inl fun w => if_neg hfits
  | _ => exact Or.inl fun w => rfl

namespace PlacementView.Coherent

variable {w : PlacementView}

theorem empty : PlacementView.empty.Coherent where
  rows _ _ h := by cases h
  unplaced _ _ := ⟨rfl, rfl, fun n => Finset.notMem_empty _⟩
  listed _ _ _ h := by cases h

theorem allocate (h : w.Coherent) (b : String) (v : ℤ) (nodes : List String) :
    (w.allocate b v nodes).Coherent where
  rows b' nodes' hb' := by
    rw [locations_allocate] at hb'
    rw [versions_allocate, rows_allocate]
    split at hb'
    · obtain rfl := Option.some.inj hb'
      rename_i heq
      rw [if_pos heq, if_pos heq]
      exact ⟨v, rfl, rfl⟩
    · rename_i hne
      rw [if_neg hne, if_neg hne]
      exact h.rows b' nodes' hb'
  unplaced b' hb' := by
    rw [locations_allocate] at hb'
    rw [versions_allocate, rows_allocate]
    split at hb'
    · cases hb'
    · rename_i hne
      rw [if_neg hne, if_neg hne]
      refine ⟨(h.unplaced b' hb').1, (h.unplaced b' hb').2.1, fun n => ?_⟩
      rw [mem_inventory_allocate]
      rintro (hn | ⟨heq, -⟩)
      · exact (h.unplaced b' hb').2.2 n hn
      · exact hne heq
  listed b' nodes' n hb' hn := by
    rw [locations_allocate] at hb'
    rw [mem_inventory_allocate]
    split at hb'
    · obtain rfl := Option.some.inj hb'
      rename_i heq
      exact Or.inr ⟨heq, hn⟩
    · exact Or.inl (h.listed b' nodes' n hb' hn)

/-- The nodes of a block list it after it is placed, if those it had before did. -/
theorem mem_inventory_place_of_mem {b : String} {v : ℤ} {nodes : List String} {n : String}
    (hlisted : ∀ old, w.locations b = some old → n ∈ old → b ∈ w.inventory n) (hn : n ∈ nodes) :
    b ∈ (w.place b v nodes).inventory n := by
  rw [mem_inventory_place]
  by_cases hold : n ∈ (w.locations b).getD []
  · rcases hloc : w.locations b with _ | old
    · rw [hloc] at hold
      cases hold
    · rw [hloc] at hold
      exact Or.inl ⟨hlisted old hloc hold, fun hnot => hnot.2.2 hn⟩
  · exact Or.inr ⟨rfl, hn, hold⟩

theorem place (h : w.Coherent) (b : String) (v : ℤ) (nodes : List String) :
    (w.place b v nodes).Coherent where
  rows b' nodes' hb' := by
    rw [locations_place] at hb'
    rw [versions_place, rows_place]
    split at hb'
    · obtain rfl := Option.some.inj hb'
      rename_i heq
      rw [if_pos heq, if_pos heq]
      exact ⟨v, rfl, rfl⟩
    · rename_i hne
      rw [if_neg hne, if_neg hne]
      exact h.rows b' nodes' hb'
  unplaced b' hb' := by
    rw [locations_place] at hb'
    rw [versions_place, rows_place]
    split at hb'
    · cases hb'
    · rename_i hne
      rw [if_neg hne, if_neg hne]
      refine ⟨(h.unplaced b' hb').1, (h.unplaced b' hb').2.1, fun n => ?_⟩
      rw [mem_inventory_place]
      rintro (⟨hn, -⟩ | ⟨heq, -⟩)
      · exact (h.unplaced b' hb').2.2 n hn
      · exact hne heq
  listed b' nodes' n hb' hn := by
    rw [locations_place] at hb'
    split at hb'
    · rename_i heq
      obtain rfl := Option.some.inj hb'
      subst heq
      exact mem_inventory_place_of_mem (fun old hold => h.listed b' old n hold) hn
    · rename_i hne
      rw [mem_inventory_place]
      exact Or.inl ⟨h.listed b' nodes' n hb' hn, fun hnot => hne hnot.1⟩

theorem apply (h : w.Coherent) (c : Command) : (w.apply c).Coherent := by
  rcases PlacementView.apply_cases c with hid | ⟨b, v, nodes, halloc | hplace⟩
  · rw [hid w]
    exact h
  · rw [halloc w]
    exact h.allocate b v nodes
  · rw [hplace w]
    exact h.place b v nodes

end PlacementView.Coherent

theorem coherent_viewOf (log : List Command) : (viewOf log).Coherent := by
  induction log using List.reverseRecOn with
  | nil => exact PlacementView.Coherent.empty
  | append_singleton log c ih => exact viewOf_append log c ▸ ih.apply c

theorem viewOf_take_succ {log : List Command} {a : ℕ} {c : Command} (hc : log[a]? = some c) :
    viewOf (log.take (a + 1)) = (viewOf (log.take a)).apply c := by
  rw [List.take_add_one, hc]
  exact viewOf_append _ c

/-! ## Following a log -/

/-- The block `b` has the row `row` after one of the first `r` entries of the log, at the entry `a`
or later. -/
def RowWithin (log : List Command) (a r : ℕ) (b : String) (row : BlockRow) : Prop :=
  ∃ j, a ≤ j ∧ j ≤ r ∧ (viewOf (log.take j)).rows b = some row

/-- What a node shows that has applied `r` entries of the log and applies them again, at the `a`-th.
A block is as the first `a` entries leave it, or they do not place it and it is as a later prefix
leaves it. -/
structure Follows (log : List Command) (a r : ℕ) (w : PlacementView) : Prop where
  le : a ≤ r
  le_length : r ≤ log.length
  registry : ∀ b,
    (w.locations b = (viewOf (log.take a)).locations b ∧
      w.versions b = (viewOf (log.take a)).versions b) ∨
    ((viewOf (log.take a)).locations b = none ∧ ∃ row, RowWithin log a r b row ∧
      w.versions b = some row.version ∧ ∀ nodes, w.locations b = some nodes → nodes.toFinset = row.nodes)
  rows : ∀ b, ∃ j, a ≤ j ∧ j ≤ r ∧ w.rows b = (viewOf (log.take j)).rows b
  inventory_ge : ∀ b n, b ∈ (viewOf (log.take a)).inventory n → b ∈ w.inventory n
  inventory_le : ∀ b n, b ∈ w.inventory n →
    b ∈ (viewOf (log.take a)).inventory n ∨ ∃ row, RowWithin log a r b row ∧ n ∈ row.nodes
  placed : ∀ b nodes n, w.locations b = some nodes → n ∈ nodes → b ∈ w.inventory n

variable {log : List Command} {a r : ℕ} {w : PlacementView}

/-- A node without other writers shows the view of what it has applied. -/
theorem Follows.of_eq (ha : a ≤ log.length) (hw : w = viewOf (log.take a)) : Follows log a a w := by
  subst hw
  exact ⟨le_rfl, ha, fun b => Or.inl ⟨rfl, rfl⟩, fun b => ⟨a, le_rfl, le_rfl, rfl⟩,
    fun b n h => h, fun b n h => Or.inl h, (coherent_viewOf _).listed⟩

/-- A row of the prefix at which a node is, with a node in it, is in the node's inventory there. -/
theorem mem_inventory_of_rows {j : ℕ} {b : String} {row : BlockRow} {n : String}
    (hrow : (viewOf (log.take j)).rows b = some row) (hn : n ∈ row.nodes) :
    b ∈ (viewOf (log.take j)).inventory n := by
  rcases hloc : (viewOf (log.take j)).locations b with _ | nodes
  · rw [((coherent_viewOf _).unplaced b hloc).2.1] at hrow
    cases hrow
  · obtain ⟨v, -, hrow'⟩ := (coherent_viewOf _).rows b nodes hloc
    obtain rfl := Option.some.inj (hrow'.symm.trans hrow)
    exact (coherent_viewOf _).listed b nodes n hloc (List.mem_toFinset.mp hn)

/-- **A node that has applied everything again shows the view of the log.** -/
theorem Follows.exact (h : Follows log a a w) : w = viewOf (log.take a) := by
  have hreg : ∀ b, w.locations b = (viewOf (log.take a)).locations b ∧
      w.versions b = (viewOf (log.take a)).versions b := by
    intro b
    rcases h.registry b with hexact | ⟨hnone, row, ⟨j, haj, hja, hrow⟩, -⟩
    · exact hexact
    · obtain rfl := le_antisymm haj hja
      rw [((coherent_viewOf _).unplaced b hnone).2.1] at hrow
      cases hrow
  apply PlacementView.ext
  · exact funext fun b => (hreg b).1
  · exact funext fun b => (hreg b).2
  · funext n
    ext b
    constructor
    · intro hb
      rcases h.inventory_le b n hb with hmem | ⟨row, ⟨j, haj, hja, hrow⟩, hn⟩
      · exact hmem
      · obtain rfl := le_antisymm haj hja
        exact mem_inventory_of_rows hrow hn
    · exact h.inventory_ge b n
  · funext b
    obtain ⟨j, haj, hja, hrow⟩ := h.rows b
    obtain rfl := le_antisymm haj hja
    exact hrow

/-- The log may grow. -/
theorem Follows.append (h : Follows log a r w) (c : Command) : Follows (log ++ [c]) a r w := by
  have htake : ∀ j ≤ r, (log ++ [c]).take j = log.take j := fun j hj =>
    List.take_append_of_le_length (hj.trans h.le_length)
  have hrow : ∀ b row, RowWithin log a r b row → RowWithin (log ++ [c]) a r b row := by
    rintro b row ⟨j, haj, hjr, hj⟩
    exact ⟨j, haj, hjr, by rw [htake j hjr]; exact hj⟩
  refine ⟨h.le, h.le_length.trans (by simp), ?_, ?_, ?_, ?_, h.placed⟩
  · intro b
    rw [htake a h.le]
    exact (h.registry b).imp_right fun ⟨hnone, row, hr, hrest⟩ => ⟨hnone, row, hrow b row hr, hrest⟩
  · intro b
    obtain ⟨j, haj, hjr, hj⟩ := h.rows b
    exact ⟨j, haj, hjr, by rw [htake j hjr]; exact hj⟩
  · intro b n
    rw [htake a h.le]
    exact h.inventory_ge b n
  · intro b n hb
    rw [htake a h.le]
    exact (h.inventory_le b n hb).imp_right fun ⟨row, hr, hn⟩ => ⟨row, hrow b row hr, hn⟩

/-- What has been applied may grow. -/
theorem Follows.mono (h : Follows log a r w) {r' : ℕ} (hr : r ≤ r') (hr' : r' ≤ log.length) :
    Follows log a r' w := by
  have hrow : ∀ b row, RowWithin log a r b row → RowWithin log a r' b row :=
    fun b row ⟨j, haj, hjr, hj⟩ => ⟨j, haj, hjr.trans hr, hj⟩
  refine ⟨h.le.trans hr, hr', ?_, ?_, h.inventory_ge, ?_, h.placed⟩
  · exact fun b => (h.registry b).imp_right fun ⟨hnone, row, hw, hrest⟩ =>
      ⟨hnone, row, hrow b row hw, hrest⟩
  · intro b
    obtain ⟨j, haj, hjr, hj⟩ := h.rows b
    exact ⟨j, haj, hjr.trans hr, hj⟩
  · exact fun b n hb => (h.inventory_le b n hb).imp_right fun ⟨row, hw, hn⟩ =>
      ⟨row, hrow b row hw, hn⟩

/-! ## The next entry -/

/-- What is within reach from an entry on is within reach from the next one, or is of this one. -/
theorem RowWithin.succ {b : String} {row : BlockRow} (h : RowWithin log a r b row) :
    (viewOf (log.take a)).rows b = some row ∨ RowWithin log (a + 1) (max r (a + 1)) b row := by
  obtain ⟨j, haj, hjr, hj⟩ := h
  rcases eq_or_lt_of_le haj with rfl | hlt
  · exact Or.inl hj
  · exact Or.inr ⟨j, hlt, hjr.trans (le_max_left _ _), hj⟩

/-- The same for a block that the entry does not touch. -/
theorem RowWithin.next {b : String} {row : BlockRow} (h : RowWithin log a r b row)
    (hsame : (viewOf (log.take (a + 1))).rows b = (viewOf (log.take a)).rows b) :
    RowWithin log (a + 1) (max r (a + 1)) b row := by
  rcases h.succ with hrow | hrow
  · exact ⟨a + 1, le_rfl, le_max_right _ _, hsame.trans hrow⟩
  · exact hrow

namespace Follows

/-- The row of a block that the entry does not touch. -/
theorem rows_next {b : String} (h : Follows log a r w)
    (hsame : (viewOf (log.take (a + 1))).rows b = (viewOf (log.take a)).rows b) :
    ∃ j, a + 1 ≤ j ∧ j ≤ max r (a + 1) ∧ w.rows b = (viewOf (log.take j)).rows b := by
  obtain ⟨j, haj, hjr, hj⟩ := h.rows b
  rcases eq_or_lt_of_le haj with rfl | hlt
  · exact ⟨a + 1, le_rfl, le_max_right _ _, hj.trans hsame.symm⟩
  · exact ⟨j, hlt, hjr.trans (le_max_left _ _), hj⟩

/-- A block that the prefix lists is registered as the prefix has it. -/
theorem locations_of_listed {b n : String} (h : Follows log a r w)
    (hin : b ∈ (viewOf (log.take a)).inventory n) :
    w.locations b = (viewOf (log.take a)).locations b := by
  rcases h.registry b with ⟨hloc, -⟩ | ⟨hnone, -⟩
  · exact hloc
  · exact absurd hin (((coherent_viewOf _).unplaced b hnone).2.2 n)

/-- A block that has a row in the prefix is registered with the nodes of the row. -/
theorem locations_of_row {b : String} {row : BlockRow} (h : Follows log a r w)
    (hrow : (viewOf (log.take a)).rows b = some row) :
    ∃ nodes, w.locations b = some nodes ∧ nodes.toFinset = row.nodes := by
  have hcoh := coherent_viewOf (log.take a)
  rcases hold : (viewOf (log.take a)).locations b with _ | old
  · rw [(hcoh.unplaced b hold).2.1] at hrow
    cases hrow
  · obtain ⟨v, -, hrow'⟩ := hcoh.rows b old hold
    obtain rfl := Option.some.inj (hrow'.symm.trans hrow)
    rcases h.registry b with ⟨hloc, -⟩ | ⟨hnone, -⟩
    · exact ⟨old, hloc.trans hold, rfl⟩
    · rw [hold] at hnone
      cases hnone

/-- An entry that does nothing to the placements. -/
theorem apply_idle (h : Follows log a r w) (hlen : a + 1 ≤ log.length)
    (hnext : viewOf (log.take (a + 1)) = viewOf (log.take a)) :
    Follows log (a + 1) (max r (a + 1)) w := by
  have hsame : ∀ b, (viewOf (log.take (a + 1))).rows b = (viewOf (log.take a)).rows b :=
    fun b => by rw [hnext]
  refine ⟨le_max_right _ _, max_le h.le_length hlen, ?_, fun b => h.rows_next (hsame b), ?_, ?_,
    h.placed⟩
  · intro b
    rw [hnext]
    exact (h.registry b).imp_right fun ⟨hnone, row, hrow, hrest⟩ =>
      ⟨hnone, row, hrow.next (hsame b), hrest⟩
  · intro b n
    rw [hnext]
    exact h.inventory_ge b n
  · intro b n hb
    rw [hnext]
    exact (h.inventory_le b n hb).imp_right fun ⟨row, hrow, hn⟩ => ⟨row, hrow.next (hsame b), hn⟩

variable {b₀ : String} {v₀ : ℤ} {nodes₀ : List String}

/-- An entry that allocates a block. -/
theorem apply_allocate (h : Follows log a r w) (hlen : a + 1 ≤ log.length)
    (hnext : viewOf (log.take (a + 1)) = (viewOf (log.take a)).allocate b₀ v₀ nodes₀) :
    Follows log (a + 1) (max r (a + 1)) (w.allocate b₀ v₀ nodes₀) := by
  have hsame : ∀ b, b ≠ b₀ →
      (viewOf (log.take (a + 1))).rows b = (viewOf (log.take a)).rows b := by
    intro b hb
    rw [hnext, PlacementView.rows_allocate, if_neg hb]
  refine ⟨le_max_right _ _, max_le h.le_length hlen, ?_, ?_, ?_, ?_, ?_⟩
  · intro b
    rw [hnext, PlacementView.locations_allocate, PlacementView.locations_allocate,
      PlacementView.versions_allocate, PlacementView.versions_allocate]
    by_cases hb : b = b₀
    · exact Or.inl ⟨by rw [if_pos hb, if_pos hb], by rw [if_pos hb, if_pos hb]⟩
    · rw [if_neg hb, if_neg hb, if_neg hb, if_neg hb]
      exact (h.registry b).imp_right fun ⟨hnone, row, hrow, hrest⟩ =>
        ⟨hnone, row, hrow.next (hsame b hb), hrest⟩
  · intro b
    rw [PlacementView.rows_allocate]
    by_cases hb : b = b₀
    · refine ⟨a + 1, le_rfl, le_max_right _ _, ?_⟩
      rw [hnext, PlacementView.rows_allocate, if_pos hb, if_pos hb]
    · rw [if_neg hb]
      exact h.rows_next (hsame b hb)
  · intro b n
    rw [hnext, PlacementView.mem_inventory_allocate, PlacementView.mem_inventory_allocate]
    exact Or.imp_left (h.inventory_ge b n)
  · intro b n
    rw [hnext, PlacementView.mem_inventory_allocate, PlacementView.mem_inventory_allocate]
    rintro (hb | hb)
    · rcases h.inventory_le b n hb with hin | ⟨row, hrow, hn⟩
      · exact Or.inl (Or.inl hin)
      · rcases hrow.succ with hrow | hrow
        · exact Or.inl (Or.inl (mem_inventory_of_rows hrow hn))
        · exact Or.inr ⟨row, hrow, hn⟩
    · exact Or.inl (Or.inr hb)
  · intro b nodes n hb hn
    rw [PlacementView.locations_allocate] at hb
    rw [PlacementView.mem_inventory_allocate]
    split at hb
    · obtain rfl := Option.some.inj hb
      rename_i heq
      exact Or.inr ⟨heq, hn⟩
    · exact Or.inl (h.placed b nodes n hb hn)

/-- Nothing that the prefix lists after the placement is missing. -/
theorem inventory_ge_place {b n : String} (h : Follows log a r w)
    (hb : b ∈ ((viewOf (log.take a)).place b₀ v₀ nodes₀).inventory n) :
    b ∈ (w.place b₀ v₀ nodes₀).inventory n := by
  by_cases hbb : b = b₀
  · subst hbb
    by_cases hn : n ∈ nodes₀
    · exact PlacementView.Coherent.mem_inventory_place_of_mem (fun old hold => h.placed b old n hold) hn
    · -- a node that stays listed was listed by both, and neither has it among the old nodes
      rw [PlacementView.mem_inventory_place] at hb ⊢
      rcases hb with ⟨hin, hnot⟩ | ⟨-, hn', -⟩
      · refine Or.inl ⟨h.inventory_ge b n hin, fun ⟨heq, hold, hnn⟩ => hnot ⟨heq, ?_, hnn⟩⟩
        exact h.locations_of_listed hin ▸ hold
      · exact absurd hn' hn
  · rw [PlacementView.mem_inventory_place] at hb ⊢
    rcases hb with ⟨hin, -⟩ | ⟨heq, -⟩
    · exact Or.inl ⟨h.inventory_ge b n hin, fun hnot => hbb hnot.1⟩
    · exact absurd heq hbb

/-- Nothing is listed after the placement that no prefix explains. -/
theorem inventory_le_place {b n : String} (h : Follows log a r w)
    (hnext : viewOf (log.take (a + 1)) = (viewOf (log.take a)).place b₀ v₀ nodes₀)
    (hb : b ∈ (w.place b₀ v₀ nodes₀).inventory n) :
    b ∈ (viewOf (log.take (a + 1))).inventory n ∨
      ∃ row, RowWithin log (a + 1) (max r (a + 1)) b row ∧ n ∈ row.nodes := by
  by_cases hnew : b = b₀ ∧ n ∈ nodes₀
  · obtain ⟨rfl, hn⟩ := hnew
    rw [hnext]
    exact Or.inl (PlacementView.Coherent.mem_inventory_place_of_mem
      (fun old hold => (coherent_viewOf _).listed b old n hold) hn)
  · rw [PlacementView.mem_inventory_place] at hb
    rcases hb with ⟨hin, hnot⟩ | ⟨heq, hn, -⟩
    · rcases h.inventory_le b n hin with hin' | ⟨row, hrow, hnrow⟩
      · rw [hnext, PlacementView.mem_inventory_place]
        refine Or.inl (Or.inl ⟨hin', fun ⟨heq, hold, hnn⟩ => hnot ⟨heq, ?_, hnn⟩⟩)
        subst heq
        exact (h.locations_of_listed hin').symm ▸ hold
      · by_cases hbb : b = b₀
        · rcases hrow.succ with hrow | hrow
          · -- the prefix has the node in the row and so among the old nodes
            subst hbb
            obtain ⟨nodes, hloc, hnodes⟩ := h.locations_of_row hrow
            refine absurd ⟨rfl, ?_, fun hn => hnew ⟨rfl, hn⟩⟩ hnot
            rw [hloc]
            exact List.mem_toFinset.mp (hnodes ▸ hnrow)
          · exact Or.inr ⟨row, hrow, hnrow⟩
        · refine Or.inr ⟨row, hrow.next ?_, hnrow⟩
          rw [hnext, PlacementView.rows_place, if_neg hbb]
    · exact absurd ⟨heq, hn⟩ hnew

/-- An entry that places a block. -/
theorem apply_place (h : Follows log a r w) (hlen : a + 1 ≤ log.length)
    (hnext : viewOf (log.take (a + 1)) = (viewOf (log.take a)).place b₀ v₀ nodes₀) :
    Follows log (a + 1) (max r (a + 1)) (w.place b₀ v₀ nodes₀) := by
  have hsame : ∀ b, b ≠ b₀ →
      (viewOf (log.take (a + 1))).rows b = (viewOf (log.take a)).rows b := by
    intro b hb
    rw [hnext, PlacementView.rows_place, if_neg hb]
  refine ⟨le_max_right _ _, max_le h.le_length hlen, ?_, ?_,
    fun b n hb => h.inventory_ge_place (hnext ▸ hb), fun b n => h.inventory_le_place hnext, ?_⟩
  · intro b
    rw [hnext, PlacementView.locations_place, PlacementView.locations_place,
      PlacementView.versions_place, PlacementView.versions_place]
    by_cases hb : b = b₀
    · exact Or.inl ⟨by rw [if_pos hb, if_pos hb], by rw [if_pos hb, if_pos hb]⟩
    · rw [if_neg hb, if_neg hb, if_neg hb, if_neg hb]
      exact (h.registry b).imp_right fun ⟨hnone, row, hrow, hrest⟩ =>
        ⟨hnone, row, hrow.next (hsame b hb), hrest⟩
  · intro b
    rw [PlacementView.rows_place]
    by_cases hb : b = b₀
    · refine ⟨a + 1, le_rfl, le_max_right _ _, ?_⟩
      rw [hnext, PlacementView.rows_place, if_pos hb, if_pos hb]
    · rw [if_neg hb]
      exact h.rows_next (hsame b hb)
  · intro b nodes n hb hn
    rw [PlacementView.locations_place] at hb
    split at hb
    · rename_i heq
      obtain rfl := Option.some.inj hb
      subst heq
      exact PlacementView.Coherent.mem_inventory_place_of_mem (fun old hold => h.placed b old n hold) hn
    · rename_i hne
      rw [PlacementView.mem_inventory_place]
      exact Or.inl ⟨h.placed b nodes n hb hn, fun hnot => hne hnot.1⟩

/-- **The next entry of the log keeps a node following it.** -/
theorem apply {c : Command} (h : Follows log a r w) (hc : log[a]? = some c) :
    Follows log (a + 1) (max r (a + 1)) (w.apply c) := by
  have hnext := viewOf_take_succ hc
  have hlen : a + 1 ≤ log.length := (List.getElem?_eq_some_iff.mp hc).1
  rcases PlacementView.apply_cases c with hid | ⟨b₀, v₀, nodes₀, hone | hone⟩
  · rw [hid] at hnext ⊢
    exact h.apply_idle hlen hnext
  · rw [hone] at hnext ⊢
    exact h.apply_allocate hlen hnext
  · rw [hone] at hnext ⊢
    exact h.apply_place hlen hnext

end Follows

end NanoFabric.Metadata
