import NanoFabric.Found.Runs
import NanoFabric.Metadata.Connection
import NanoFabric.Metadata.Replay
import NanoFabric.Metadata.SnapshotRoundTrip

/-!
# Agreement of metadata nodes

Metadata nodes apply one committed log, take Raft snapshots and restart; the repair stack, the
reconciliation and the restores of each node write to its placements without the log.

* `Write` — the writers outside the log, by the calls they make on the placement objects.
* `Follows.write`, `Follows.restore` — a write of what is there, and a restart from a snapshot that
  has every inventory, keep a node following the log.
* `Shows.restore` — so does a restart keep a node showing its prefix, where the database holds
  nothing newer than the snapshot.
* `replicas_agree` — in runs with such writes and snapshots only, a node that applies its entries
  again returns to what it showed, and where the restarts find nothing newer either, any nodes that
  have applied the same entries show the same placements.
* `replicas_agree_counterexample` — one repair on one node.
-/

namespace NanoFabric.Metadata

open NanoFabric.Found
open NanoFabric.Node (Bindable)

/-! ## Restarts -/

variable {log : List Command} {a r : ℕ}

/-- What a restart reads from the rows of the database. -/
theorem Placement.locations_recover (p : Placement) (b : String) (nodes : List String) :
    (recover p.store).view.locations b = some nodes ↔
      ∃ row, p.view.rows b = some row ∧ row.nodes ≠ ∅ ∧ row.nodes.sort (· ≤ ·) = nodes :=
  MetadataStore.get?_loadRecoverySnapshot p.store b nodes

theorem Placement.versions_recover (p : Placement) (b : String) :
    (recover p.store).view.versions b = (p.view.rows b).map BlockRow.version :=
  Dict.get?_mapVals _ _ _

theorem Placement.mem_inventory_recover (p : Placement) (b n : String) :
    b ∈ (recover p.store).view.inventory n ↔ ∃ row, p.view.rows b = some row ∧ n ∈ row.nodes := by
  refine (NodeInventory.mem_getInventory_rebuildFromPlacements _ n b).trans ?_
  constructor
  · rintro ⟨nodes, hget, hn⟩
    obtain ⟨row, hrow, -, rfl⟩ := (p.locations_recover b nodes).mp hget
    exact ⟨row, hrow, (Finset.mem_sort _).mp hn⟩
  · rintro ⟨row, hrow, hn⟩
    exact ⟨row.nodes.sort (· ≤ ·), (p.locations_recover b _).mpr
      ⟨row, hrow, Finset.ne_empty_of_mem hn, rfl⟩, (Finset.mem_sort _).mpr hn⟩

/-- A restart from the database follows the log from its first entry. -/
theorem Follows.recover {p : Placement} (h : Follows log a r p.view) :
    Follows log 0 r (Placement.recover p.store).view := by
  have hwithin : ∀ b row, p.view.rows b = some row → RowWithin log 0 r b row := by
    intro b row hrow
    obtain ⟨j, -, hjr, hj⟩ := h.rows b
    exact ⟨j, Nat.zero_le j, hjr, hj ▸ hrow⟩
  refine ⟨Nat.zero_le r, h.le_length, ?_, ?_, ?_, ?_, ?_⟩
  · intro b
    rcases hrow : p.view.rows b with _ | row
    · refine Or.inl ⟨?_, ?_⟩
      · apply Option.eq_none_iff_forall_ne_some.mpr
        intro nodes hnodes
        obtain ⟨row, hrow', -⟩ := (p.locations_recover b nodes).mp hnodes
        rw [hrow] at hrow'
        cases hrow'
      · rw [p.versions_recover, hrow]
        rfl
    · refine Or.inr ⟨rfl, row, hwithin b row hrow, ?_, fun nodes hnodes => ?_⟩
      · rw [p.versions_recover, hrow]
        rfl
      · obtain ⟨row', hrow', -, rfl⟩ := (p.locations_recover b nodes).mp hnodes
        obtain rfl := Option.some.inj (hrow.symm.trans hrow')
        exact Finset.sort_toFinset _ _
  · intro b
    obtain ⟨j, -, hjr, hj⟩ := h.rows b
    exact ⟨j, Nat.zero_le j, hjr, hj⟩
  · intro b n hb
    exact absurd hb (Finset.notMem_empty b)
  · intro b n hb
    obtain ⟨row, hrow, hn⟩ := (p.mem_inventory_recover b n).mp hb
    exact Or.inr ⟨row, hwithin b row hrow, hn⟩
  · intro b nodes n hb hn
    obtain ⟨row, hrow, -, rfl⟩ := (p.locations_recover b nodes).mp hb
    exact (p.mem_inventory_recover b n).mpr ⟨row, hrow, (Finset.mem_sort _).mp hn⟩

/-- A Raft snapshot of the machine has all that its placements show: no version is 0, and every node
with an inventory is registered. -/
def RaftStateMachine.Complete (m : RaftStateMachine) : Prop :=
  (∀ b, m.placement.registry.getBlockVersion b ≠ some 0) ∧
    ∀ n, m.membership.nodes.get? n = none → m.placement.inventory.getInventory n = ∅

instance (m : RaftStateMachine) : Decidable m.Complete :=
  decidable_of_iff
    ((∀ kv ∈ m.placement.registry.versions.entries, kv.2 ≠ 0) ∧
      ∀ kv ∈ m.placement.inventory.inventory.entries,
        m.membership.nodes.get? kv.1 = none → kv.2 = ∅) <| by
    refine and_congr (Dict.forall_entries.trans ?_) (Dict.forall_entries.trans ?_)
    · refine forall_congr' fun b => ⟨fun h h0 => h 0 h0 rfl, fun h v hv h0 => h (h0 ▸ hv)⟩
    · refine forall_congr' fun n => ⟨fun h hn => ?_, fun h inv hinv hn => ?_⟩
      · unfold NodeInventory.getInventory
        rcases hinv : m.placement.inventory.inventory.get? n with _ | inv
        · rfl
        · exact h inv hinv hn
      · have hempty := h hn
        unfold NodeInventory.getInventory at hempty
        rwa [hinv] at hempty

/-- What a machine shows of placements after it is restored from a snapshot. -/
theorem RaftStateMachine.view_restoreSnapshot (s t : RaftStateMachine) :
    (t.restoreSnapshot s.buildSnapshot).placement.view =
      { locations := s.placement.view.locations
        versions := fun b => (s.placement.view.locations b).map fun _ =>
          ((s.placement.view.versions b).filter (· ≠ 0)).getD 1
        inventory := fun n => ((s.membership.nodes.get? n).map fun _ =>
          s.placement.view.inventory n).getD (t.placement.view.inventory n)
        rows := t.placement.view.rows } := by
  apply PlacementView.ext
  · rfl
  · funext b
    exact Dict.get?_mapVals _ _ _
  · funext n
    exact RaftStateMachine.getInventory_restoreSnapshot s t n
  · rfl

/-- A restart from the snapshot of a complete machine follows the log from the snapshot's entry. -/
theorem Follows.restore {k : ℕ} {s t : RaftStateMachine} {p : Placement}
    (hs : Follows log k r s.placement.view) (hcomplete : s.Complete)
    (hp : Follows log a r p.view) (hka : k ≤ a) (ht : t.placement = Placement.recover p.store) :
    Follows log k r (t.restoreSnapshot s.buildSnapshot).placement.view := by
  have hunregistered : ∀ b n, s.membership.nodes.get? n = none → b ∉ s.placement.view.inventory n :=
    fun b n hn hb => Finset.notMem_empty b ((hcomplete.2 n hn) ▸ hb)
  have hinv : ∀ b n, b ∈ (t.restoreSnapshot s.buildSnapshot).placement.view.inventory n ↔
      b ∈ s.placement.view.inventory n ∨ (s.membership.nodes.get? n = none ∧
        b ∈ (Placement.recover p.store).view.inventory n) := by
    intro b n
    rw [RaftStateMachine.view_restoreSnapshot, ht]
    rcases hn : s.membership.nodes.get? n with _ | record
    · simp [hn, hunregistered b n hn]
    · simp [hn]
  refine ⟨hs.le, hs.le_length, ?_, ?_, ?_, ?_, ?_⟩
  · intro b
    rw [RaftStateMachine.view_restoreSnapshot]
    have hne : s.placement.view.versions b ≠ some 0 := hcomplete.1 b
    -- The version of a placed block survives, since it is there and not 0.
    have hversion : ∀ v, s.placement.view.versions b = some v →
        ((s.placement.view.versions b).filter (· ≠ 0)).getD 1 = v := by
      intro v hv
      have hv0 : v ≠ 0 := fun h0 => hne (h0 ▸ hv)
      simp [hv, Option.filter, hv0]
    rcases hloc : s.placement.view.locations b with _ | nodes
    · have hnone : (viewOf (log.take k)).locations b = none := by
        rcases hs.registry b with ⟨hexact, -⟩ | ⟨hnone, -⟩
        · rw [← hexact, hloc]
        · exact hnone
      refine Or.inl ⟨hnone.symm, ?_⟩
      simp only [hloc, Option.map_none]
      exact ((coherent_viewOf _).unplaced b hnone).1.symm
    · rcases hs.registry b with ⟨hexact, hver⟩ | ⟨hnone, row, hrow, hver, hnodes⟩
      · refine Or.inl ⟨hloc ▸ hexact, ?_⟩
        obtain ⟨v, hv, -⟩ := (coherent_viewOf (log.take k)).rows b nodes (hexact ▸ hloc)
        simp only [hloc, Option.map_some, hversion v (hver.trans hv), hv]
      · refine Or.inr ⟨hnone, row, hrow, ?_, fun nodes' h' => hnodes nodes' (hloc.trans h')⟩
        simp only [hloc, Option.map_some, hversion row.version hver]
  · intro b
    rw [RaftStateMachine.view_restoreSnapshot, ht]
    obtain ⟨j, haj, hjr, hj⟩ := hp.rows b
    exact ⟨j, hka.trans haj, hjr, hj⟩
  · intro b n hb
    exact (hinv b n).mpr (Or.inl (hs.inventory_ge b n hb))
  · intro b n hb
    rcases (hinv b n).mp hb with hb | ⟨-, hb⟩
    · exact hs.inventory_le b n hb
    · obtain ⟨row, hrow, hn⟩ := (p.mem_inventory_recover b n).mp hb
      obtain ⟨j, haj, hjr, hj⟩ := hp.rows b
      exact Or.inr ⟨row, ⟨j, hka.trans haj, hjr, hj ▸ hrow⟩, hn⟩
  · intro b nodes n hb hn
    rw [RaftStateMachine.view_restoreSnapshot] at hb
    exact (hinv b n).mpr (Or.inl (hs.placed b nodes n hb hn))

/-! ## What readers see of a prefix -/

/-- What readers see of placements: all but the rows of the database. -/
def PlacementView.shown (w : PlacementView) : PlacementView := { w with rows := fun _ => none }

theorem PlacementView.shown_eq {w w' : PlacementView} : w.shown = w'.shown ↔
    w.locations = w'.locations ∧ w.versions = w'.versions ∧ w.inventory = w'.inventory := by
  rw [PlacementView.ext_iff]
  simp [PlacementView.shown]

/-- The rows do not matter to what a command does to the rest. -/
theorem PlacementView.shown_apply (w : PlacementView) (c : Command) :
    (w.apply c).shown = (w.shown.apply c).shown := by
  rcases PlacementView.apply_cases c with hid | ⟨b, v, nodes, halloc | hplace⟩
  · rw [hid, hid]
    rfl
  · rw [halloc, halloc]
    rfl
  · rw [hplace, hplace]
    rfl

/-- A node shows what the first `a` entries of the log leave. -/
def Shows (log : List Command) (a : ℕ) (w : PlacementView) : Prop :=
  w.shown = (viewOf (log.take a)).shown

theorem Shows.append {w : PlacementView} (h : Shows log a w) (ha : a ≤ log.length) (c : Command) :
    Shows (log ++ [c]) a w := by
  unfold Shows
  rw [List.take_append_of_le_length ha]
  exact h

theorem Shows.apply {w : PlacementView} {c : Command} (h : Shows log a w) (hc : log[a]? = some c) :
    Shows log (a + 1) (w.apply c) := by
  unfold Shows
  rw [viewOf_take_succ hc, PlacementView.shown_apply, h, ← PlacementView.shown_apply]

/-- The database of a node holds no placement that the start of its replay does not show: no block
where there is no snapshot, and only rows on nodes of the snapshot where there is one. -/
def NothingNewer (store : MetadataStore) : Option (ℕ × Snapshot) → Prop
  | none => ∀ b, store.blocks.get? b = none
  | some (_, data) => ∀ b row, store.blocks.get? b = some row →
      ∀ n ∈ row.nodes, (data.nodes.get? n).isSome

instance (store : MetadataStore) (snapshot : Option (ℕ × Snapshot)) :
    Decidable (NothingNewer store snapshot) :=
  match snapshot with
  | none => decidable_of_iff (∀ kv ∈ store.blocks.entries, False)
      (Dict.forall_entries.trans (forall_congr' fun _ => Option.eq_none_iff_forall_ne_some.symm))
  | some (_, data) => decidable_of_iff
      (∀ kv ∈ store.blocks.entries, ∀ n ∈ kv.2.nodes, (data.nodes.get? n).isSome) Dict.forall_entries

/-- A restart from an empty database shows the empty log. -/
theorem Shows.recover {p : Placement} (h : NothingNewer p.store none) :
    Shows log 0 (Placement.recover p.store).view := by
  have hrows : ∀ b, p.view.rows b = none := h
  refine PlacementView.shown_eq.mpr ⟨?_, ?_, ?_⟩
  · funext b
    apply Option.eq_none_iff_forall_ne_some.mpr
    intro nodes hnodes
    obtain ⟨row, hrow, -⟩ := (p.locations_recover b nodes).mp hnodes
    rw [hrows b] at hrow
    cases hrow
  · funext b
    rw [p.versions_recover, hrows b]
    rfl
  · funext n
    apply Finset.eq_empty_of_forall_notMem
    intro b hb
    obtain ⟨row, hrow, -⟩ := (p.mem_inventory_recover b n).mp hb
    rw [hrows b] at hrow
    cases hrow

/-- A restart from the snapshot of a complete machine shows the snapshot's entries, if the database
holds nothing newer. -/
theorem Shows.restore {k : ℕ} {s t : RaftStateMachine} {p : Placement}
    (hs : Shows log k s.placement.view) (hcomplete : s.Complete)
    (hp : NothingNewer p.store (some (k, s.buildSnapshot)))
    (ht : t.placement = Placement.recover p.store) :
    Shows log k (t.restoreSnapshot s.buildSnapshot).placement.view := by
  obtain ⟨hlocations, hversions, hinventory⟩ := PlacementView.shown_eq.mp hs
  rw [RaftStateMachine.view_restoreSnapshot]
  refine PlacementView.shown_eq.mpr ⟨hlocations, ?_, ?_⟩
  · funext b
    have hcoherent := coherent_viewOf (log.take k)
    simp only [hlocations, hversions]
    rcases hloc : (viewOf (log.take k)).locations b with _ | nodes
    · exact (hcoherent.unplaced b hloc).1.symm
    · obtain ⟨v, hv, -⟩ := hcoherent.rows b nodes hloc
      have hv0 : v ≠ 0 := fun h0 => hcomplete.1 b ((congrFun hversions b).trans (h0 ▸ hv))
      simp [hv, Option.filter, hv0]
  · funext n
    rw [← congrFun hinventory n]
    rcases hn : s.membership.nodes.get? n with _ | record
    · have hempty : s.placement.view.inventory n = ∅ := hcomplete.2 n hn
      rw [hempty]
      apply Finset.eq_empty_of_forall_notMem
      intro b hb
      simp only [hn, Option.map_none, Option.getD_none, ht] at hb
      obtain ⟨row, hrow, hmem⟩ := (p.mem_inventory_recover b n).mp hb
      have hsome : (s.membership.nodes.get? n).isSome = true := hp b row hrow n hmem
      rw [hn] at hsome
      cases hsome
    · simp only [hn, Option.map_some, Option.getD_some]

/-! ## Writers outside the log -/

/-- A write to the placements of one node that no log entry makes: the calls of the repair stack, of
the reconciliation and of the restores. -/
inductive Write
  | updateBlockPlacement (blockId : String) (nodes : List String) (version : ℤ)
  | replaceReplica (blockId oldNode newNode : String) (version : ℤ)
  | removeExtraReplica (blockId extraNode : String) (version : ℤ)
  | rebuildNodeInventory (nodeId : String) (blockIds : List String)
  | restorePlacement (blockId : String) (version : ℤ) (nodes : List String)
deriving DecidableEq, Repr

namespace Placement

/-- The placements that a write leaves; one that raises changes nothing. -/
def write (p : Placement) : Write → Placement
  | .updateBlockPlacement b nodes v => ((p.updateBlockPlacement b nodes v).toOption).getD p
  | .replaceReplica b old new v => ((p.replaceReplica b old new v).toOption).getD p
  | .removeExtraReplica b extra v => ((p.removeExtraReplica b extra v).toOption).getD p
  | .rebuildNodeInventory n bs => p.rebuildNodeInventory n bs
  | .restorePlacement b v nodes => ((p.restorePlacement b v nodes).toOption).getD p

/-- The nodes and the version that a write gives a placed block. -/
def target (p : Placement) : Write → Option (String × List String × ℤ)
  | .updateBlockPlacement b nodes v => (p.registry.getBlockLocations b).map fun _ => (b, nodes, v)
  | .replaceReplica b old new v => (p.registry.getBlockLocations b).map fun locations =>
      (b, replaced locations old new, v)
  | .removeExtraReplica b extra v =>
      ((p.registry.getBlockLocations b).filter (extra ∈ ·)).map fun locations =>
        (b, locations.filter (· ≠ extra), v)
  | .rebuildNodeInventory _ _ => none
  | .restorePlacement b v nodes => some (b, nodes, v)

/-- A write asks for what is there: the nodes and the version that the block has, where the store
takes them at all, or the inventory that the node has. -/
def Idle (p : Placement) (wr : Write) : Prop :=
  (∀ b nodes v, p.target wr = some (b, nodes, v) → Fits v nodes →
    p.registry.getBlockLocations b = some nodes ∧ p.registry.getBlockVersion b = some v) ∧
  ∀ n bs, wr = .rebuildNodeInventory n bs → bs.toFinset = p.inventory.getInventory n

instance (p : Placement) (wr : Write) : Decidable (p.Idle wr) := by
  have htarget : Decidable (∀ b nodes v, p.target wr = some (b, nodes, v) → Fits v nodes →
      p.registry.getBlockLocations b = some nodes ∧ p.registry.getBlockVersion b = some v) :=
    decidable_of_iff (∀ bnv ∈ p.target wr, Fits bnv.2.2 bnv.2.1 →
      p.registry.getBlockLocations bnv.1 = some bnv.2.1 ∧
        p.registry.getBlockVersion bnv.1 = some bnv.2.2)
      ⟨fun h b nodes v hbnv => h (b, nodes, v) hbnv, fun h bnv hbnv => h _ _ _ hbnv⟩
  have hrebuild : Decidable (∀ n bs, wr = .rebuildNodeInventory n bs →
      bs.toFinset = p.inventory.getInventory n) :=
    match wr with
    | .rebuildNodeInventory n bs => decidable_of_iff (bs.toFinset = p.inventory.getInventory n)
        ⟨fun h n' bs' heq => by cases heq; exact h, fun h => h n bs rfl⟩
    | .updateBlockPlacement _ _ _ => isTrue fun _ _ h => by cases h
    | .replaceReplica _ _ _ _ => isTrue fun _ _ h => by cases h
    | .removeExtraReplica _ _ _ => isTrue fun _ _ h => by cases h
    | .restorePlacement _ _ _ => isTrue fun _ _ h => by cases h
  exact inferInstanceAs (Decidable (_ ∧ _))

/-- The view with another row. -/
def setRow (w : PlacementView) (b : String) (row : BlockRow) : PlacementView :=
  { w with rows := Function.update w.rows b (some row) }

theorem rows_setRow (w : PlacementView) (b b' : String) (row : BlockRow) :
    (setRow w b row).rows b' = if b' = b then some row else w.rows b' :=
  Function.update_apply _ _ _ _

variable {p p' : Placement} {b : String} {v : ℤ} {nodes : List String}

/-- Placing a block where it is touches its row alone. -/
theorem view_update_of_registered (h : p.update b v nodes = .ok p')
    (hloc : p.registry.getBlockLocations b = some nodes)
    (hver : p.registry.getBlockVersion b = some v) :
    p'.view = setRow p.view b ⟨v, nodes.toFinset⟩ := by
  rw [view_update h]
  apply PlacementView.ext
  · exact Function.update_eq_self_iff.mpr hloc.symm
  · exact Function.update_eq_self_iff.mpr hver.symm
  · funext n
    have hold : (p.view.locations b).getD [] = nodes := congrArg (fun o => o.getD []) hloc
    ext b'
    rw [PlacementView.mem_inventory_place, hold]
    unfold setRow
    tauto
  · rfl

/-- An update of a block to what it has leaves the placements or touches the block's row. -/
theorem view_updateBlockPlacement_of_idle
    (h : (p.registry.getBlockLocations b).isSome → Fits v nodes →
      p.registry.getBlockLocations b = some nodes ∧ p.registry.getBlockVersion b = some v) :
    ((p.updateBlockPlacement b nodes v).toOption.getD p).view = p.view ∨
      (p.registry.getBlockLocations b = some nodes ∧ p.registry.getBlockVersion b = some v ∧
        ((p.updateBlockPlacement b nodes v).toOption.getD p).view =
          setRow p.view b ⟨v, nodes.toFinset⟩) := by
  unfold updateBlockPlacement
  split
  · rename_i hexists
    rcases hup : p.update b v nodes with e | p'
    · exact Or.inl rfl
    · have hfits : Fits v nodes := by
        by_contra hnot
        obtain ⟨e, he⟩ := update_of_not_fits (p := p) (b := b) hnot
        rw [he] at hup
        cases hup
      obtain ⟨hloc, hver⟩ := h hexists hfits
      exact Or.inr ⟨hloc, hver, view_update_of_registered hup hloc hver⟩
  · exact Or.inl rfl

/-- A restored placement that the block has touches the block's row alone. -/
theorem view_restorePlacement_of_idle
    (h : Fits v nodes → p.registry.getBlockLocations b = some nodes ∧
      p.registry.getBlockVersion b = some v) :
    ((p.restorePlacement b v nodes).toOption.getD p).view = p.view ∨
      (p.registry.getBlockLocations b = some nodes ∧ p.registry.getBlockVersion b = some v ∧
        ((p.restorePlacement b v nodes).toOption.getD p).view =
          setRow p.view b ⟨v, nodes.toFinset⟩) := by
  unfold restorePlacement
  by_cases hfits : Fits v nodes
  · obtain ⟨hloc, hver⟩ := h hfits
    refine Or.inr ⟨hloc, hver, ?_⟩
    rw [MetadataStore.savePlacement_of_fits hfits.1 hfits.2]
    apply PlacementView.ext
    · funext b'
      refine (PlacementRegistry.getBlockLocations_registerBlock _ _ _ _ _).trans ?_
      split
      · rename_i hb
        exact hb ▸ hloc.symm
      · rfl
    · funext b'
      refine (PlacementRegistry.getBlockVersion_registerBlock _ _ _ _ _).trans ?_
      split
      · rename_i hb
        exact hb ▸ hver.symm
      · rfl
    · rfl
    · funext b'
      unfold setRow
      exact Dict.get?_set.trans (Function.update_apply _ _ _ _).symm
  · obtain ⟨e, he⟩ := MetadataStore.savePlacement_of_not_fits (s := p.store) (b := b) hfits
    rw [he]
    exact Or.inl rfl

/-- A write of what is there leaves the placements or touches the row of a block alone. -/
theorem view_write_of_idle {wr : Write} (h : p.Idle wr) : (p.write wr).view = p.view ∨
    ∃ b nodes v, p.registry.getBlockLocations b = some nodes ∧
      p.registry.getBlockVersion b = some v ∧
      (p.write wr).view = setRow p.view b ⟨v, nodes.toFinset⟩ := by
  obtain ⟨htarget, hrebuild⟩ := h
  cases wr with
  | updateBlockPlacement b nodes v =>
      refine (view_updateBlockPlacement_of_idle fun hsome hfits => ?_).imp_right fun h =>
        ⟨b, nodes, v, h⟩
      obtain ⟨locations, hloc⟩ := Option.isSome_iff_exists.mp hsome
      exact htarget b nodes v (congrArg (Option.map fun _ => (b, nodes, v)) hloc) hfits
  | replaceReplica b old new v =>
      have hwrite : p.write (.replaceReplica b old new v) =
          (p.replaceReplica b old new v).toOption.getD p := rfl
      rw [hwrite]
      rcases Option.eq_none_or_eq_some (p.registry.getBlockLocations b) with hloc | ⟨locations, hloc⟩
      · rw [replaceReplica_of_none hloc]
        exact Or.inl rfl
      · rw [replaceReplica_of_some hloc]
        refine (view_updateBlockPlacement_of_idle fun _ hfits => ?_).imp_right fun h =>
          ⟨b, replaced locations old new, v, h⟩
        exact htarget b _ v (congrArg (Option.map fun locations => (b, replaced locations old new, v))
          hloc) hfits
  | removeExtraReplica b extra v =>
      have hwrite : p.write (.removeExtraReplica b extra v) =
          (p.removeExtraReplica b extra v).toOption.getD p := rfl
      rw [hwrite]
      rcases Option.eq_none_or_eq_some (p.registry.getBlockLocations b) with hloc | ⟨locations, hloc⟩
      · rw [removeExtraReplica_of_none hloc]
        exact Or.inl rfl
      · by_cases hmem : extra ∈ locations
        · rw [removeExtraReplica_of_mem hloc hmem]
          refine (view_updateBlockPlacement_of_idle fun _ hfits => ?_).imp_right fun h =>
            ⟨b, locations.filter (· ≠ extra), v, h⟩
          exact htarget b _ v (by simp [target, hloc, Option.filter, hmem]) hfits
        · rw [removeExtraReplica_of_notMem hloc hmem]
          exact Or.inl rfl
  | rebuildNodeInventory n bs =>
      left
      apply PlacementView.ext
      · rfl
      · rfl
      · funext n'
        refine (NodeInventory.getInventory_registerInventory _ _ _ _).trans ?_
        split
        · rename_i hn
          rw [hrebuild n bs rfl, hn]
          rfl
        · rfl
      · rfl
  | restorePlacement b v nodes =>
      exact (view_restorePlacement_of_idle (htarget b nodes v rfl)).imp_right fun h =>
        ⟨b, nodes, v, h⟩

end Placement

/-- A node may write the row of a block as it shows the block. -/
theorem Follows.setRow {w : PlacementView} (h : Follows log a r w) {b : String} {nodes : List String}
    {v : ℤ} (hloc : w.locations b = some nodes) (hver : w.versions b = some v) :
    Follows log a r (Placement.setRow w b ⟨v, nodes.toFinset⟩) := by
  refine ⟨h.le, h.le_length, h.registry, ?_, h.inventory_ge, h.inventory_le, h.placed⟩
  intro b'
  rw [Placement.rows_setRow]
  by_cases hb : b' = b
  · subst hb
    rw [if_pos rfl]
    rcases h.registry b' with ⟨hexact, hver'⟩ | ⟨-, row, ⟨j, haj, hjr, hj⟩, hver', hnodes⟩
    · obtain ⟨v', hv', hrow⟩ := (coherent_viewOf (log.take a)).rows b' nodes (hexact ▸ hloc)
      obtain rfl := Option.some.inj (hver.symm.trans (hver'.trans hv'))
      exact ⟨a, le_rfl, h.le, hrow.symm⟩
    · refine ⟨j, haj, hjr, ?_⟩
      rw [hj]
      obtain rfl := Option.some.inj (hver.symm.trans hver')
      rw [hnodes nodes hloc]
  · rw [if_neg hb]
    exact h.rows b'

/-- A write of what is there keeps a node following the log. -/
theorem Follows.write {p : Placement} (h : Follows log a r p.view) {wr : Write} (hidle : p.Idle wr) :
    Follows log a r (p.write wr).view := by
  rcases Placement.view_write_of_idle hidle with heq | ⟨b, nodes, v, hloc, hver, heq⟩
  · exact heq ▸ h
  · exact heq ▸ h.setRow hloc hver

/-- A node may write the row of a block without showing it. -/
theorem Shows.write {p : Placement} (h : Shows log a p.view) {wr : Write} (hidle : p.Idle wr) :
    Shows log a (p.write wr).view := by
  rcases Placement.view_write_of_idle hidle with heq | ⟨b, nodes, v, -, -, heq⟩
  · exact heq ▸ h
  · exact heq ▸ h

namespace ConnectedMachine

/-- The node after a write outside the log: one that calls `save_placement` inside a transaction
raises and rolls it back. -/
def write (x : ConnectedMachine) (wr : Write) : ConnectedMachine :=
  let written := { x.machine with placement := x.machine.placement.write wr }
  if (x.machine.placement.target wr).isSome then
    ⟨if x.inTransaction then x.machine else written, false⟩
  else ⟨written, x.inTransaction⟩

/-- A write raises inside a transaction, or it asks for what is there. -/
def Idle (x : ConnectedMachine) (wr : Write) : Prop :=
  (x.inTransaction = true ∧ (x.machine.placement.target wr).isSome) ∨ x.machine.placement.Idle wr

instance (x : ConnectedMachine) (wr : Write) : Decidable (x.Idle wr) :=
  inferInstanceAs (Decidable (_ ∨ _))

/-- An idle write changes nothing, or it is a write to the placements of what is there. -/
theorem placement_write {x : ConnectedMachine} {wr : Write} (h : x.Idle wr) :
    (x.write wr).machine.placement = x.machine.placement ∨
      (x.machine.placement.Idle wr ∧
        (x.write wr).machine.placement = x.machine.placement.write wr) := by
  unfold write
  rcases h with ⟨hopen, htarget⟩ | hidle
  · left
    simp only [hopen, htarget, if_true]
  · by_cases htarget : (x.machine.placement.target wr).isSome = true
    · by_cases hopen : x.inTransaction = true
      · left
        simp only [hopen, htarget, if_true]
      · right
        simp only [hopen, htarget, if_true]
        exact ⟨hidle, rfl⟩
    · right
      simp only [htarget]
      exact ⟨hidle, rfl⟩

end ConnectedMachine

/-! ## Runs of the metadata nodes -/

/-- A metadata node. -/
structure Replica extends ConnectedMachine where
  /-- The last entry applied since the last restart. -/
  applied : ℕ
  /-- The last entry ever applied. -/
  reached : ℕ
  /-- The Raft snapshot of the node, with the last entry that it includes. -/
  snapshot : Option (ℕ × Snapshot)

/-- The committed log and the nodes. -/
structure Replicas (ν : Type) where
  log : List Command
  nodes : ν → Replica

/-- A step. -/
inductive ReplicaEvent (ν : Type)
  /-- An entry commits. -/
  | commit (c : Command)
  /-- A node applies its next entry. -/
  | apply (n : ν) (r : Readings)
  /-- A node writes to its placements without the log. -/
  | write (n : ν) (wr : Write)
  /-- The failure detector and the repair stack of a node change its membership and its jobs. -/
  | elsewhere (n : ν) (failureTimeoutMs now : ℤ) (jobs : RepairJobStore)
  /-- A node takes a Raft snapshot. -/
  | snapshot (n : ν)
  /-- A node restarts from its databases. -/
  | restart (n : ν)

namespace Replicas

variable {ν : Type} [DecidableEq ν]

/-- Nodes with empty databases and an empty log. -/
def init : Replicas ν := ⟨[], fun _ => ⟨.empty, 0, 0, none⟩⟩

/-- The state with another node. -/
def setNode (s : Replicas ν) (n : ν) (x : Replica) : Replicas ν :=
  { s with nodes := Function.update s.nodes n x }

theorem nodes_setNode (s : Replicas ν) (n m : ν) (x : Replica) :
    (s.setNode n x).nodes m = if m = n then x else s.nodes m :=
  Function.update_apply _ _ _ _

/-- The machine that a restart builds from the databases, before Raft starts.
Source: `metadata/app.py`, `lifespan`. -/
def booted (m : RaftStateMachine) : RaftStateMachine :=
  { RaftStateMachine.empty with
    placement := Placement.recover m.placement.store
    repairStore := m.repairStore }

/-- A node after a restart, with a new connection.
Source: `metadata/raft/node.py`, `start`; `metadata/raft/snapshot.py`, `restore`. -/
def restarted (x : Replica) : Replica :=
  match x.snapshot with
  | none => { x with machine := booted x.machine, inTransaction := false, applied := 0 }
  | some (k, data) =>
      { x with
        machine := (booted x.machine).restoreSnapshot data
        inTransaction := false
        applied := k }

/-- One step. -/
def step (s : Replicas ν) : ReplicaEvent ν → Option (Replicas ν)
  | .commit c => some { s with log := s.log ++ [c] }
  | .apply n r =>
      (s.log[(s.nodes n).applied]?).map fun c =>
        s.setNode n { s.nodes n with
          toConnectedMachine := (s.nodes n).toConnectedMachine.apply r c
          applied := (s.nodes n).applied + 1
          reached := max (s.nodes n).reached ((s.nodes n).applied + 1) }
  | .write n wr =>
      some <| s.setNode n { s.nodes n with
        toConnectedMachine := (s.nodes n).toConnectedMachine.write wr }
  | .elsewhere n failureTimeoutMs now jobs =>
      some <| s.setNode n { s.nodes n with
        machine := { (s.nodes n).machine with
          membership := (s.nodes n).machine.membership.checkFailures failureTimeoutMs now
          repairStore := some jobs } }
  | .snapshot n =>
      if (s.nodes n).applied = 0 then none
      else some <| s.setNode n { s.nodes n with
        snapshot := some ((s.nodes n).applied, (s.nodes n).machine.buildSnapshot) }
  | .restart n => some <| s.setNode n (restarted (s.nodes n))

/-- A write outside the log asks for what is there, a snapshot is of a complete machine, and a node
that places a block for the log has no transaction open. -/
def Faithful (s : Replicas ν) : ReplicaEvent ν → Prop
  | .apply n _ => ∀ c ∈ s.log[(s.nodes n).applied]?, (s.nodes n).inTransaction = true → ¬ c.Places
  | .write n wr => (s.nodes n).toConnectedMachine.Idle wr
  | .snapshot n => (s.nodes n).machine.Complete
  | _ => True

instance (s : Replicas ν) (ev : ReplicaEvent ν) : Decidable (Faithful s ev) := by
  cases ev <;> unfold Faithful <;> infer_instance

/-- Moreover, a node restarts with nothing newer in its database than the start of its replay. -/
def Settled (s : Replicas ν) : ReplicaEvent ν → Prop
  | .restart n => NothingNewer (s.nodes n).machine.placement.store (s.nodes n).snapshot
  | ev => Faithful s ev

instance (s : Replicas ν) (ev : ReplicaEvent ν) : Decidable (Settled s ev) := by
  cases ev <;> unfold Settled <;> infer_instance

/-- A node has applied again all that it had applied before it restarted. -/
def CaughtUp (x : Replica) : Prop := x.applied = x.reached

/-- Two machines show the same placements, versions and inventories. -/
def SamePlacements (m m' : RaftStateMachine) : Prop :=
  m.placement.registry.getBlockLocations = m'.placement.registry.getBlockLocations ∧
    m.placement.registry.getBlockVersion = m'.placement.registry.getBlockVersion ∧
    m.placement.inventory.getInventory = m'.placement.inventory.getInventory

theorem samePlacements_iff {m m' : RaftStateMachine} : SamePlacements m m' ↔
    m.placement.view.shown = m'.placement.view.shown := by
  rw [PlacementView.shown_eq]
  exact Iff.rfl

/-! ### Nodes that follow the log -/

/-- Every node follows the log, and so does the machine of its snapshot. -/
structure Invariant (s : Replicas ν) : Prop where
  follows : ∀ n, Follows s.log (s.nodes n).applied (s.nodes n).reached
    (s.nodes n).machine.placement.view
  snapshot : ∀ n k data, (s.nodes n).snapshot = some (k, data) → k ≤ (s.nodes n).applied ∧
    ∃ m : RaftStateMachine, data = m.buildSnapshot ∧ m.Complete ∧
      Follows s.log k (s.nodes n).reached m.placement.view

omit [DecidableEq ν] in
theorem invariant_init : Invariant (init : Replicas ν) where
  follows _ := Follows.of_eq (Nat.zero_le _) rfl
  snapshot _ _ _ h := by cases h

variable {s s' : Replicas ν}

/-- One node changes. -/
theorem Invariant.setNode {n : ν} {x : Replica} (h : Invariant s)
    (hfollows : Follows s.log x.applied x.reached x.machine.placement.view)
    (hsnapshot : ∀ k data, x.snapshot = some (k, data) → k ≤ x.applied ∧
      ∃ m : RaftStateMachine, data = m.buildSnapshot ∧ m.Complete ∧
        Follows s.log k x.reached m.placement.view) : Invariant (s.setNode n x) where
  follows m := by
    rw [nodes_setNode]
    split
    · exact hfollows
    · exact h.follows m
  snapshot m := by
    rw [nodes_setNode]
    split
    · exact hsnapshot
    · exact h.snapshot m

theorem snapshot_restarted (x : Replica) : (restarted x).snapshot = x.snapshot := by
  unfold restarted
  split <;> rfl

theorem reached_restarted (x : Replica) : (restarted x).reached = x.reached := by
  unfold restarted
  split <;> rfl

theorem applied_restarted (x : Replica) : (restarted x).applied = (x.snapshot.map Prod.fst).getD 0 := by
  unfold restarted
  split
  · rename_i hnone
    rw [hnone]
    rfl
  · rename_i k data hsome
    rw [hsome]
    rfl

theorem Invariant.restart {n : ν} (h : Invariant s) :
    Invariant (s.setNode n (restarted (s.nodes n))) := by
  apply h.setNode
  · unfold restarted
    split
    · exact (h.follows n).recover
    · rename_i k data hsnap
      obtain ⟨hk, m, rfl, hcomplete, hm⟩ := h.snapshot n k data hsnap
      exact hm.restore hcomplete (h.follows n) hk rfl
  · intro k data hdata
    rw [snapshot_restarted] at hdata
    rw [applied_restarted, reached_restarted, hdata]
    exact ⟨le_rfl, (h.snapshot n k data hdata).2⟩

theorem Invariant.step {ev : ReplicaEvent ν} (h : Invariant s) (hC : Faithful s ev)
    (hstep : step s ev = some s') : Invariant s' := by
  cases ev with
  | commit c =>
      obtain rfl := Option.some.inj hstep
      refine ⟨fun n => (h.follows n).append c, fun n k data hdata => ?_⟩
      obtain ⟨hk, m, hm, hcomplete, hfollows⟩ := h.snapshot n k data hdata
      exact ⟨hk, m, hm, hcomplete, hfollows.append c⟩
  | apply n r =>
      obtain ⟨c, hc, rfl⟩ := Option.map_eq_some_iff.mp hstep
      have hnext := (h.follows n).apply hc
      apply h.setNode
      · simp only [ConnectedMachine.view_apply (hC c hc)]
        exact hnext
      · intro k data hdata
        obtain ⟨hk, m, hm, hcomplete, hfollows⟩ := h.snapshot n k data hdata
        exact ⟨hk.trans (Nat.le_succ _), m, hm, hcomplete,
          hfollows.mono (le_max_left _ _) hnext.le_length⟩
  | write n wr =>
      obtain rfl := Option.some.inj hstep
      refine h.setNode ?_ (h.snapshot n)
      rcases ConnectedMachine.placement_write hC with heq | ⟨hidle, heq⟩
      · simp only [heq]
        exact h.follows n
      · simp only [heq]
        exact (h.follows n).write hidle
  | elsewhere n timeout now jobs =>
      obtain rfl := Option.some.inj hstep
      exact h.setNode (h.follows n) (h.snapshot n)
  | snapshot n =>
      simp only [Replicas.step, Option.ite_none_left_eq_some, Option.some.injEq] at hstep
      obtain ⟨-, rfl⟩ := hstep
      apply h.setNode
      · exact h.follows n
      · intro k data hdata
        obtain ⟨rfl, rfl⟩ := Prod.mk.inj (Option.some.inj hdata)
        exact ⟨le_rfl, _, rfl, hC, h.follows n⟩
  | restart n =>
      obtain rfl := Option.some.inj hstep
      exact h.restart

omit [DecidableEq ν] in
/-- A node that has caught up shows the view of its prefix of the log. -/
theorem Invariant.view_of_caughtUp {n : ν} (h : Invariant s) (hn : CaughtUp (s.nodes n)) :
    (s.nodes n).machine.placement.view = viewOf (s.log.take (s.nodes n).applied) := by
  have hfollows := h.follows n
  rw [← hn] at hfollows
  exact hfollows.exact

/-! ### Nodes that show their prefix -/

/-- Every node shows the entries it has applied, and so does the machine of its snapshot. -/
structure Exact (s : Replicas ν) : Prop where
  le : ∀ n, (s.nodes n).applied ≤ s.log.length
  shows : ∀ n, Shows s.log (s.nodes n).applied (s.nodes n).machine.placement.view
  snapshot : ∀ n k data, (s.nodes n).snapshot = some (k, data) → k ≤ s.log.length ∧
    ∃ m : RaftStateMachine, data = m.buildSnapshot ∧ m.Complete ∧ Shows s.log k m.placement.view

omit [DecidableEq ν] in
theorem exact_init : Exact (init : Replicas ν) where
  le _ := le_rfl
  shows _ := rfl
  snapshot _ _ _ h := by cases h

/-- One node changes. -/
theorem Exact.setNode {n : ν} {x : Replica} (h : Exact s) (hle : x.applied ≤ s.log.length)
    (hshows : Shows s.log x.applied x.machine.placement.view)
    (hsnapshot : ∀ k data, x.snapshot = some (k, data) → k ≤ s.log.length ∧
      ∃ m : RaftStateMachine, data = m.buildSnapshot ∧ m.Complete ∧
        Shows s.log k m.placement.view) : Exact (s.setNode n x) where
  le m := by
    rw [nodes_setNode]
    split
    · exact hle
    · exact h.le m
  shows m := by
    rw [nodes_setNode]
    split
    · exact hshows
    · exact h.shows m
  snapshot m := by
    rw [nodes_setNode]
    split
    · exact hsnapshot
    · exact h.snapshot m

theorem Exact.restart {n : ν} (h : Exact s)
    (hn : NothingNewer (s.nodes n).machine.placement.store (s.nodes n).snapshot) :
    Exact (s.setNode n (restarted (s.nodes n))) := by
  have hsnapshot := h.snapshot n
  refine h.setNode ?_ ?_ (snapshot_restarted (s.nodes n) ▸ hsnapshot)
  · rw [applied_restarted]
    rcases hsnap : (s.nodes n).snapshot with _ | ⟨k, data⟩
    · exact Nat.zero_le _
    · exact (hsnapshot k data hsnap).1
  · unfold restarted
    split
    · rename_i hsnap
      exact Shows.recover (hsnap ▸ hn)
    · rename_i k data hsnap
      obtain ⟨-, m, rfl, hcomplete, hm⟩ := hsnapshot k data hsnap
      exact hm.restore hcomplete (hsnap ▸ hn) rfl

theorem Exact.step {ev : ReplicaEvent ν} (h : Exact s) (hC : Settled s ev)
    (hstep : step s ev = some s') : Exact s' := by
  cases ev with
  | commit c =>
      obtain rfl := Option.some.inj hstep
      have hlen : ∀ k, k ≤ s.log.length → k ≤ (s.log ++ [c]).length := fun k hk =>
        hk.trans (by simp)
      refine ⟨fun n => hlen _ (h.le n), fun n => (h.shows n).append (h.le n) c,
        fun n k data hdata => ?_⟩
      obtain ⟨hk, m, hm, hcomplete, hshows⟩ := h.snapshot n k data hdata
      exact ⟨hlen k hk, m, hm, hcomplete, hshows.append hk c⟩
  | apply n r =>
      obtain ⟨c, hc, rfl⟩ := Option.map_eq_some_iff.mp hstep
      refine h.setNode (List.getElem?_eq_some_iff.mp hc).1 ?_ (h.snapshot n)
      simp only [ConnectedMachine.view_apply (hC c hc)]
      exact (h.shows n).apply hc
  | write n wr =>
      obtain rfl := Option.some.inj hstep
      refine h.setNode (h.le n) ?_ (h.snapshot n)
      rcases ConnectedMachine.placement_write hC with heq | ⟨hidle, heq⟩
      · simp only [heq]
        exact h.shows n
      · simp only [heq]
        exact (h.shows n).write hidle
  | elsewhere n timeout now jobs =>
      obtain rfl := Option.some.inj hstep
      exact h.setNode (h.le n) (h.shows n) (h.snapshot n)
  | snapshot n =>
      simp only [Replicas.step, Option.ite_none_left_eq_some, Option.some.injEq] at hstep
      obtain ⟨-, rfl⟩ := hstep
      refine h.setNode (h.le n) (h.shows n) ?_
      intro k data hdata
      obtain ⟨rfl, rfl⟩ := Prod.mk.inj (Option.some.inj hdata)
      exact ⟨h.le n, _, rfl, hC, h.shows n⟩
  | restart n =>
      obtain rfl := Option.some.inj hstep
      exact h.restart hC

/-! ### The result -/

/-- The log only grows, and no node forgets how far it has been. -/
theorem grows_of_step {ev : ReplicaEvent ν} (hstep : step s ev = some s') :
    ∃ tail, s'.log = s.log ++ tail := by
  cases ev with
  | commit c =>
      obtain rfl := Option.some.inj hstep
      exact ⟨[c], rfl⟩
  | apply n r =>
      obtain ⟨c, -, rfl⟩ := Option.map_eq_some_iff.mp hstep
      exact ⟨[], (List.append_nil _).symm⟩
  | snapshot n =>
      simp only [Replicas.step, Option.ite_none_left_eq_some, Option.some.injEq] at hstep
      obtain ⟨-, rfl⟩ := hstep
      exact ⟨[], (List.append_nil _).symm⟩
  | write n wr =>
      obtain rfl := Option.some.inj hstep
      exact ⟨[], (List.append_nil _).symm⟩
  | elsewhere n timeout now jobs =>
      obtain rfl := Option.some.inj hstep
      exact ⟨[], (List.append_nil _).symm⟩
  | restart n =>
      obtain rfl := Option.some.inj hstep
      exact ⟨[], (List.append_nil _).symm⟩

theorem grows_of_reaches {C : Replicas ν → ReplicaEvent ν → Prop} {evs : List (ReplicaEvent ν)}
    (h : Reaches step C s evs s') : ∃ tail, s'.log = s.log ++ tail := by
  induction h with
  | nil => exact ⟨[], (List.append_nil _).symm⟩
  | cons hC hstep htail ih =>
      obtain ⟨tail, htail⟩ := ih
      obtain ⟨first, hfirst⟩ := grows_of_step hstep
      exact ⟨first ++ tail, by rw [htail, hfirst, List.append_assoc]⟩

/-- Nodes of a state and of a later one that have applied the same entries. -/
theorem take_of_reaches {C : Replicas ν → ReplicaEvent ν → Prop} {evs : List (ReplicaEvent ν)}
    (h : Reaches step C s evs s') {a : ℕ} (ha : a ≤ s.log.length) :
    s'.log.take a = s.log.take a := by
  obtain ⟨tail, htail⟩ := grows_of_reaches h
  rw [htail, List.take_append_of_le_length ha]

/-- **In a run whose writes outside the log ask for what is there, whose Raft snapshots are of
complete machines and whose nodes place no block inside an open transaction, a node that has applied
again all its entries shows what it and any other such node showed after them; and if the nodes
restart with nothing newer in their databases, any two nodes that have applied the same entries show
the same placements, versions and inventories.** -/
theorem replicas_agree (s s' : Replicas ν) (evs evs' : List (ReplicaEvent ν)) (n n' : ν)
    (happlied : (s.nodes n).applied = (s'.nodes n').applied) :
    (Reaches step Settled init evs s → Reaches step Settled s evs' s' →
      SamePlacements (s.nodes n).machine (s'.nodes n').machine) ∧
    (Reaches step Faithful init evs s → Reaches step Faithful s evs' s' →
      CaughtUp (s.nodes n) → CaughtUp (s'.nodes n') →
      SamePlacements (s.nodes n).machine (s'.nodes n').machine) := by
  constructor
  · intro h h'
    have hexact := h.induction (I := Exact) (fun _ _ _ hs hC hstep => hs.step hC hstep) exact_init
    have hexact' := h'.induction (I := Exact) (fun _ _ _ hs hC hstep => hs.step hC hstep) hexact
    have hshows := hexact'.shows n'
    rw [← happlied] at hshows
    unfold Shows at hshows
    rw [take_of_reaches h' (hexact.le n)] at hshows
    exact samePlacements_iff.mpr ((hexact.shows n).trans hshows.symm)
  · intro h h' hn hn'
    have hinv := h.induction (I := Invariant) (fun _ _ _ hs hC hstep => hs.step hC hstep)
      invariant_init
    have hinv' := h'.induction (I := Invariant) (fun _ _ _ hs hC hstep => hs.step hC hstep) hinv
    have hle := (hinv.follows n).le.trans (hinv.follows n).le_length
    apply samePlacements_iff.mpr
    rw [hinv.view_of_caughtUp hn, hinv'.view_of_caughtUp hn', ← happlied, take_of_reaches h' hle]

/-! ## Runs -/

theorem bindable_thousand : NanoFabric.Node.Bindable 1000 := by
  decide

/-- Readings of a clock that shows 1000. -/
def clock : Readings := ⟨1000, 1000, "", bindable_thousand, bindable_thousand⟩

/-- Two metadata nodes apply the registrations of two storage nodes and the allocation of a block; the
first one takes a Raft snapshot before the allocation. -/
def allocation : List (ReplicaEvent Bool) :=
  [.commit (.registerNode "node1" "127.0.0.1:8001"),
    .commit (.registerNode "node2" "127.0.0.1:8002"),
    .commit (.allocateBlock "block1" (some 1) ["node2", "node1"]), .apply true clock,
    .apply true clock, .snapshot true, .apply true clock, .apply false clock, .apply false clock,
    .apply false clock]

/-- The first node restarts from its snapshot and applies the allocation again. -/
def restart : List (ReplicaEvent Bool) := [.restart true, .apply true clock]

/-- A repair on the first node moves a replica. -/
def repair : List (ReplicaEvent Bool) :=
  [.write true (.replaceReplica "block1" "node1" "node3" 1)]

theorem replicas_agree_restart : ∃ s s', run step init allocation = some s ∧
    run step s restart = some s' ∧
    SamePlacements (s.nodes true).machine (s'.nodes true).machine ∧
    SamePlacements (s.nodes false).machine (s'.nodes true).machine := by
  have hrun : (runWhile step (fun s ev => Settled s ev) init allocation).map
      (fun s => ((s.nodes true).applied, (s.nodes false).applied)) = some (3, 3) := by
    decide +kernel
  have hrun' : ((runWhile step (fun s ev => Settled s ev) init allocation).bind fun s =>
      runWhile step (fun s ev => Settled s ev) s restart).map (fun s => (s.nodes true).applied) =
        some 3 := by
    decide +kernel
  obtain ⟨s, hs, happlied⟩ := Option.map_eq_some_iff.mp hrun
  rw [hs, Option.bind_some] at hrun'
  obtain ⟨s', hs', happlied'⟩ := Option.map_eq_some_iff.mp hrun'
  obtain ⟨htrue, hfalse⟩ := Prod.mk.inj happlied
  have h := Reaches.of_runWhile hs
  have h' := Reaches.of_runWhile hs'
  exact ⟨s, s', h.run_eq, h'.run_eq,
    (replicas_agree s s' _ _ true true (htrue.trans happlied'.symm)).1 h h',
    (replicas_agree s s' _ _ false true (hfalse.trans happlied'.symm)).1 h h'⟩

/-- A repair on one node: both nodes have applied the same entries and show different placements. -/
theorem replicas_agree_counterexample : ¬ ∀ (evs : List (ReplicaEvent Bool)) (s : Replicas Bool),
    run step init evs = some s → ∀ n n', (s.nodes n).applied = (s.nodes n').applied →
      SamePlacements (s.nodes n).machine (s.nodes n').machine := by
  intro h
  have hrun : (run step init (allocation ++ repair)).map (fun s =>
      ((s.nodes true).applied, (s.nodes false).applied,
        (s.nodes true).machine.placement.registry.getBlockLocations "block1",
        (s.nodes false).machine.placement.registry.getBlockLocations "block1")) =
      some (3, 3, some ["node2", "node3"], some ["node2", "node1"]) := by decide +kernel
  obtain ⟨s, hs, hshown⟩ := Option.map_eq_some_iff.mp hrun
  simp only [Prod.mk.injEq] at hshown
  obtain ⟨ha, ha', hloc, hloc'⟩ := hshown
  have hsame := (h _ s hs true false (ha.trans ha'.symm)).1
  rw [hsame, hloc'] at hloc
  revert hloc
  decide

/-- A node without a Raft snapshot restarts: it has applied nothing and shows the block. -/
example : (run step init [.commit (.allocateBlock "block1" (some 1) ["node1"]), .apply true clock,
      .restart true]).map (fun s => ((s.nodes true).applied,
        (s.nodes true).machine.placement.registry.getBlockLocations "block1")) =
    some (0, some ["node1"]) := by
  decide +kernel

end Replicas

end NanoFabric.Metadata
