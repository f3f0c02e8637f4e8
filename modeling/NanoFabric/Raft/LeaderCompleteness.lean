import NanoFabric.Raft.Safety

/-!
# What is committed stays

What a node has committed at a position stays there: on the node itself, through crashes and
compactions, and on every later leader.

* `Keeps` — a node has an entry at a position, in its log or in the snapshot that stands for it.
* `Commits.keeps_iff` — up to its commit index, what a node keeps is what its abstract log has.
* `leader_completeness` — **the theorem**, for the runs that keep state machines safe.
-/

namespace NanoFabric.Raft

open Found Found.ReplicatedLog

variable {N P : Type}

/-- Node `n` has `e` at position `k`, counted from one: in its log, or in the snapshot that stands for
the log up to it. -/
def Keeps (c : Cluster N P) (n : N) (k : ℕ) (e : LogEntry P) : Prop :=
  (c.node n).snapshotIndex < k ∧ (c.node n).log[k - (c.node n).snapshotIndex - 1]? = some e ∨
    k ≤ (c.node n).snapshotIndex ∧ (k, e) ∈ (c.disk n).data

variable [DecidableEq N] {cfg : Config N} {c c' : Cluster N P} {s s' : AbstractLog N P} {n m : N}
  {k : ℕ} {e : LogEntry P}

theorem Refines.log_getElem? (href : Refines cfg c s) (n : N) (hk : (c.node n).snapshotIndex < k) :
    (c.node n).log[k - (c.node n).snapshotIndex - 1]? = (s.log n)[k - 1]? := by
  rw [(href.node n).log, List.getElem?_drop]
  congr 1
  omega

/-- What the snapshot of a node has at a position is what its abstract log has there. -/
theorem Commits.mem_data_iff (hC : Commits cfg c s) (href : Refines cfg c s) (hpos : 0 < k)
    (hk : k ≤ (c.node n).snapshotIndex) : (k, e) ∈ (c.disk n).data ↔ (s.log n)[k - 1]? = some e := by
  have hcommit := hk.trans (hC.snap_le n)
  have hlen := (hC.committed n).le_length
  -- both have an entry there, and both are settled
  have hget : (s.log n)[k - 1]? = some ((s.log n)[k - 1]) := List.getElem?_eq_getElem (by omega)
  have hmem : k ∈ (c.disk n).data.map Prod.fst := by
    rw [(hC.data n).1, List.mem_range'_1, href.snap n]
    omega
  have hsame : ∀ e', (k, e') ∈ (c.disk n).data → e' = (s.log n)[k - 1] := fun e' he' =>
    (hC.applied ((hC.data n).2 _ he')).unique href.sound.inv
      ((hC.committed n).settled hpos hcommit hget)
  rw [hget, Option.some.injEq]
  constructor
  · intro he
    exact (hsame e he).symm
  · rintro rfl
    obtain ⟨⟨k', e'⟩, hp, rfl⟩ := List.mem_map.mp hmem
    exact hsame e' hp ▸ hp

/-- What a node keeps at a position is what its abstract log has there. -/
theorem Commits.keeps_iff (hC : Commits cfg c s) (href : Refines cfg c s) :
    Keeps c n k e ↔ 0 < k ∧ (s.log n)[k - 1]? = some e := by
  rcases Nat.eq_zero_or_pos k with rfl | hpos
  · have hzero : ∀ e, (0, e) ∉ (c.disk n).data := by
      intro e he
      have hmem := List.mem_map_of_mem (f := Prod.fst) he
      rw [(hC.data n).1, List.mem_range'_1] at hmem
      omega
    simp [Keeps, hzero]
  · rcases lt_or_ge (c.node n).snapshotIndex k with hk | hk
    · simp [Keeps, hk, hk.not_ge, hpos, href.log_getElem? n hk]
    · simp [Keeps, hk, hk.not_gt, hpos, hC.mem_data_iff href hpos hk]

/-- What a node has committed, a node whose log has the same entries up to there keeps. -/
theorem Keeps.of_take (hkeeps : Keeps c n k e) (hC : Commits cfg c s) (href : Refines cfg c s)
    (hC' : Commits cfg c' s') (href' : Refines cfg c' s')
    (hlog : (s.log n).take k <+: s'.log m) : Keeps c' m k e := by
  obtain ⟨hpos, he⟩ := (hC.keeps_iff href).mp hkeeps
  refine (hC'.keeps_iff href').mpr ⟨hpos, getElem?_mono hlog ?_⟩
  rwa [List.getElem?_take_of_lt (by omega)]

/-! ## Runs -/

/-- A run of steps that read rightly is simulated by moves. -/
theorem Commits.run (hC : Commits cfg c s) (href : Refines cfg c s) (hE : Elections cfg c)
    {evs : List (Event N P)} (hrun : cfg.runWhile (readsRightly cfg) c evs = some c') :
    ∃ s', Elections cfg c' ∧ Refines cfg c' s' ∧ Commits cfg c' s' ∧ cfg.Moved s s' := by
  refine Config.runWhile_induction
    (I := fun c' => ∃ s', Elections cfg c' ∧ Refines cfg c' s' ∧ Commits cfg c' s' ∧ cfg.Moved s s')
    (fun c₁ ev c₂ h hcond hs => ?_) ⟨s, hE, href, hC, Relation.ReflTransGen.refl⟩ hrun
  obtain ⟨s₁, hE₁, href₁, hC₁, hmoved₁⟩ := h
  simp only [readsRightly, Bool.and_eq_true] at hcond
  obtain ⟨s₂, href₂, hC₂, hmoved₂⟩ := hC₁.step href₁ hE₁ hcond.1.2 hcond.1.1 hcond.2 hs
  exact ⟨s₂, hE₁.step hs, href₂, hC₂, hmoved₁.trans hmoved₂⟩

/-- **Leader completeness**, in every run, with compaction, that keeps state machines safe: what a
node has committed at a position it keeps there, and so does every leader of the term that the node
was in or of a later one. -/
theorem leader_completeness {evs evs' : List (Event N P)}
    (hrun : cfg.runWhile (readsRightly cfg) (Cluster.init N P) evs = some c)
    (hrun' : cfg.runWhile (readsRightly cfg) c evs' = some c')
    (hcommit : k ≤ (c.node n).commitIndex) (hkeeps : Keeps c n k e) :
    Keeps c' n k e ∧ ∀ m, (c'.node m).role = .leader →
      (c.node n).currentTerm ≤ (c'.node m).currentTerm → Keeps c' m k e := by
  obtain ⟨s, hE, href, hC, -⟩ := Commits.init.run Refines.init Elections.init hrun
  obtain ⟨s', hE', href', hC', hmoved⟩ := hC.run href hE hrun'
  have hk := (hC.committed n).mono hcommit
  have hinv := href.sound.inv
  refine ⟨hkeeps.of_take hC href hC' href' (hk.take_kept hmoved hinv), fun m hlead hterm => ?_⟩
  have hleader : s'.leader (s'.term m) = some m := by
    rw [(href'.node m).term]
    exact (href'.leader m _).mpr (hE'.leader hlead)
  have hterms : s.term n ≤ s'.term m := by
    rw [(href.node n).term, (href'.node m).term]
    exact hterm
  -- it is in the chain of the leader's term, and that is the log of the leader
  have hgrown := hk.grows (hmoved.grows hinv) (List.prefix_refl _)
  have hchain := hgrown.chain href'.sound.inv (by simp [hleader]) hterms
  rw [← href'.sound.inv.leader_log hleader] at hchain
  exact hkeeps.of_take hC href hC' href' hchain

/-- Node `0` of two commits an entry, compacts it away and crashes, and node `1` wins the next term. -/
theorem leader_completeness_eagerNodes :
    ∃ c c', eagerNodes.runWhile (readsRightly eagerNodes) (Cluster.init (Fin 2) ℕ)
        replicatedProposal = some c ∧
      eagerNodes.runWhile (readsRightly eagerNodes) c
        (.restart 0 :: electionEvents 1 1 [true]) = some c' ∧
      (c.node 0).snapshotIndex = 1 ∧ Keeps c' 0 1 ⟨1, 1, .addAlert, 10⟩ ∧
      Keeps c' 1 1 ⟨1, 1, .addAlert, 10⟩ := by
  have hrun : ((eagerNodes.runWhile (readsRightly eagerNodes) (Cluster.init (Fin 2) ℕ)
      replicatedProposal).bind fun c => (eagerNodes.runWhile (readsRightly eagerNodes) c
        (.restart 0 :: electionEvents 1 1 [true])).map fun c' =>
          ((c.node 0).commitIndex, (c.node 0).snapshotIndex, (c.node 0).currentTerm,
            decide ((1, ⟨1, 1, .addAlert, 10⟩) ∈ (c.disk 0).data), (c'.node 1).role,
            (c'.node 1).currentTerm)) =
      some (1, 1, 1, true, .leader, 2) := by
    decide +kernel
  obtain ⟨c, hc, hrun⟩ := Option.bind_eq_some_iff.mp hrun
  obtain ⟨c', hc', hfacts⟩ := Option.map_eq_some_iff.mp hrun
  simp only [Prod.mk.injEq, decide_eq_true_eq] at hfacts
  obtain ⟨hcommit, hsnap, hterm, hdata, hrole, hterm'⟩ := hfacts
  have hkeeps : Keeps c 0 1 ⟨1, 1, .addAlert, 10⟩ := Or.inr ⟨hsnap.ge, hdata⟩
  obtain ⟨hself, hleaders⟩ := leader_completeness hc hc' hcommit.ge hkeeps
  refine ⟨c, c', hc, hc', hsnap, hself, hleaders 1 hrole ?_⟩
  rw [hterm, hterm']
  exact Nat.one_le_ofNat

end NanoFabric.Raft
