import Mathlib.Data.Finset.Card
import Mathlib.Tactic.Linarith

/-!
# Quorum systems

A quorum system names the sets of nodes whose agreement counts, and carries the one fact every
argument about it uses: any two quorums share a node. `QuorumSystem.majority` is the system of
strict majorities of a fixed member list.
-/

namespace NanoFabric.Found

variable {ν : Type}

/-- A **quorum system** over the nodes `ν`: the sets that count, any two of which meet. -/
structure QuorumSystem (ν : Type) where
  /-- The sets of nodes that count. -/
  IsQuorum : Finset ν → Prop
  /-- Two quorums share a node. -/
  meet : ∀ {Q R : Finset ν}, IsQuorum Q → IsQuorum R → ∃ m, m ∈ Q ∧ m ∈ R

/-- Two subsets of `U` whose sizes add up to more than the size of `U` share an element. -/
theorem exists_mem_inter_of_card_lt [DecidableEq ν] {U Q R : Finset ν} (hQ : Q ⊆ U) (hR : R ⊆ U)
    (h : U.card < Q.card + R.card) : ∃ m, m ∈ Q ∧ m ∈ R := by
  by_contra hne
  have hdisj : Disjoint Q R :=
    Finset.disjoint_left.mpr fun m hmQ hmR => hne ⟨m, hmQ, hmR⟩
  have hcard : (Q ∪ R).card ≤ U.card := Finset.card_le_card (Finset.union_subset hQ hR)
  rw [Finset.card_union_of_disjoint hdisj] at hcard
  omega

/-- The strict majorities of a member list. -/
def QuorumSystem.majority [DecidableEq ν] (members : List ν) : QuorumSystem ν where
  IsQuorum Q := Q ⊆ members.toFinset ∧ members.length < 2 * Q.card
  meet := by
    rintro Q R ⟨hQ, hQc⟩ ⟨hR, hRc⟩
    have hU : members.toFinset.card ≤ members.length := members.toFinset_card_le
    exact exists_mem_inter_of_card_lt hQ hR (by omega)

end NanoFabric.Found
