import Mathlib.Data.List.Infix
import Mathlib.Logic.Function.Basic
import NanoFabric.Found.Quorum

/-!
# Replicated logs with one leader per term

A leader-based log replication protocol, in the abstract: nodes move through terms, a candidate
collects the votes of a quorum for a term, the leader of a term owns one growing list (`chain`),
and every node's log is spliced from prefixes of such lists. Nothing is said about messages,
indexes, storage or the way a leader is told what a node holds; entries are of any type `ε` with a
term `tm`.

* `LogState`, `Step` — the protocol's state and its eight moves.
* `Inv`, `Step.inv` — the invariant, and that every move keeps it.
* `Backed.matching` — two logs with an entry of one term at one position agree up to it.
* `Inv.chosen_base` — **leader completeness**: what a quorum has acknowledged in a term is in the
  log every later leader starts with.
* `Inv.chosen_comparable` — any two chosen prefixes are comparable.
* `Steps.kept` — a log keeps what was chosen in a term its node has reached.
* `CommittedUpTo`, `CommittedUpTo.chain` — what a node may apply, and that every later leader has it.
* `Settled`, `Settled.unique` — no two nodes apply different entries at one position.

The pivot is `Dead`: a quorum has left term `t` without acknowledging `k` entries of its chain, so
the `k`-th entry can no longer be chosen there. Every place a chosen prefix must reach (a voter's
log, a candidate's log, a new leader's log) has it or proves it dead.
-/

set_option linter.unusedSectionVars false

namespace NanoFabric.Found.ReplicatedLog

variable {ν ε : Type}

/-- The state of the protocol. `vote`, `ticket`, `leader`, `base`, `chain` and `acked` are what has
happened so far; only `term` and `log` are what a node holds. -/
structure LogState (ν ε : Type) where
  /-- The term a node is in. -/
  term : ν → ℕ
  /-- The log a node holds. -/
  log : ν → List ε
  /-- `vote m t c`: node `m` voted for `c` in term `t`. -/
  vote : ν → ℕ → ν → Prop
  /-- The log a candidate held when it stood in a term. -/
  ticket : ν → ℕ → List ε
  /-- The leader of a term. -/
  leader : ℕ → Option ν
  /-- The log the leader of a term held when it was elected. -/
  base : ℕ → List ε
  /-- The log of the leader of a term, as far as it has grown. -/
  chain : ℕ → List ε
  /-- How long a prefix of the chain of a term a node has acknowledged. -/
  acked : ℕ → ν → ℕ

/-- The state in which nothing has happened. -/
def LogState.init (ν ε : Type) : LogState ν ε where
  term _ := 0
  log _ := []
  vote _ _ _ := False
  ticket _ _ := []
  leader _ := none
  base _ := []
  chain _ := []
  acked _ _ := 0

/-- The term of the last entry of a log, `0` for the empty log. -/
def lastTerm (tm : ε → ℕ) (L : List ε) : ℕ := (L.getLast?.map tm).getD 0

@[simp] theorem lastTerm_nil (tm : ε → ℕ) : lastTerm tm [] = 0 := rfl

@[simp] theorem lastTerm_concat (tm : ε → ℕ) (L : List ε) (e : ε) :
    lastTerm tm (L ++ [e]) = tm e := by
  simp [lastTerm]

/-- The log `L` is at least as up to date as the log `M`. -/
def UpToDate (tm : ε → ℕ) (L M : List ε) : Prop :=
  lastTerm tm M < lastTerm tm L ∨ lastTerm tm L = lastTerm tm M ∧ M.length ≤ L.length

/-! ## The invariant -/

section invariant

variable (tm : ε → ℕ) (Q : QuorumSystem ν) (s : LogState ν ε)

/-- Every entry of `L` stands there as it stands in the chain of its term, with all before it. -/
def Backed (L : List ε) : Prop := ∀ X e, X ++ [e] <+: L → X ++ [e] <+: s.chain (tm e)

/-- `X` is a prefix of the chain of `t` that ends with an entry of term `t`. -/
def Own (t : ℕ) (X : List ε) : Prop := X <+: s.chain t ∧ ∃ Y e, X = Y ++ [e] ∧ tm e = t

/-- A quorum has left term `t` without acknowledging `k` entries of its chain. -/
def Dead (t k : ℕ) : Prop := ∃ R, Q.IsQuorum R ∧ ∀ m ∈ R, t < s.term m ∧ s.acked t m < k

/-- `X` is **chosen** in term `t`: it ends with an entry of the term and a quorum acknowledged it. -/
def Chosen (t : ℕ) (X : List ε) : Prop :=
  Own tm s t X ∧ ∃ R, Q.IsQuorum R ∧ ∀ m ∈ R, X.length ≤ s.acked t m

/-- **The invariant of the protocol.** -/
structure Inv : Prop where
  /-- A node votes in terms it has reached. -/
  vote_le : ∀ {m t c}, s.vote m t c → t ≤ s.term m
  /-- Votes go to nodes that stand, which vote for themselves. -/
  vote_self : ∀ {m t c}, s.vote m t c → s.vote c t c
  /-- The leader of a term has reached the term. -/
  leader_le : ∀ {t c}, s.leader t = some c → t ≤ s.term c
  /-- A leader has the votes of a quorum. -/
  leader_votes : ∀ {t c}, s.leader t = some c → ∃ R, Q.IsQuorum R ∧ ∀ m ∈ R, s.vote m t c
  /-- A term without a leader has no chain. -/
  chain_none : ∀ {t}, s.leader t = none → s.chain t = []
  /-- A leader's log is the chain while it stays in the term. -/
  leader_log : ∀ {c}, s.leader (s.term c) = some c → s.log c = s.chain (s.term c)
  /-- A chain grows from the log its leader was elected with. -/
  base_chain : ∀ t, s.base t <+: s.chain t
  /-- A leader is elected with entries of earlier terms. -/
  base_lt : ∀ {t e}, e ∈ s.base t → tm e < t
  /-- A chain holds no entries of later terms. -/
  chain_le : ∀ {t e}, e ∈ s.chain t → tm e ≤ t
  /-- Terms do not fall along a chain. -/
  chain_sorted : ∀ t, (s.chain t).Pairwise fun a b => tm a ≤ tm b
  /-- Chains are spliced from chains. -/
  chain_backed : ∀ t, Backed tm s (s.chain t)
  /-- Logs are spliced from chains. -/
  log_backed : ∀ m, Backed tm s (s.log m)
  /-- A log holds no entries of terms its node has not reached. -/
  log_le : ∀ {m e}, e ∈ s.log m → tm e ≤ s.term m
  /-- The logs candidates stand with are spliced from chains of earlier terms. -/
  ticket_backed : ∀ {c t}, s.vote c t c → Backed tm s (s.ticket c t)
  /-- A candidate stands with entries of earlier terms. -/
  ticket_lt : ∀ {c t e}, s.vote c t c → e ∈ s.ticket c t → tm e < t
  /-- A node acknowledges no more than there is. -/
  acked_le : ∀ t m, s.acked t m ≤ (s.chain t).length
  /-- A node acknowledges in terms it has reached. -/
  acked_term : ∀ {t m}, 0 < s.acked t m → t ≤ s.term m
  /-- A node's log holds what the node acknowledged in its term. -/
  acked_now : ∀ m, (s.chain (s.term m)).take (s.acked (s.term m) m) <+: s.log m
  /-- A node's log holds what the node acknowledged, unless that is dead. -/
  acked_log : ∀ {t m X}, Own tm s t X → X.length ≤ s.acked t m →
    X <+: s.log m ∨ Dead Q s t X.length
  /-- The candidate a node votes for holds what the node acknowledged before, unless that is dead. -/
  acked_ticket : ∀ {t t' m c X}, s.vote m t' c → t < t' → Own tm s t X →
    X.length ≤ s.acked t m → X <+: s.ticket c t' ∨ Dead Q s t X.length
  /-- A later leader is elected with a prefix that could have been chosen, unless it is dead. -/
  own_base : ∀ {t t' X}, s.leader t' ≠ none → t < t' → Own tm s t X →
    X <+: s.base t' ∨ Dead Q s t X.length

variable {tm Q s}

theorem Backed.mono {L M : List ε} (h : Backed tm s M) (hL : L <+: M) : Backed tm s L :=
  fun X e hX => h X e (hX.trans hL)

theorem Own.length_pos {t : ℕ} {X : List ε} (h : Own tm s t X) : 0 < X.length := by
  obtain ⟨-, Y, e, rfl, -⟩ := h
  simp

/-- `Dead` survives when terms grow and acknowledgements in the term come from nodes still in it. -/
theorem Dead.mono {s' : LogState ν ε} {t k : ℕ} (h : Dead Q s t k)
    (hterm : ∀ m, s.term m ≤ s'.term m)
    (hack : ∀ m, t < s.term m → s'.acked t m ≤ s.acked t m) : Dead Q s' t k := by
  obtain ⟨R, hR, hm⟩ := h
  exact ⟨R, hR, fun m hmR => ⟨(hm m hmR).1.trans_le (hterm m),
    (hack m (hm m hmR).1).trans_lt (hm m hmR).2⟩⟩

/-- What a quorum acknowledged is not dead. -/
theorem Chosen.not_dead {t : ℕ} {X : List ε} (h : Chosen tm Q s t X) : ¬ Dead Q s t X.length := by
  rintro ⟨R, hR, hm⟩
  obtain ⟨-, R', hR', hm'⟩ := h
  obtain ⟨m, hmR, hmR'⟩ := Q.meet hR hR'
  exact absurd (hm m hmR).2 (not_lt.mpr (hm' m hmR'))

theorem backed_nil : Backed tm s [] := by
  intro X e h
  simp at h

/-- A log spliced from chains is sorted by term. -/
theorem Inv.sorted_of_backed (h : Inv tm Q s) {L : List ε} (hL : Backed tm s L) :
    L.Pairwise fun a b => tm a ≤ tm b := by
  rcases List.eq_nil_or_concat' L with rfl | ⟨X, e, rfl⟩
  · exact List.Pairwise.nil
  · exact (h.chain_sorted (tm e)).sublist (hL X e List.prefix_rfl).sublist

/-- Along a log spliced from chains no entry is of a later term than the last. -/
theorem Inv.le_lastTerm (h : Inv tm Q s) {L : List ε} (hL : Backed tm s L) {e : ε} (he : e ∈ L) :
    tm e ≤ lastTerm tm L := by
  rcases List.eq_nil_or_concat' L with rfl | ⟨X, z, rfl⟩
  · simp at he
  · have hs := h.sorted_of_backed hL
    rw [lastTerm_concat]
    rcases List.mem_append.mp he with he | he
    · exact (List.pairwise_append.mp hs).2.2 e he z (List.mem_singleton_self z)
    · rw [List.mem_singleton.mp he]

theorem Inv.init : Inv tm Q (LogState.init ν ε) where
  vote_le h := h.elim
  vote_self h := h.elim
  leader_le h := by simp [LogState.init] at h
  leader_votes h := by simp [LogState.init] at h
  chain_none _ := rfl
  leader_log h := by simp [LogState.init] at h
  base_chain _ := List.prefix_rfl
  base_lt h := by simp [LogState.init] at h
  chain_le h := by simp [LogState.init] at h
  chain_sorted _ := List.Pairwise.nil
  chain_backed _ := backed_nil
  log_backed _ := backed_nil
  log_le h := by simp [LogState.init] at h
  ticket_backed h := h.elim
  ticket_lt h := h.elim
  acked_le _ _ := le_rfl
  acked_term h := by simp [LogState.init] at h
  acked_now _ := List.nil_prefix
  acked_log h hX := absurd h.length_pos (by simp [LogState.init] at hX; simp [hX])
  acked_ticket h := h.elim
  own_base h := absurd rfl h

end invariant

/-! ## The moves -/

section steps

variable [DecidableEq ν] (tm : ε → ℕ) (Q : QuorumSystem ν)

/-- Node `n` is in term `t`. -/
def LogState.advance (s : LogState ν ε) (n : ν) (t : ℕ) : LogState ν ε :=
  { s with term := Function.update s.term n t }

/-- Node `n` stands in term `t`. -/
def LogState.campaign (s : LogState ν ε) (n : ν) (t : ℕ) : LogState ν ε :=
  { s with
    term := Function.update s.term n t
    vote := fun m t' c => s.vote m t' c ∨ m = n ∧ t' = t ∧ c = n
    ticket := Function.update s.ticket n (Function.update (s.ticket n) t (s.log n)) }

/-- Node `m` votes for `c` in its term. -/
def LogState.grant (s : LogState ν ε) (m c : ν) : LogState ν ε :=
  { s with vote := fun m' t' c' => s.vote m' t' c' ∨ m' = m ∧ t' = s.term m ∧ c' = c }

/-- Node `c` leads its term. -/
def LogState.elect (s : LogState ν ε) (c : ν) : LogState ν ε :=
  { s with
    leader := Function.update s.leader (s.term c) (some c)
    base := Function.update s.base (s.term c) (s.log c)
    chain := Function.update s.chain (s.term c) (s.log c) }

/-- The leader `c` appends `e`. -/
def LogState.append (s : LogState ν ε) (c : ν) (e : ε) : LogState ν ε :=
  { s with
    log := Function.update s.log c (s.log c ++ [e])
    chain := Function.update s.chain (s.term c) (s.chain (s.term c) ++ [e]) }

/-- Node `n` holds the log `L`. -/
def LogState.setLog (s : LogState ν ε) (n : ν) (L : List ε) : LogState ν ε :=
  { s with log := Function.update s.log n L }

/-- Node `n` acknowledges the prefix `P`. -/
def LogState.ack (s : LogState ν ε) (n : ν) (P : List ε) : LogState ν ε :=
  { s with acked := Function.update s.acked (s.term n) (Function.update (s.acked (s.term n)) n
      (max (s.acked (s.term n) n) P.length)) }

/-- The moves of the protocol. -/
inductive Step : LogState ν ε → LogState ν ε → Prop
  /-- A node learns of a term. -/
  | advance {s : LogState ν ε} (n : ν) (t : ℕ) (ht : s.term n ≤ t) :
      Step s (s.advance n t)
  /-- A node stands for leader in a new term, with the log it holds, and votes for itself. -/
  | campaign {s : LogState ν ε} (n : ν) (t : ℕ) (ht : s.term n < t) :
      Step s (s.campaign n t)
  /-- A node votes, in its term, for a candidate whose log is at least as up to date as its own. -/
  | grant {s : LogState ν ε} (m c : ν) (hc : s.vote c (s.term m) c)
      (hlog : UpToDate tm (s.ticket c (s.term m)) (s.log m)) :
      Step s (s.grant m c)
  /-- A candidate with the votes of a quorum becomes the leader of its term. -/
  | elect {s : LogState ν ε} (c : ν) (R : Finset ν) (hnone : s.leader (s.term c) = none)
      (hc : s.vote c (s.term c) c) (hlog : s.log c = s.ticket c (s.term c)) (hR : Q.IsQuorum R)
      (hv : ∀ m ∈ R, s.vote m (s.term c) c) :
      Step s (s.elect c)
  /-- The leader of a term appends an entry of that term to its log. -/
  | append {s : LogState ν ε} (c : ν) (e : ε) (hl : s.leader (s.term c) = some c)
      (he : tm e = s.term c) :
      Step s (s.append c e)
  /-- A node drops a tail of its log, keeping what it shares with the chain of its term. -/
  | cut {s : LogState ν ε} (n : ν) (L : List ε) (hl : s.leader (s.term n) ≠ none)
      (hL : L <+: s.log n) (keep : ∀ X, X <+: s.log n → X <+: s.chain (s.term n) → X <+: L) :
      Step s (s.setLog n L)
  /-- A node extends its log along the chain of its term. -/
  | extend {s : LogState ν ε} (n : ν) (L : List ε) (hL : s.log n <+: L)
      (hc : L <+: s.chain (s.term n)) :
      Step s (s.setLog n L)
  /-- A node acknowledges a prefix of the chain of its term that its log contains. -/
  | ack {s : LogState ν ε} (n : ν) (P : List ε) (hP : P <+: s.chain (s.term n))
      (hL : P <+: s.log n) :
      Step s (s.ack n P)

/-- Any number of moves. -/
abbrev Steps : LogState ν ε → LogState ν ε → Prop := Relation.ReflTransGen (Step tm Q)

/-! ## Every move keeps the invariant -/

variable {tm Q}

theorem Inv.advance {s : LogState ν ε} (h : Inv tm Q s) (n : ν) (t : ℕ) (ht : s.term n ≤ t) :
    Inv tm Q (s.advance n t) := by
  have hmono : ∀ m, s.term m ≤ Function.update s.term n t m := by
    intro m
    by_cases hm : m = n
    · subst hm
      simpa using ht
    · simp [hm]
  have hdead : ∀ {t' k}, Dead Q s t' k → Dead Q (s.advance n t) t' k :=
    fun hd => hd.mono hmono fun _ _ => le_rfl
  exact
    { vote_le := fun hv => (h.vote_le hv).trans (hmono _)
      vote_self := h.vote_self
      leader_le := fun hl => (h.leader_le hl).trans (hmono _)
      leader_votes := h.leader_votes
      chain_none := h.chain_none
      leader_log := by
        intro c hl
        -- a node whose term grows past the terms it has led leads no longer
        have hle := h.leader_le hl
        have hterm : Function.update s.term n t c = s.term c := le_antisymm hle (hmono c)
        simp only [LogState.advance, hterm] at hl ⊢
        exact h.leader_log hl
      base_chain := h.base_chain
      base_lt := h.base_lt
      chain_le := h.chain_le
      chain_sorted := h.chain_sorted
      chain_backed := h.chain_backed
      log_backed := h.log_backed
      log_le := fun he => (h.log_le he).trans (hmono _)
      ticket_backed := h.ticket_backed
      ticket_lt := h.ticket_lt
      acked_le := h.acked_le
      acked_term := fun ha => (h.acked_term ha).trans (hmono _)
      acked_now := by
        intro m
        by_cases hm : m = n
        · subst hm
          simp only [LogState.advance, Function.update_self]
          rcases ht.eq_or_lt with rfl | hlt
          · exact h.acked_now m
          · have hzero : s.acked t m = 0 := by
              by_contra hne
              exact absurd (h.acked_term (Nat.pos_of_ne_zero hne)) (not_le.mpr hlt)
            rw [hzero, List.take_zero]
            exact List.nil_prefix
        · simp only [LogState.advance, Function.update_of_ne hm]
          exact h.acked_now m
      acked_log := fun hX hk => (h.acked_log hX hk).imp_right hdead
      acked_ticket := fun hv htt hX hk => (h.acked_ticket hv htt hX hk).imp_right hdead
      own_base := fun hl htt hX => (h.own_base hl htt hX).imp_right hdead }

theorem Inv.campaign {s : LogState ν ε} (h : Inv tm Q s) (n : ν) (t : ℕ) (ht : s.term n < t) :
    Inv tm Q (s.campaign n t) := by
  have h' := h.advance n t ht.le
  -- nobody has voted for `n` in a term it has not reached
  have hfresh : ∀ m, ¬ s.vote m t n := fun m hv =>
    absurd (h.vote_le (h.vote_self hv)) (not_le.mpr ht)
  have hticket : ∀ {c t'} m, s.vote m t' c →
      Function.update s.ticket n (Function.update (s.ticket n) t (s.log n)) c t'
        = s.ticket c t' := by
    intro c t' m hv
    by_cases hc : c = n
    · subst hc
      have htt : t' ≠ t := fun htt => hfresh m (htt ▸ hv)
      simp [htt]
    · simp [hc]
  exact
    { vote_le := by
        rintro m t' c (hv | ⟨rfl, rfl, rfl⟩)
        · exact h'.vote_le hv
        · simp [LogState.campaign]
      vote_self := by
        rintro m t' c (hv | ⟨rfl, rfl, rfl⟩)
        · exact Or.inl (h.vote_self hv)
        · exact Or.inr ⟨rfl, rfl, rfl⟩
      leader_le := h'.leader_le
      leader_votes := fun hl => by
        obtain ⟨R, hR, hv⟩ := h.leader_votes hl
        exact ⟨R, hR, fun m hm => Or.inl (hv m hm)⟩
      chain_none := h'.chain_none
      leader_log := h'.leader_log
      base_chain := h'.base_chain
      base_lt := h'.base_lt
      chain_le := h'.chain_le
      chain_sorted := h'.chain_sorted
      chain_backed := h'.chain_backed
      log_backed := h'.log_backed
      log_le := h'.log_le
      ticket_backed := by
        rintro c t' (hv | ⟨-, rfl, rfl⟩)
        · simp only [LogState.campaign, hticket c hv]
          exact h.ticket_backed hv
        · simp only [LogState.campaign, Function.update_self]
          exact h.log_backed c
      ticket_lt := by
        rintro c t' e (hv | ⟨-, rfl, rfl⟩) he
        · simp only [LogState.campaign, hticket c hv] at he
          exact h.ticket_lt hv he
        · simp only [LogState.campaign, Function.update_self] at he
          exact (h.log_le he).trans_lt ht
      acked_le := h'.acked_le
      acked_term := h'.acked_term
      acked_now := h'.acked_now
      acked_log := h'.acked_log
      acked_ticket := by
        rintro t₀ t' m c X (hv | ⟨rfl, rfl, rfl⟩) htt hX hk
        · simp only [LogState.campaign, hticket m hv]
          exact h'.acked_ticket hv htt hX hk
        · simp only [LogState.campaign, Function.update_self]
          exact h'.acked_log hX hk
      own_base := h'.own_base }

/-- **A vote carries what the voter acknowledged.** When a candidate's log is at least as up to
date as the log of a node that holds `X`, the candidate holds `X` too, or `X` is dead. -/
theorem Inv.prefix_of_upToDate {s : LogState ν ε} (h : Inv tm Q s) {t t' : ℕ} {X T M : List ε}
    (hX : Own tm s t X) (hT : Backed tm s T) (hTlt : ∀ e ∈ T, tm e < t') (hM : Backed tm s M)
    (hXM : X <+: M) (hlog : UpToDate tm T M) (htt : t < t') :
    X <+: T ∨ Dead Q s t X.length := by
  obtain ⟨hXc, Y, x, rfl, rfl⟩ := hX
  have hxM : tm x ≤ lastTerm tm M :=
    h.le_lastTerm hM (hXM.mem (List.mem_append_right _ (List.mem_singleton_self x)))
  have hMpos : 0 < M.length := by
    have := hXM.length_le
    simp at this
    omega
  rcases List.eq_nil_or_concat' T with rfl | ⟨T', z, rfl⟩
  · rcases hlog with hlt | ⟨-, hlen⟩
    · exact absurd hlt (Nat.not_lt_zero _)
    · rw [List.length_nil] at hlen
      omega
  · have hz : T' ++ [z] <+: s.chain (tm z) := hT T' z List.prefix_rfl
    have hzM : lastTerm tm M ≤ tm z := by
      rcases hlog with hlt | ⟨heq, -⟩
      · rw [lastTerm_concat] at hlt
        exact hlt.le
      · rw [lastTerm_concat] at heq
        exact heq.ge
    rcases (hxM.trans hzM).lt_or_eq with hlt | heq
    · -- the candidate's last entry is of a later term, whose leader started with `X`
      have hlead : s.leader (tm z) ≠ none := by
        intro hnone
        rw [h.chain_none hnone] at hz
        simp at hz
      refine (h.own_base hlead hlt ⟨hXc, Y, x, rfl, rfl⟩).imp_left fun hXb => ?_
      rcases List.prefix_or_prefix_of_prefix (hXb.trans (h.base_chain _)) hz with hp | hp
      · exact hp
      · have hzb : z ∈ s.base (tm z) :=
          hXb.mem (hp.mem (List.mem_append_right _ (List.mem_singleton_self z)))
        exact absurd (h.base_lt hzb) (lt_irrefl _)
    · -- both logs end in the chain of the term of `X`, and the candidate's is the longer
      left
      have hlen : M.length ≤ (T' ++ [z]).length := by
        rcases hlog with hlt | ⟨-, hlen⟩
        · rw [lastTerm_concat] at hlt
          omega
        · exact hlen
      rw [← heq] at hz
      exact List.prefix_of_prefix_length_le hXc hz (hXM.length_le.trans hlen)

theorem Inv.grant {s : LogState ν ε} (h : Inv tm Q s) (m c : ν) (hc : s.vote c (s.term m) c)
    (hlog : UpToDate tm (s.ticket c (s.term m)) (s.log m)) :
    Inv tm Q (s.grant m c) where
  vote_le := by
    rintro m' t' c' (hv | ⟨rfl, rfl, rfl⟩)
    · exact h.vote_le hv
    · exact le_rfl
  vote_self := by
    rintro m' t' c' (hv | ⟨rfl, rfl, rfl⟩)
    · exact Or.inl (h.vote_self hv)
    · exact Or.inl hc
  leader_le := h.leader_le
  leader_votes := fun hl => by
    obtain ⟨R, hR, hv⟩ := h.leader_votes hl
    exact ⟨R, hR, fun m hm => Or.inl (hv m hm)⟩
  chain_none := h.chain_none
  leader_log := h.leader_log
  base_chain := h.base_chain
  base_lt := h.base_lt
  chain_le := h.chain_le
  chain_sorted := h.chain_sorted
  chain_backed := h.chain_backed
  log_backed := h.log_backed
  log_le := h.log_le
  ticket_backed := by
    rintro c' t' (hv | ⟨-, rfl, rfl⟩)
    · exact h.ticket_backed hv
    · exact h.ticket_backed hc
  ticket_lt := by
    rintro c' t' e (hv | ⟨-, rfl, rfl⟩) he
    · exact h.ticket_lt hv he
    · exact h.ticket_lt hc he
  acked_le := h.acked_le
  acked_term := h.acked_term
  acked_now := h.acked_now
  acked_log := h.acked_log
  acked_ticket := by
    rintro t₀ t' m' c' X (hv | ⟨rfl, rfl, rfl⟩) htt hX hk
    · exact h.acked_ticket hv htt hX hk
    · rcases h.acked_log hX hk with hXm | hd
      · exact h.prefix_of_upToDate hX (h.ticket_backed hc) (fun e he => h.ticket_lt hc he)
          (h.log_backed m') hXm hlog htt
      · exact Or.inr hd
  own_base := h.own_base

theorem Inv.elect {s : LogState ν ε} (h : Inv tm Q s) (c : ν) (R : Finset ν)
    (hnone : s.leader (s.term c) = none) (hc : s.vote c (s.term c) c)
    (hlog : s.log c = s.ticket c (s.term c)) (hR : Q.IsQuorum R)
    (hv : ∀ m ∈ R, s.vote m (s.term c) c) :
    Inv tm Q (s.elect c) := by
  have hnil : s.chain (s.term c) = [] := h.chain_none hnone
  have hlt : ∀ e ∈ s.log c, tm e < s.term c := fun e he => h.ticket_lt hc (hlog ▸ he)
  have hchain : ∀ {t}, t ≠ s.term c →
      Function.update s.chain (s.term c) (s.log c) t = s.chain t := fun ht => by simp [ht]
  -- no entry of the new leader's term exists yet
  have hback : ∀ {L}, Backed tm s L → Backed tm (s.elect c) L := by
    intro L hL X e hXe
    have hXe' := hL X e hXe
    by_cases he : tm e = s.term c
    · rw [he, hnil] at hXe'
      simp at hXe'
    · simpa only [LogState.elect, hchain he] using hXe'
  have hown : ∀ {t X}, Own tm (s.elect c) t X →
      t ≠ s.term c ∧ Own tm s t X := by
    rintro t X ⟨hXc, Y, e, rfl, rfl⟩
    have hne : tm e ≠ s.term c := by
      intro he
      simp only [LogState.elect, he, Function.update_self] at hXc
      exact absurd he (hlt e (hXc.mem (List.mem_append_right _ (List.mem_singleton_self e)))).ne
    exact ⟨hne, by simpa only [LogState.elect, hchain hne] using hXc, Y, e, rfl, rfl⟩
  exact
    { vote_le := h.vote_le
      vote_self := h.vote_self
      leader_le := by
        intro t c' hl
        by_cases ht : t = s.term c
        · subst ht
          simp only [LogState.elect, Function.update_self, Option.some.injEq] at hl
          exact hl ▸ le_rfl
        · simp only [LogState.elect, Function.update_of_ne ht] at hl
          exact h.leader_le hl
      leader_votes := by
        intro t c' hl
        by_cases ht : t = s.term c
        · subst ht
          simp only [LogState.elect, Function.update_self, Option.some.injEq] at hl
          subst hl
          exact ⟨R, hR, hv⟩
        · simp only [LogState.elect, Function.update_of_ne ht] at hl
          exact h.leader_votes hl
      chain_none := by
        intro t hl
        by_cases ht : t = s.term c
        · subst ht
          simp [LogState.elect] at hl
        · simp only [LogState.elect, Function.update_of_ne ht] at hl ⊢
          exact h.chain_none hl
      leader_log := by
        intro c' hl
        by_cases ht : s.term c' = s.term c
        · simp only [LogState.elect, ht, Function.update_self, Option.some.injEq] at hl ⊢
          rw [hl]
        · simp only [LogState.elect, Function.update_of_ne ht] at hl ⊢
          exact h.leader_log hl
      base_chain := by
        intro t
        by_cases ht : t = s.term c
        · subst ht
          simp [LogState.elect]
        · simp only [LogState.elect, Function.update_of_ne ht]
          exact h.base_chain t
      base_lt := by
        intro t e he
        by_cases ht : t = s.term c
        · subst ht
          simp only [LogState.elect, Function.update_self] at he
          exact hlt e he
        · simp only [LogState.elect, Function.update_of_ne ht] at he
          exact h.base_lt he
      chain_le := by
        intro t e he
        by_cases ht : t = s.term c
        · subst ht
          simp only [LogState.elect, Function.update_self] at he
          exact (hlt e he).le
        · simp only [LogState.elect, Function.update_of_ne ht] at he
          exact h.chain_le he
      chain_sorted := by
        intro t
        by_cases ht : t = s.term c
        · subst ht
          simp only [LogState.elect, Function.update_self]
          exact h.sorted_of_backed (h.log_backed c)
        · simp only [LogState.elect, Function.update_of_ne ht]
          exact h.chain_sorted t
      chain_backed := by
        intro t
        by_cases ht : t = s.term c
        · subst ht
          simp only [LogState.elect, Function.update_self]
          exact hback (h.log_backed c)
        · simp only [LogState.elect, Function.update_of_ne ht]
          exact hback (h.chain_backed t)
      log_backed := fun m => hback (h.log_backed m)
      log_le := h.log_le
      ticket_backed := fun hv' => hback (h.ticket_backed hv')
      ticket_lt := h.ticket_lt
      acked_le := by
        intro t m
        by_cases ht : t = s.term c
        · subst ht
          have hle := h.acked_le (s.term c) m
          rw [hnil, List.length_nil] at hle
          exact hle.trans (Nat.zero_le _)
        · simp only [LogState.elect, Function.update_of_ne ht]
          exact h.acked_le t m
      acked_term := h.acked_term
      acked_now := by
        intro m
        by_cases ht : s.term m = s.term c
        · have hzero : s.acked (s.term m) m = 0 := by
            have hle := h.acked_le (s.term m) m
            rw [ht, hnil, List.length_nil] at hle
            rw [ht]
            omega
          show List.take (s.acked (s.term m) m) _ <+: s.log m
          rw [hzero, List.take_zero]
          exact List.nil_prefix
        · simp only [LogState.elect, Function.update_of_ne ht]
          exact h.acked_now m
      acked_log := fun hX hk => h.acked_log (hown hX).2 hk
      acked_ticket := fun hv' htt hX hk => h.acked_ticket hv' htt (hown hX).2 hk
      own_base := by
        intro t t' X hl htt hX
        by_cases ht : t' = s.term c
        · subst ht
          simp only [LogState.elect, Function.update_self]
          -- either no voter acknowledged `X`, or the log of one that did reached the candidate
          by_cases hR' : ∀ m ∈ R, s.acked t m < X.length
          · exact Or.inr ⟨R, hR, fun m hm => ⟨htt.trans_le (h.vote_le (hv m hm)), hR' m hm⟩⟩
          · push Not at hR'
            obtain ⟨m, hm, hk⟩ := hR'
            rw [hlog]
            exact h.acked_ticket (hv m hm) htt (hown hX).2 hk
        · simp only [LogState.elect, Function.update_of_ne ht] at hl ⊢
          exact h.own_base hl htt (hown hX).2 }

theorem Inv.append {s : LogState ν ε} (h : Inv tm Q s) (c : ν) (e : ε)
    (hl : s.leader (s.term c) = some c) (he : tm e = s.term c) :
    Inv tm Q (s.append c e) := by
  have hlog : s.log c = s.chain (s.term c) := h.leader_log hl
  have hgrow : ∀ t, s.chain t <+:
      Function.update s.chain (s.term c) (s.chain (s.term c) ++ [e]) t := by
    intro t
    by_cases ht : t = s.term c
    · subst ht
      simp
    · simp [ht]
  have hback : ∀ {L}, Backed tm s L → Backed tm (s.append c e) L :=
    fun hL X z hXz => (hL X z hXz).trans (hgrow _)
  have hbackc : Backed tm (s.append c e)
      (s.chain (s.term c) ++ [e]) := by
    intro X z hXz
    rcases List.prefix_concat_iff.mp hXz with heq | hp
    · obtain ⟨-, hz⟩ := List.append_inj' heq rfl
      have hz' : tm z = s.term c := by
        rw [List.cons.inj hz |>.1, he]
      simp only [LogState.append, hz', Function.update_self]
      exact hXz
    · exact hback (h.chain_backed _) X z hp
  -- the only new prefix of a chain is the whole of the leader's, which nobody acknowledged
  have hown : ∀ {t X}, Own tm (s.append c e) t X →
      Own tm s t X ∨ t = s.term c ∧ X.length = (s.chain t).length + 1 := by
    rintro t X ⟨hXc, hY⟩
    by_cases ht : t = s.term c
    · subst ht
      simp only [LogState.append, Function.update_self] at hXc
      rcases List.prefix_concat_iff.mp hXc with heq | hp
      · exact Or.inr ⟨rfl, by rw [heq]; simp⟩
      · exact Or.inl ⟨hp, hY⟩
    · simp only [LogState.append, Function.update_of_ne ht] at hXc
      exact Or.inl ⟨hXc, hY⟩
  exact
    { vote_le := h.vote_le
      vote_self := h.vote_self
      leader_le := h.leader_le
      leader_votes := h.leader_votes
      chain_none := by
        intro t hn
        have ht : t ≠ s.term c := by
          rintro rfl
          exact absurd (hl.symm.trans hn) (Option.some_ne_none c)
        simp only [LogState.append, Function.update_of_ne ht]
        exact h.chain_none hn
      leader_log := by
        intro c' hl'
        by_cases ht : s.term c' = s.term c
        · have hcc : s.leader (s.term c') = some c' := hl'
          rw [ht, hl, Option.some.injEq] at hcc
          subst hcc
          simp [LogState.append, hlog]
        · have hcc : c' ≠ c := fun hcc => ht (by rw [hcc])
          simp only [LogState.append, Function.update_of_ne ht, Function.update_of_ne hcc]
          exact h.leader_log hl'
      base_chain := fun t => (h.base_chain t).trans (hgrow t)
      base_lt := h.base_lt
      chain_le := by
        intro t z hz
        by_cases ht : t = s.term c
        · subst ht
          simp only [LogState.append, Function.update_self, List.mem_append, List.mem_singleton] at hz
          rcases hz with hz | rfl
          · exact h.chain_le hz
          · exact he.le
        · simp only [LogState.append, Function.update_of_ne ht] at hz
          exact h.chain_le hz
      chain_sorted := by
        intro t
        by_cases ht : t = s.term c
        · subst ht
          simp only [LogState.append, Function.update_self]
          refine List.pairwise_append.mpr
            ⟨h.chain_sorted _, List.pairwise_singleton _ _, fun a ha b hb => ?_⟩
          rw [List.mem_singleton.mp hb, he]
          exact h.chain_le ha
        · simp only [LogState.append, Function.update_of_ne ht]
          exact h.chain_sorted t
      chain_backed := by
        intro t
        by_cases ht : t = s.term c
        · subst ht
          simp only [LogState.append, Function.update_self]
          exact hbackc
        · simp only [LogState.append, Function.update_of_ne ht]
          exact hback (h.chain_backed t)
      log_backed := by
        intro m
        by_cases hm : m = c
        · subst hm
          simp only [LogState.append, Function.update_self]
          rw [hlog]
          exact hbackc
        · simp only [LogState.append, Function.update_of_ne hm]
          exact hback (h.log_backed m)
      log_le := by
        intro m z hz
        by_cases hm : m = c
        · subst hm
          simp only [LogState.append, Function.update_self, List.mem_append, List.mem_singleton] at hz
          rcases hz with hz | rfl
          · exact h.log_le hz
          · exact he.le
        · simp only [LogState.append, Function.update_of_ne hm] at hz
          exact h.log_le hz
      ticket_backed := fun hv => hback (h.ticket_backed hv)
      ticket_lt := h.ticket_lt
      acked_le := fun t m => (h.acked_le t m).trans (hgrow t).length_le
      acked_term := h.acked_term
      acked_now := by
        intro m
        have hm : s.log m <+: (s.append c e).log m := by
          by_cases hm : m = c
          · subst hm
            simp [LogState.append]
          · simp [LogState.append, hm]
        refine List.IsPrefix.trans ?_ hm
        by_cases ht : s.term m = s.term c
        · simp only [LogState.append, ht, Function.update_self]
          rw [List.take_append_of_le_length (h.acked_le _ _), ← ht]
          exact h.acked_now m
        · simp only [LogState.append, Function.update_of_ne ht]
          exact h.acked_now m
      acked_log := by
        intro t m X hX hk
        rcases hown hX with hX' | ⟨rfl, hlen⟩
        · refine (h.acked_log hX' hk).imp_left fun hXm => ?_
          by_cases hm : m = c
          · subst hm
            simp only [LogState.append, Function.update_self]
            exact hXm.trans (List.prefix_append _ _)
          · simp only [LogState.append, Function.update_of_ne hm]
            exact hXm
        · have hle := h.acked_le (s.term c) m
          have hk' : X.length ≤ s.acked (s.term c) m := hk
          omega
      acked_ticket := by
        intro t t' m c' X hv htt hX hk
        rcases hown hX with hX' | ⟨rfl, hlen⟩
        · exact h.acked_ticket hv htt hX' hk
        · have hle := h.acked_le (s.term c) m
          have hk' : X.length ≤ s.acked (s.term c) m := hk
          omega
      own_base := by
        intro t t' X hl' htt hX
        rcases hown hX with hX' | ⟨rfl, hlen⟩
        · exact h.own_base hl' htt hX'
        · -- the voters of the later leader have left the term
          obtain ⟨c', hc'⟩ := Option.ne_none_iff_exists'.mp hl'
          obtain ⟨R, hR, hv⟩ := h.leader_votes hc'
          refine Or.inr ⟨R, hR, fun m hm => ⟨htt.trans_le (h.vote_le (hv m hm)), ?_⟩⟩
          have hle := h.acked_le (s.term c) m
          show s.acked (s.term c) m < X.length
          omega }

/-- Holding another log leaves a node's invariants about chains and votes alone: what is left to
check is the new log itself. -/
theorem Inv.setLog {s : LogState ν ε} (h : Inv tm Q s) (n : ν) (L : List ε)
    (hlead : s.leader (s.term n) = some n → L = s.chain (s.term n)) (hback : Backed tm s L)
    (hle : ∀ e ∈ L, tm e ≤ s.term n)
    (hkeep : ∀ X, X <+: s.log n → X <+: s.chain (s.term n) → X <+: L)
    (hacked : ∀ {t X}, Own tm s t X → X.length ≤ s.acked t n → X <+: s.log n →
      X <+: L ∨ Dead Q s t X.length) :
    Inv tm Q (s.setLog n L) where
  vote_le := h.vote_le
  vote_self := h.vote_self
  leader_le := h.leader_le
  leader_votes := h.leader_votes
  chain_none := h.chain_none
  leader_log := by
    intro c hl
    by_cases hc : c = n
    · subst hc
      simp only [LogState.setLog, Function.update_self]
      exact hlead hl
    · simp only [LogState.setLog, Function.update_of_ne hc]
      exact h.leader_log hl
  base_chain := h.base_chain
  base_lt := h.base_lt
  chain_le := h.chain_le
  chain_sorted := h.chain_sorted
  chain_backed := h.chain_backed
  log_backed := by
    intro m
    by_cases hm : m = n
    · subst hm
      simp only [LogState.setLog, Function.update_self]
      exact hback
    · simp only [LogState.setLog, Function.update_of_ne hm]
      exact h.log_backed m
  log_le := by
    intro m e he
    by_cases hm : m = n
    · subst hm
      simp only [LogState.setLog, Function.update_self] at he
      exact hle e he
    · simp only [LogState.setLog, Function.update_of_ne hm] at he
      exact h.log_le he
  ticket_backed := h.ticket_backed
  ticket_lt := h.ticket_lt
  acked_le := h.acked_le
  acked_term := h.acked_term
  acked_now := by
    intro m
    by_cases hm : m = n
    · subst hm
      simp only [LogState.setLog, Function.update_self]
      exact hkeep _ (h.acked_now m) (List.take_prefix _ _)
    · simp only [LogState.setLog, Function.update_of_ne hm]
      exact h.acked_now m
  acked_log := by
    intro t m X hX hk
    rcases h.acked_log hX hk with hXm | hd
    · by_cases hm : m = n
      · subst hm
        simp only [LogState.setLog, Function.update_self]
        exact hacked hX hk hXm
      · simp only [LogState.setLog, Function.update_of_ne hm]
        exact Or.inl hXm
    · exact Or.inr hd
  acked_ticket := h.acked_ticket
  own_base := h.own_base

/-- What a node acknowledged and still holds is in the chain of its term, or dead. -/
theorem Inv.acked_chain {s : LogState ν ε} (h : Inv tm Q s) {n : ν}
    (hl : s.leader (s.term n) ≠ none) {t : ℕ} {X : List ε} (hX : Own tm s t X)
    (hk : X.length ≤ s.acked t n) : X <+: s.chain (s.term n) ∨ Dead Q s t X.length := by
  rcases (h.acked_term (hX.length_pos.trans_le hk)).eq_or_lt with rfl | htt
  · exact Or.inl hX.1
  · exact (h.own_base hl htt hX).imp_left fun hXb => hXb.trans (h.base_chain _)

theorem Inv.cut {s : LogState ν ε} (h : Inv tm Q s) (n : ν) (L : List ε)
    (hl : s.leader (s.term n) ≠ none) (hL : L <+: s.log n)
    (keep : ∀ X, X <+: s.log n → X <+: s.chain (s.term n) → X <+: L) :
    Inv tm Q (s.setLog n L) := by
  refine h.setLog n L (fun hn => ?_) ((h.log_backed n).mono hL)
    (fun e he => h.log_le (hL.mem he)) keep fun hX hk hXn => ?_
  · have hlog := h.leader_log hn
    have hchain : s.chain (s.term n) <+: L :=
      keep _ (hlog ▸ List.prefix_rfl) List.prefix_rfl
    exact (hL.trans (hlog ▸ List.prefix_rfl)).eq_of_length_le hchain.length_le
  · exact (h.acked_chain hl hX hk).imp_left fun hXc => keep _ hXn hXc

theorem Inv.extend {s : LogState ν ε} (h : Inv tm Q s) (n : ν) (L : List ε)
    (hL : s.log n <+: L) (hc : L <+: s.chain (s.term n)) : Inv tm Q (s.setLog n L) := by
  refine h.setLog n L (fun hn => ?_) ((h.chain_backed _).mono hc)
    (fun e he => h.chain_le (hc.mem he)) (fun _ hX _ => hX.trans hL)
    fun _ _ hXn => Or.inl (hXn.trans hL)
  rw [h.leader_log hn] at hL
  exact hc.eq_of_length_le hL.length_le

theorem Inv.ack {s : LogState ν ε} (h : Inv tm Q s) (n : ν) (P : List ε)
    (hP : P <+: s.chain (s.term n)) (hL : P <+: s.log n) : Inv tm Q (s.ack n P) := by
  have hne : ∀ {t m}, t ≠ s.term n ∨ m ≠ n → (s.ack n P).acked t m = s.acked t m := by
    intro t m htm
    by_cases ht : t = s.term n
    · subst ht
      have hm : m ≠ n := htm.resolve_left fun hc => hc rfl
      simp [LogState.ack, hm]
    · simp [LogState.ack, ht]
  have heq : (s.ack n P).acked (s.term n) n = max (s.acked (s.term n) n) P.length := by
    simp [LogState.ack]
  -- a node that has left a term acknowledges nothing in it
  have hleft : ∀ {t m}, t < s.term m → (s.ack n P).acked t m = s.acked t m := by
    intro t m ht
    refine hne ?_
    by_cases hm : m = n
    · subst hm
      exact Or.inl ht.ne
    · exact Or.inr hm
  have hdead : ∀ {t k}, Dead Q s t k → Dead Q (s.ack n P) t k :=
    fun hd => hd.mono (fun _ => le_rfl) fun m ht => (hleft ht).le
  exact
    { vote_le := h.vote_le
      vote_self := h.vote_self
      leader_le := h.leader_le
      leader_votes := h.leader_votes
      chain_none := h.chain_none
      leader_log := h.leader_log
      base_chain := h.base_chain
      base_lt := h.base_lt
      chain_le := h.chain_le
      chain_sorted := h.chain_sorted
      chain_backed := h.chain_backed
      log_backed := h.log_backed
      log_le := h.log_le
      ticket_backed := h.ticket_backed
      ticket_lt := h.ticket_lt
      acked_le := by
        intro t m
        by_cases htm : t = s.term n ∧ m = n
        · obtain ⟨rfl, rfl⟩ := htm
          rw [heq]
          exact max_le (h.acked_le _ _) hP.length_le
        · rw [hne (not_and_or.mp htm)]
          exact h.acked_le t m
      acked_term := by
        intro t m hpos
        by_cases htm : t = s.term n ∧ m = n
        · obtain ⟨rfl, rfl⟩ := htm
          exact le_rfl
        · rw [hne (not_and_or.mp htm)] at hpos
          exact h.acked_term hpos
      acked_now := by
        intro m
        by_cases hm : m = n
        · subst hm
          show List.take ((s.ack m P).acked (s.term m) m) (s.chain (s.term m)) <+: s.log m
          rw [heq]
          rcases max_choice (s.acked (s.term m) m) P.length with hmax | hmax
          · rw [hmax]
            exact h.acked_now m
          · rw [hmax, ← List.prefix_iff_eq_take.mp hP]
            exact hL
        · show List.take ((s.ack n P).acked (s.term m) m) (s.chain (s.term m)) <+: s.log m
          rw [hne (Or.inr hm)]
          exact h.acked_now m
      acked_log := by
        intro t m X hX hk
        by_cases htm : t = s.term n ∧ m = n
        · obtain ⟨rfl, rfl⟩ := htm
          rw [heq] at hk
          rcases le_max_iff.mp hk with hk | hk
          · exact (h.acked_log hX hk).imp_right hdead
          · exact Or.inl ((List.prefix_of_prefix_length_le hX.1 hP hk).trans hL)
        · rw [hne (not_and_or.mp htm)] at hk
          exact (h.acked_log hX hk).imp_right hdead
      acked_ticket := by
        intro t t' m c X hv htt hX hk
        rw [hleft (htt.trans_le (h.vote_le hv))] at hk
        exact (h.acked_ticket hv htt hX hk).imp_right hdead
      own_base := fun hl htt hX => (h.own_base hl htt hX).imp_right hdead }

/-- **Every move keeps the invariant.** -/
theorem Step.inv {s s' : LogState ν ε} (hs : Step tm Q s s') (h : Inv tm Q s) : Inv tm Q s' := by
  cases hs with
  | advance n t ht => exact h.advance n t ht
  | campaign n t ht => exact h.campaign n t ht
  | grant m c hc hlog => exact h.grant m c hc hlog
  | elect c R hnone hc hlog hR hv => exact h.elect c R hnone hc hlog hR hv
  | append c e hl he => exact h.append c e hl he
  | cut n L hl hL keep => exact h.cut n L hl hL keep
  | extend n L hL hc => exact h.extend n L hL hc
  | ack n P hP hL => exact h.ack n P hP hL

/-- The invariant holds along every run. -/
theorem Steps.inv {s s' : LogState ν ε} (hs : Steps tm Q s s') (h : Inv tm Q s) : Inv tm Q s' := by
  induction hs with
  | refl => exact h
  | tail _ hstep ih => exact hstep.inv ih

/-! ## What a run never takes back -/

/-- What the moves never take back: terms, votes, leaders, chains and acknowledgements grow. -/
structure Grows (s s' : LogState ν ε) : Prop where
  /-- Terms grow. -/
  term : ∀ m, s.term m ≤ s'.term m
  /-- Votes stay. -/
  vote : ∀ {m t c}, s.vote m t c → s'.vote m t c
  /-- The log a vote was given for stays. -/
  ticket : ∀ {c t}, s.vote c t c → s'.ticket c t = s.ticket c t
  /-- Leaders stay. -/
  leader : ∀ {t c}, s.leader t = some c → s'.leader t = some c
  /-- Chains grow. -/
  chain : ∀ t, s.chain t <+: s'.chain t
  /-- Acknowledgements grow. -/
  acked : ∀ t m, s.acked t m ≤ s'.acked t m

theorem Grows.refl (s : LogState ν ε) : Grows s s :=
  ⟨fun _ => le_rfl, id, fun _ => rfl, id, fun _ => List.prefix_rfl, fun _ _ => le_rfl⟩

theorem Grows.trans {s s' s'' : LogState ν ε} (h : Grows s s') (h' : Grows s' s'') : Grows s s'' :=
  ⟨fun m => (h.term m).trans (h'.term m), fun hv => h'.vote (h.vote hv),
    fun hv => (h'.ticket (h.vote hv)).trans (h.ticket hv), fun hl => h'.leader (h.leader hl),
    fun t => (h.chain t).trans (h'.chain t), fun t m => (h.acked t m).trans (h'.acked t m)⟩

theorem Step.grows {s s' : LogState ν ε} (hs : Step tm Q s s') (h : Inv tm Q s) : Grows s s' := by
  have hupd : ∀ (n : ν) (t : ℕ), s.term n ≤ t → ∀ m, s.term m ≤ Function.update s.term n t m := by
    intro n t ht m
    by_cases hm : m = n
    · subst hm
      simpa using ht
    · simp [hm]
  cases hs with
  | advance n t ht => exact { Grows.refl s with term := hupd n t ht }
  | campaign n t ht =>
      refine { Grows.refl s with term := hupd n t ht.le, vote := Or.inl, ticket := ?_ }
      intro c t' hv
      by_cases hc : c = n
      · subst hc
        have htt : t' ≠ t := fun htt => absurd (htt ▸ h.vote_le hv) (not_le.mpr ht)
        simp [LogState.campaign, htt]
      · simp [LogState.campaign, hc]
  | grant m c hc hlog => exact { Grows.refl s with vote := Or.inl }
  | elect c R hnone hc hlog hR hv =>
      refine { Grows.refl s with leader := ?_, chain := ?_ }
      · intro t c' hl
        have ht : t ≠ s.term c := by
          rintro rfl
          exact absurd (hl.symm.trans hnone) (Option.some_ne_none c')
        simpa only [LogState.elect, Function.update_of_ne ht] using hl
      · intro t
        by_cases ht : t = s.term c
        · subst ht
          rw [h.chain_none hnone]
          exact List.nil_prefix
        · simp only [LogState.elect, Function.update_of_ne ht]
          exact List.prefix_rfl
  | append c e hl he =>
      refine { Grows.refl s with chain := ?_ }
      intro t
      by_cases ht : t = s.term c
      · subst ht
        simp [LogState.append]
      · simp [LogState.append, ht]
  | cut n L hl hL keep => exact { Grows.refl s with }
  | extend n L hL hc => exact { Grows.refl s with }
  | ack n P hP hL =>
      refine { Grows.refl s with acked := ?_ }
      intro t m
      by_cases ht : t = s.term n
      · subst ht
        by_cases hm : m = n
        · subst hm
          simp [LogState.ack]
        · simp [LogState.ack, hm]
      · simp [LogState.ack, ht]

theorem Steps.grows {s s' : LogState ν ε} (hs : Steps tm Q s s') (h : Inv tm Q s) :
    Grows s s' := by
  induction hs with
  | refl => exact Grows.refl s
  | tail hss hstep ih => exact ih.trans (hstep.grows (Steps.inv hss h))

theorem Chosen.grows {s s' : LogState ν ε} {t : ℕ} {X : List ε} (hX : Chosen tm Q s t X)
    (h : Grows s s') : Chosen tm Q s' t X := by
  obtain ⟨⟨hXc, hY⟩, R, hR, hm⟩ := hX
  exact ⟨⟨hXc.trans (h.chain t), hY⟩, R, hR, fun m hmR => (hm m hmR).trans (h.acked t m)⟩

/-! ## Log matching, leader completeness, agreement -/

/-- **Log matching.** When two logs spliced from chains have entries of one term at one position,
they are the same up to that position. -/
theorem Backed.matching {s : LogState ν ε} {L M X Y : List ε} {a b : ε} (hL : Backed tm s L)
    (hM : Backed tm s M) (hX : X ++ [a] <+: L) (hY : Y ++ [b] <+: M)
    (hlen : X.length = Y.length) (hterm : tm a = tm b) : X ++ [a] = Y ++ [b] := by
  have hXc := hL X a hX
  have hYc := hM Y b hY
  rw [hterm] at hXc
  exact (List.prefix_of_prefix_length_le hXc hYc (by simp [hlen])).eq_of_length (by simp [hlen])

/-- **Leader completeness.** What is chosen in a term is in the log every later leader starts
with. -/
theorem Inv.chosen_base {s : LogState ν ε} (h : Inv tm Q s) {t t' : ℕ} {X : List ε}
    (hX : Chosen tm Q s t X) (hl : s.leader t' ≠ none) (htt : t < t') : X <+: s.base t' :=
  (h.own_base hl htt hX.1).resolve_right hX.not_dead

/-- What is chosen in a term is in the chain of that term and of every later one. -/
theorem Inv.chosen_chain {s : LogState ν ε} (h : Inv tm Q s) {t t' : ℕ} {X : List ε}
    (hX : Chosen tm Q s t X) (hl : s.leader t' ≠ none) (htt : t ≤ t') : X <+: s.chain t' := by
  rcases htt.eq_or_lt with rfl | hlt
  · exact hX.1.1
  · exact (h.chosen_base hX hl hlt).trans (h.base_chain t')

theorem Inv.leader_of_own {s : LogState ν ε} (h : Inv tm Q s) {t : ℕ} {X : List ε}
    (hX : Own tm s t X) : s.leader t ≠ none := by
  intro hnone
  have hlen := hX.1.length_le
  rw [h.chain_none hnone, List.length_nil] at hlen
  exact absurd hX.length_pos (by omega)

/-- **Agreement.** Any two chosen prefixes are comparable. -/
theorem Inv.chosen_comparable {s : LogState ν ε} (h : Inv tm Q s) {t t' : ℕ} {X Y : List ε}
    (hX : Chosen tm Q s t X) (hY : Chosen tm Q s t' Y) : X <+: Y ∨ Y <+: X := by
  rcases le_total t t' with htt | htt
  · exact List.prefix_or_prefix_of_prefix (h.chosen_chain hX (h.leader_of_own hY.1) htt) hY.1.1
  · exact List.prefix_or_prefix_of_prefix hX.1.1 (h.chosen_chain hY (h.leader_of_own hX.1) htt)

/-- A node that acknowledged a chosen prefix holds it. -/
theorem Inv.chosen_log {s : LogState ν ε} (h : Inv tm Q s) {t : ℕ} {X : List ε} {m : ν}
    (hX : Chosen tm Q s t X) (hk : X.length ≤ s.acked t m) : X <+: s.log m :=
  (h.acked_log hX.1 hk).resolve_right hX.not_dead

/-- A move takes nothing out of a log that was chosen in a term its node has reached. -/
theorem Step.kept {s s' : LogState ν ε} (hs : Step tm Q s s') (h : Inv tm Q s) {m : ν} {t : ℕ}
    {X Y : List ε} (hX : Chosen tm Q s t X) (ht : t ≤ s.term m) (hY : Y <+: X)
    (hlog : Y <+: s.log m) : Y <+: s'.log m := by
  cases hs with
  | append c e hl he =>
      by_cases hm : m = c
      · subst hm
        simp only [LogState.append, Function.update_self]
        exact hlog.trans (List.prefix_append _ _)
      · simp only [LogState.append, Function.update_of_ne hm]
        exact hlog
  | cut n L hl hL keep =>
      by_cases hm : m = n
      · subst hm
        simp only [LogState.setLog, Function.update_self]
        exact keep Y hlog (hY.trans (h.chosen_chain hX hl ht))
      · simp only [LogState.setLog, Function.update_of_ne hm]
        exact hlog
  | extend n L hL hc =>
      by_cases hm : m = n
      · subst hm
        simp only [LogState.setLog, Function.update_self]
        exact hlog.trans hL
      · simp only [LogState.setLog, Function.update_of_ne hm]
        exact hlog
  | _ => exact hlog

/-- A run takes nothing out of a log that was chosen in a term its node has reached. -/
theorem Steps.kept {s s' : LogState ν ε} (hs : Steps tm Q s s') (h : Inv tm Q s) {m : ν} {t : ℕ}
    {X Y : List ε} (hX : Chosen tm Q s t X) (ht : t ≤ s.term m) (hY : Y <+: X)
    (hlog : Y <+: s.log m) : Y <+: s'.log m := by
  induction hs with
  | refl => exact hlog
  | tail hss hstep ih =>
      have hg := Steps.grows hss h
      exact hstep.kept (Steps.inv hss h) (hX.grows hg) (ht.trans (hg.term m)) hY ih

/-! ## Committed prefixes -/

variable (tm Q) in
/-- The first `k` entries of the log `L` are those of a prefix chosen in term `t` or before. -/
def CommittedUpTo (s : LogState ν ε) (t : ℕ) (L : List ε) (k : ℕ) : Prop :=
  k = 0 ∨ ∃ t' X, Chosen tm Q s t' X ∧ t' ≤ t ∧ k ≤ X.length ∧ X.take k <+: L

variable (tm Q) in
/-- The entry `e` is **settled** at position `k`, counted from one: a chosen prefix has it there. -/
def Settled (s : LogState ν ε) (k : ℕ) (e : ε) : Prop :=
  ∃ t X, Chosen tm Q s t X ∧ 0 < k ∧ X[k - 1]? = some e

theorem CommittedUpTo.le_length {s : LogState ν ε} {t k : ℕ} {L : List ε}
    (h : CommittedUpTo tm Q s t L k) : k ≤ L.length := by
  rcases h with rfl | ⟨t', X, -, -, hk, hL⟩
  · exact Nat.zero_le _
  · have hlen := hL.length_le
    rwa [List.length_take, min_eq_left hk] at hlen

theorem CommittedUpTo.mono {s : LogState ν ε} {t k j : ℕ} {L : List ε}
    (h : CommittedUpTo tm Q s t L k) (hj : j ≤ k) : CommittedUpTo tm Q s t L j := by
  rcases h with rfl | ⟨t', X, hX, ht, hk, hL⟩
  · exact Or.inl (Nat.le_zero.mp hj)
  · exact Or.inr ⟨t', X, hX, ht, hj.trans hk, (List.take_prefix_take_left hj).trans hL⟩

theorem take_eq_take {X L : List ε} {k : ℕ} (hk : k ≤ X.length) (hL : X.take k <+: L) :
    X.take k = L.take k := by
  rw [List.prefix_iff_eq_take.mp hL, List.length_take, min_eq_left hk]

/-- It carries over to a log that has those entries too, in a term that is no earlier. -/
theorem CommittedUpTo.transfer {s : LogState ν ε} {t t' k : ℕ} {L M : List ε}
    (h : CommittedUpTo tm Q s t L k) (ht : t ≤ t') (hM : L.take k <+: M) :
    CommittedUpTo tm Q s t' M k := by
  rcases h with rfl | ⟨t₁, X, hX, ht₁, hk, hL⟩
  · exact Or.inl rfl
  · refine Or.inr ⟨t₁, X, hX, ht₁.trans ht, hk, ?_⟩
    rw [take_eq_take hk hL]
    exact hM

theorem CommittedUpTo.grows {s s' : LogState ν ε} {t k : ℕ} {L M : List ε}
    (h : CommittedUpTo tm Q s t L k) (hg : Grows s s') (hM : L <+: M) :
    CommittedUpTo tm Q s' t M k := by
  rcases h with rfl | ⟨t', X, hX, ht, hk, hL⟩
  · exact Or.inl rfl
  · exact Or.inr ⟨t', X, hX.grows hg, ht, hk, hL.trans hM⟩

/-- A run takes nothing out of a node's log that is committed by the node's term. -/
theorem CommittedUpTo.take_kept {s s' : LogState ν ε} {m : ν} {k : ℕ} (hs : Steps tm Q s s')
    (h : Inv tm Q s) (hk : CommittedUpTo tm Q s (s.term m) (s.log m) k) :
    (s.log m).take k <+: s'.log m := by
  rcases hk with rfl | ⟨t', X, hX, ht, hk, hL⟩
  · exact List.nil_prefix
  · rw [← take_eq_take hk hL]
    exact hs.kept h hX ht (List.take_prefix k X) hL

/-- What a node's log has committed by the node's term stays committed in it. -/
theorem CommittedUpTo.kept {s s' : LogState ν ε} {m : ν} {k : ℕ} (hs : Steps tm Q s s')
    (h : Inv tm Q s) (hk : CommittedUpTo tm Q s (s.term m) (s.log m) k) :
    CommittedUpTo tm Q s' (s'.term m) (s'.log m) k :=
  have hg := hs.grows h
  (hk.grows hg (List.prefix_refl _)).transfer (hg.term m) (hk.take_kept hs h)

/-- What is committed by a term is in the chain of the term of every leader since. -/
theorem CommittedUpTo.chain {s : LogState ν ε} {t t' k : ℕ} {L : List ε} (h : Inv tm Q s)
    (hk : CommittedUpTo tm Q s t L k) (hl : s.leader t' ≠ none) (ht : t ≤ t') :
    L.take k <+: s.chain t' := by
  rcases hk with rfl | ⟨t₁, X, hX, ht₁, hk, hL⟩
  · exact List.nil_prefix
  · rw [← take_eq_take hk hL]
    exact (List.take_prefix k X).trans (h.chosen_chain hX hl (ht₁.trans ht))

/-- The entries of a committed prefix are settled. -/
theorem CommittedUpTo.settled {s : LogState ν ε} {t k j : ℕ} {L : List ε} {e : ε}
    (h : CommittedUpTo tm Q s t L k) (hj : 0 < j) (hjk : j ≤ k) (he : L[j - 1]? = some e) :
    Settled tm Q s j e := by
  rcases h with rfl | ⟨t', X, hX, ht, hk, hL⟩
  · omega
  · refine ⟨t', X, hX, hj, ?_⟩
    obtain ⟨Y, rfl⟩ := hL
    rw [List.getElem?_append_left (by rw [List.length_take]; omega),
      List.getElem?_take_of_lt (by omega)] at he
    exact he

theorem Settled.grows {s s' : LogState ν ε} {k : ℕ} {e : ε} (h : Settled tm Q s k e)
    (hg : Grows s s') : Settled tm Q s' k e := by
  obtain ⟨t, X, hX, hk, he⟩ := h
  exact ⟨t, X, hX.grows hg, hk, he⟩

/-- **State machine safety.** At most one entry is settled at a position. -/
theorem Settled.unique {s : LogState ν ε} (h : Inv tm Q s) {k : ℕ} {e e' : ε}
    (he : Settled tm Q s k e) (he' : Settled tm Q s k e') : e = e' := by
  obtain ⟨t, X, hX, -, hXe⟩ := he
  obtain ⟨t', Y, hY, -, hYe⟩ := he'
  rcases h.chosen_comparable hX hY with ⟨Z, rfl⟩ | ⟨Z, rfl⟩
  · rw [List.getElem?_append_left (List.getElem?_eq_some_iff.mp hXe).1, hXe] at hYe
    exact Option.some.inj hYe
  · rw [List.getElem?_append_left (List.getElem?_eq_some_iff.mp hYe).1, hYe] at hXe
    exact (Option.some.inj hXe).symm

end steps

end NanoFabric.Found.ReplicatedLog
