import NanoFabric.Found.ReplicatedLog
import NanoFabric.Raft.Cluster
import NanoFabric.Raft.LogOps

/-!
# The blocks of a node as moves of the abstract protocol

One node against `Found.ReplicatedLog`: the abstract log of a node is its log with what it has
compacted put back, and each durable effect of a block is some moves of the node.

* `Holds`, `At` — what a node has in memory, or in storage, of its abstract term, votes and log.
* `Moves` — moves of one node, seen from the others.
* `Tracks` — an effect sequence, and the moves each effect stands for; cut short by a crash it is
  still one (`Tracks.take`).
* `Changes`, `Emits`, `Follows` — a block, tracked from the node and storage it starts with to those
  it leaves: first what changes terms, votes and logs, then what applies and compacts.
* `At.changes_…`, `At.emits_…`, `At.follows_…` — each block follows.
-/

namespace NanoFabric.Raft

open Found Found.ReplicatedLog

variable {N P : Type} [DecidableEq N]

/-- The quorums of a cluster. -/
abbrev Config.quorums (cfg : Config N) : QuorumSystem N := QuorumSystem.majority cfg.members

/-- The abstract state of a cluster. -/
abbrev AbstractLog (N P : Type) := LogState N (LogEntry P)

/-- A run of moves of the abstract protocol. -/
abbrev Config.Moved (cfg : Config N) (s s' : AbstractLog N P) : Prop :=
  Steps LogEntry.term cfg.quorums s s'

section states

variable (cfg : Config N) (s : AbstractLog N P)

/-- The abstract invariant, with what the code's entries add to it: positions are indexes, terms
are positive, and a leader has acknowledged its own log. -/
structure Sound : Prop where
  inv : Inv LogEntry.term cfg.quorums s
  aligned : ∀ t, Aligned (s.chain t)
  pos : ∀ {t e}, e ∈ s.chain t → 0 < e.term
  self_acked : ∀ {t n}, s.leader t = some n → (s.chain t).length ≤ s.acked t n

/-- A term, a vote, a log and the snapshot before it are those of the abstract node `n`. -/
structure Holds (n : N) (t : ℕ) (votedFor : Option N) (L : List (LogEntry P))
    (snapIndex snapshotTerm : ℕ) : Prop where
  term : s.term n = t
  voted : ∀ v, votedFor = some v → s.vote n t v
  le : snapIndex ≤ (s.log n).length
  log : L = (s.log n).drop snapIndex
  snapTerm : snapshotTerm = lastTerm LogEntry.term ((s.log n).take snapIndex)

/-- A node in memory. -/
abbrev HoldsNode (n : N) (nd : RaftNode N P) : Prop :=
  Holds s n nd.currentTerm nd.votedFor nd.log nd.snapshotIndex nd.snapshotTerm

/-- A node in storage. -/
abbrev HoldsDisk (n : N) (d : RaftStorage N P) : Prop :=
  Holds s n d.currentTerm d.votedFor d.raftLog d.lastIncludedIndex d.lastIncludedTerm

/-- A node between two blocks, in memory and in storage. -/
structure At (n : N) (nd : RaftNode N P) (d : RaftStorage N P) : Prop where
  sound : Sound cfg s
  node : HoldsNode s n nd
  disk : HoldsDisk s n d
  snap : d.lastIncludedIndex = nd.snapshotIndex

end states

variable {cfg : Config N} {s s' : AbstractLog N P} {n : N} {nd nd' : RaftNode N P}
  {d : RaftStorage N P}

theorem Sound.mem_chain_of_mem_log (h : Sound cfg s) {m : N} {i : ℕ} {e : LogEntry P}
    (he : (s.log m)[i]? = some e) : (s.chain e.term)[i]? = some e := by
  have hi := (List.getElem?_eq_some_iff.mp he).1
  have htake : (s.log m).take i ++ [e] <+: s.log m := by
    rw [← (List.getElem?_eq_some_iff.mp he).2, List.take_append_getElem hi]
    exact List.take_prefix _ _
  refine getElem?_mono (h.inv.log_backed m _ e htake) ?_
  rw [List.getElem?_append_right (by simp)]
  simp [hi.le]

theorem Sound.mem_chain_of_mem_chain (h : Sound cfg s) {t i : ℕ} {e : LogEntry P}
    (he : (s.chain t)[i]? = some e) : (s.chain e.term)[i]? = some e := by
  have hi := (List.getElem?_eq_some_iff.mp he).1
  have htake : (s.chain t).take i ++ [e] <+: s.chain t := by
    rw [← (List.getElem?_eq_some_iff.mp he).2, List.take_append_getElem hi]
    exact List.take_prefix _ _
  refine getElem?_mono (h.inv.chain_backed t _ e htake) ?_
  rw [List.getElem?_append_right (by simp)]
  simp [hi.le]

/-- A log and a chain hold the same entry where they hold entries of one term. -/
theorem Sound.eq_of_term_eq (h : Sound cfg s) {m : N} {t i : ℕ} {a b : LogEntry P}
    (ha : (s.log m)[i]? = some a) (hb : (s.chain t)[i]? = some b) (hab : a.term = b.term) :
    a = b := by
  have ha' := h.mem_chain_of_mem_log ha
  rw [hab] at ha'
  exact Option.some.inj (ha'.symm.trans (h.mem_chain_of_mem_chain hb))

/-- They agree up to such a position. -/
theorem Sound.take_eq_of_term_eq (h : Sound cfg s) {m : N} {t i : ℕ} {a b : LogEntry P}
    (ha : (s.log m)[i]? = some a) (hb : (s.chain t)[i]? = some b) (hab : a.term = b.term) :
    (s.log m).take (i + 1) = (s.chain t).take (i + 1) := by
  have hi := (List.getElem?_eq_some_iff.mp ha).1
  have hj := (List.getElem?_eq_some_iff.mp hb).1
  have hL := List.take_append_getElem hi
  have hM := List.take_append_getElem hj
  rw [← hL, ← hM]
  refine Backed.matching (h.inv.log_backed m) (h.inv.chain_backed t) (hL ▸ List.take_prefix _ _)
    (hM ▸ List.take_prefix _ _) (by simp [hi.le, hj.le]) ?_
  rw [(List.getElem?_eq_some_iff.mp ha).2, (List.getElem?_eq_some_iff.mp hb).2, hab]

theorem Sound.aligned_log (h : Sound cfg s) (m : N) : Aligned (s.log m) :=
  fun i e he => h.aligned e.term i e (h.mem_chain_of_mem_log he)

theorem Sound.pos_log (h : Sound cfg s) {m : N} {e : LogEntry P} (he : e ∈ s.log m) :
    0 < e.term := by
  obtain ⟨i, hi⟩ := List.mem_iff_getElem?.mp he
  exact h.pos (List.mem_of_getElem? (h.mem_chain_of_mem_log hi))

/-- What the moves of a node do not touch is as sound as before. -/
theorem Sound.of_same (h : Sound cfg s) (hinv : Inv LogEntry.term cfg.quorums s')
    (hchain : s'.chain = s.chain) (hleader : s'.leader = s.leader) (hacked : s'.acked = s.acked) :
    Sound cfg s' where
  inv := hinv
  aligned t := hchain ▸ h.aligned t
  pos he := h.pos (hchain ▸ he)
  self_acked hl := by
    rw [hchain, hacked]
    exact h.self_acked (hleader ▸ hl)

theorem Sound.init : Sound cfg (LogState.init N (LogEntry P)) where
  inv := Inv.init
  aligned _ i e he := by simp [LogState.init] at he
  pos he := by simp [LogState.init] at he
  self_acked hl := by simp [LogState.init] at hl

/-! ## Moves of one node -/

section moves

variable (cfg n)

/-- Moves of node `n`, one of them perhaps a vote: the other nodes and the leaders are as they
were. -/
structure Moves (s s' : AbstractLog N P) (vote : Option (ℕ × N)) : Prop where
  moved : cfg.Moved s s'
  sound : Sound cfg s'
  term : ∀ m, m ≠ n → s'.term m = s.term m
  log : ∀ m, m ≠ n → s'.log m = s.log m
  leader : s'.leader = s.leader
  vote : ∀ m t v, s'.vote m t v ↔ s.vote m t v ∨ m = n ∧ vote = some (t, v)

end moves

theorem Moves.refl (h : Sound cfg s) : Moves cfg n s s none :=
  ⟨Relation.ReflTransGen.refl, h, fun _ _ => rfl, fun _ _ => rfl, rfl, by simp⟩

/-- Moves without a vote come before moves with one. -/
theorem Moves.trans {s₁ : AbstractLog N P} {w : Option (ℕ × N)} (h : Moves cfg n s s₁ none)
    (h' : Moves cfg n s₁ s' w) : Moves cfg n s s' w where
  moved := h.moved.trans h'.moved
  sound := h'.sound
  term m hm := (h'.term m hm).trans (h.term m hm)
  log m hm := (h'.log m hm).trans (h.log m hm)
  leader := h'.leader.trans h.leader
  vote m t v := by
    rw [h'.vote, h.vote]
    simp

theorem Moves.grows {w : Option (ℕ × N)} (h : Moves cfg n s s' w) (hs : Sound cfg s) :
    Grows s s' := Steps.grows h.moved hs.inv

theorem Moves.advance (h : Sound cfg s) (n : N) {t : ℕ} (ht : s.term n ≤ t) :
    Moves cfg n s (s.advance n t) none where
  moved := .single (.advance n t ht)
  sound := h.of_same (h.inv.advance n t ht) rfl rfl rfl
  term m hm := Function.update_of_ne hm ..
  log _ _ := rfl
  leader := rfl
  vote := by simp [LogState.advance]

theorem Moves.campaign (h : Sound cfg s) (n : N) {t : ℕ} (ht : s.term n < t) :
    Moves cfg n s (s.campaign n t) (some (t, n)) where
  moved := .single (.campaign n t ht)
  sound := h.of_same (h.inv.campaign n t ht) rfl rfl rfl
  term m hm := Function.update_of_ne hm ..
  log _ _ := rfl
  leader := rfl
  vote m t' v := by
    simp only [LogState.campaign, Option.some.injEq, Prod.mk.injEq]
    tauto

theorem Moves.grant (h : Sound cfg s) {n v : N} (hv : s.vote v (s.term n) v)
    (hlog : UpToDate LogEntry.term (s.ticket v (s.term n)) (s.log n)) :
    Moves cfg n s (s.grant n v) (some (s.term n, v)) where
  moved := .single (.grant n v hv hlog)
  sound := h.of_same (h.inv.grant n v hv hlog) rfl rfl rfl
  term _ _ := rfl
  log _ _ := rfl
  leader := rfl
  vote m t' v' := by
    simp only [LogState.grant, Option.some.injEq, Prod.mk.injEq]
    tauto

theorem Moves.setLog (h : Sound cfg s) {n : N} {L : List (LogEntry P)}
    (hstep : Step LogEntry.term cfg.quorums s (s.setLog n L)) :
    Moves cfg n s (s.setLog n L) none where
  moved := .single hstep
  sound := h.of_same (hstep.inv h.inv) rfl rfl rfl
  term _ _ := rfl
  log m hm := Function.update_of_ne hm ..
  leader := rfl
  vote := by simp [LogState.setLog]

theorem Moves.ack (h : Sound cfg s) {n : N} {L : List (LogEntry P)}
    (hc : L <+: s.chain (s.term n)) (hL : L <+: s.log n) : Moves cfg n s (s.ack n L) none where
  moved := .single (.ack n L hc hL)
  sound :=
    { inv := h.inv.ack n L hc hL
      aligned := h.aligned
      pos := h.pos
      self_acked := fun {t m} hl => by
        have hstep : Step LogEntry.term cfg.quorums s (s.ack n L) := .ack n L hc hL
        exact (h.self_acked hl).trans ((hstep.grows h.inv).acked t m) }
  term _ _ := rfl
  log _ _ := rfl
  leader := rfl
  vote := by simp [LogState.ack]

/-- The leader appends an entry and acknowledges its log. -/
theorem Moves.append (h : Sound cfg s) {n : N} {e : LogEntry P}
    (hl : s.leader (s.term n) = some n) (he : e.term = s.term n)
    (hidx : e.index = (s.log n).length + 1) (hpos : 0 < e.term) :
    Moves cfg n s ((s.append n e).ack n (s.log n ++ [e])) none := by
  have hlog : s.log n = s.chain (s.term n) := h.inv.leader_log hl
  have hstep : Step LogEntry.term cfg.quorums s (s.append n e) := .append n e hl he
  have hinv := hstep.inv h.inv
  have hchain : (s.append n e).chain (s.term n) = s.log n ++ [e] := by
    simp [LogState.append, hlog]
  have hother : ∀ t, t ≠ s.term n → (s.append n e).chain t = s.chain t := fun t ht =>
    Function.update_of_ne ht ..
  have hown : (s.append n e).log n = s.log n ++ [e] := by simp [LogState.append]
  have hack : Step LogEntry.term cfg.quorums (s.append n e)
      ((s.append n e).ack n (s.log n ++ [e])) :=
    .ack n _ (hchain ▸ List.prefix_rfl) (hown ▸ List.prefix_rfl)
  refine ⟨.tail (.single hstep) hack, ⟨hack.inv hinv, fun t => ?_, fun {t e'} he' => ?_,
    fun {t m} hm => ?_⟩, fun _ _ => rfl, fun m hm => Function.update_of_ne hm .., rfl,
    by simp [LogState.append, LogState.ack]⟩
  · show Aligned ((s.append n e).chain t)
    by_cases ht : t = s.term n
    · subst ht
      rw [hchain]
      intro i a ha
      rcases Nat.lt_or_ge i (s.log n).length with hi | hi
      · rw [List.getElem?_append_left hi] at ha
        exact h.aligned_log n i a ha
      · rw [List.getElem?_append_right hi] at ha
        obtain ⟨hi', rfl⟩ := List.getElem?_eq_some_iff.mp ha
        simp only [List.length_singleton] at hi'
        simp only [List.getElem_singleton]
        omega
    · rw [hother t ht]
      exact h.aligned t
  · have he'' : e' ∈ (s.append n e).chain t := he'
    by_cases ht : t = s.term n
    · subst ht
      rw [hchain] at he''
      rcases List.mem_append.mp he'' with he'' | he''
      · exact h.pos_log he''
      · rw [List.mem_singleton.mp he'']
        exact hpos
    · rw [hother t ht] at he''
      exact h.pos he''
  · have hm' : s.leader t = some m := hm
    show ((s.append n e).chain t).length ≤ ((s.append n e).ack n (s.log n ++ [e])).acked t m
    by_cases ht : t = s.term n
    · subst ht
      obtain rfl := Option.some.inj (hl.symm.trans hm')
      rw [hchain]
      simp [LogState.ack, LogState.append]
    · rw [hother t ht]
      exact (h.self_acked hm').trans (hack.grows hinv |>.acked t m)

/-! ## Effects -/

/-- The vote an effect puts on record. -/
def Effect.vote : Effect N P → Option (ℕ × N)
  | .setState t (some v) => some (t, v)
  | _ => none

/-- Whether an effect hands an entry to the state machine or stores a snapshot. -/
def Effect.isOutput : Effect N P → Bool
  | .apply _ _ => true
  | .saveSnapshot _ _ _ => true
  | _ => false

section tracks

variable (cfg n)

/-- Each effect stands for moves of the node that bring the abstract node to what is stored then;
more moves may follow the last effect. -/
inductive Tracks : AbstractLog N P → RaftStorage N P → List (Effect N P) → AbstractLog N P → Prop
  | nil {s s' : AbstractLog N P} {d : RaftStorage N P} (hm : Moves cfg n s s' none)
      (hd : HoldsDisk s' n d) : Tracks s d [] s'
  | cons {s s₁ s' : AbstractLog N P} {d : RaftStorage N P} {e : Effect N P}
      {effs : List (Effect N P)} (hm : Moves cfg n s s₁ e.vote)
      (hd : HoldsDisk s₁ n (d.perform e)) (h : Tracks s₁ (d.perform e) effs s') :
      Tracks s d (e :: effs) s'

/-- The part of a block that changes terms, votes and logs. -/
structure Changes (s : AbstractLog N P) (d : RaftStorage N P) (effs : List (Effect N P))
    (s' : AbstractLog N P) (nd' : RaftNode N P) : Prop where
  tracks : Tracks cfg n s d effs s'
  noOutput : ∀ e ∈ effs, e.isOutput = false
  after : At cfg s' n nd' (effs.foldl RaftStorage.perform d)

/-- The part of a block that applies and compacts: the abstract node stays as it is. -/
structure Emits (s : AbstractLog N P) (d : RaftStorage N P) (effs : List (Effect N P))
    (nd' : RaftNode N P) : Prop where
  output : ∀ e ∈ effs, e.isOutput = true
  disk : ∀ k, HoldsDisk s n ((effs.take k).foldl RaftStorage.perform d)
  after : At cfg s n nd' (effs.foldl RaftStorage.perform d)

/-- A block from its node and storage to those it leaves: changes first, then outputs. -/
structure Follows (s : AbstractLog N P) (d : RaftStorage N P) (effs : List (Effect N P))
    (s' : AbstractLog N P) (nd' : RaftNode N P) : Prop where
  split : ∃ changes outputs nd₁, effs = changes ++ outputs ∧ Changes cfg n s d changes s' nd₁ ∧
    Emits cfg n s' (changes.foldl RaftStorage.perform d) outputs nd'

end tracks

theorem Tracks.prepend {s₁ : AbstractLog N P} {effs : List (Effect N P)}
    (hm : Moves cfg n s s₁ none) (h : Tracks cfg n s₁ d effs s') : Tracks cfg n s d effs s' := by
  cases h with
  | nil hm' hd => exact .nil (hm.trans hm') hd
  | cons hm' hd h => exact .cons (hm.trans hm') hd h

theorem Tracks.append {s₁ : AbstractLog N P} {effs effs' : List (Effect N P)}
    (h : Tracks cfg n s d effs s₁)
    (h' : Tracks cfg n s₁ (effs.foldl RaftStorage.perform d) effs' s') :
    Tracks cfg n s d (effs ++ effs') s' := by
  induction h with
  | nil hm _ => exact h'.prepend hm
  | cons hm hd _ ih => exact .cons hm hd (ih h')

/-- A crash in the middle of a block leaves the effects done so far tracked. -/
theorem Tracks.take {effs : List (Effect N P)} (h : Tracks cfg n s d effs s')
    (hs : Sound cfg s) (hd : HoldsDisk s n d) (k : ℕ) :
    ∃ s'', Tracks cfg n s d (effs.take k) s'' := by
  induction h generalizing k with
  | nil hm hd' => exact ⟨_, by rw [List.take_nil]; exact .nil hm hd'⟩
  | @cons s s₁ s' d e effs hm hd' _ ih =>
      cases k with
      | zero => exact ⟨s, .nil (Moves.refl hs) hd⟩
      | succ k => exact (ih hm.sound hd' k).imp fun _ h => .cons hm hd' h

theorem Tracks.moved {effs : List (Effect N P)} (h : Tracks cfg n s d effs s') :
    cfg.Moved s s' := by
  induction h with
  | nil hm _ => exact hm.moved
  | cons hm _ _ ih => exact hm.moved.trans ih

theorem Tracks.sound {effs : List (Effect N P)} (h : Tracks cfg n s d effs s') :
    Sound cfg s' := by
  induction h with
  | nil hm _ => exact hm.sound
  | cons _ _ _ ih => exact ih

theorem Tracks.disk {effs : List (Effect N P)} (h : Tracks cfg n s d effs s') :
    HoldsDisk s' n (effs.foldl RaftStorage.perform d) := by
  induction h with
  | nil _ hd => exact hd
  | cons _ _ _ ih => exact ih

theorem Tracks.term {effs : List (Effect N P)} (h : Tracks cfg n s d effs s') {m : N}
    (hm : m ≠ n) : s'.term m = s.term m := by
  induction h with
  | nil hmv _ => exact hmv.term m hm
  | cons hmv _ _ ih => exact ih.trans (hmv.term m hm)

theorem Tracks.log {effs : List (Effect N P)} (h : Tracks cfg n s d effs s') {m : N}
    (hm : m ≠ n) : s'.log m = s.log m := by
  induction h with
  | nil hmv _ => exact hmv.log m hm
  | cons hmv _ _ ih => exact ih.trans (hmv.log m hm)

theorem Tracks.leader {effs : List (Effect N P)} (h : Tracks cfg n s d effs s') :
    s'.leader = s.leader := by
  induction h with
  | nil hm _ => exact hm.leader
  | cons hm _ _ ih => exact ih.trans hm.leader

theorem Tracks.vote {effs : List (Effect N P)} (h : Tracks cfg n s d effs s') (m : N) (t : ℕ)
    (v : N) : s'.vote m t v ↔ s.vote m t v ∨ m = n ∧ Effect.setState t (some v) ∈ effs := by
  induction h with
  | nil hm _ =>
      rw [hm.vote]
      simp
  | @cons s s₁ s' d e effs hm _ _ ih =>
      have he : e.vote = some (t, v) ↔ e = .setState t (some v) := by
        rcases e with ⟨t', _ | v'⟩ | _ | _ | _ | _ <;> simp [Effect.vote]
      rw [ih, hm.vote, he, List.mem_cons, eq_comm (a := e)]
      tauto

theorem Tracks.grows {effs : List (Effect N P)} (h : Tracks cfg n s d effs s')
    (hs : Sound cfg s) : Grows s s' := Steps.grows h.moved hs.inv

/-- A node that starts from its storage holds what the storage holds. -/
theorem At.boot (hs : Sound cfg s) (hd : HoldsDisk s n d) : At cfg s n (RaftNode.boot d) d := by
  have hal := hs.aligned_log n
  rw [RaftNode.boot_eq]
  refine ⟨hs, ⟨hd.term, hd.voted, hd.le, ?_, ?_⟩, hd, rfl⟩
  · show (if d.lastIncludedIndex = 0 then d.raftLog else _) = _
    split_ifs
    · exact hd.log
    · rw [hd.log]
      exact hal.filter_lt_index le_rfl
  · show (if d.lastIncludedIndex = 0 then 0 else d.lastIncludedTerm) = _
    split_ifs with h0
    · rw [h0]
      rfl
    · exact hd.snapTerm

/-- A block without effects. -/
theorem Changes.of_moves (hm : Moves cfg n s s' none) (h : At cfg s' n nd' d) :
    Changes cfg n s d [] s' nd' := ⟨.nil hm h.disk, by simp, h⟩

/-- A block with one effect. -/
theorem Changes.one {e : Effect N P} (hm : Moves cfg n s s' e.vote) (hout : e.isOutput = false)
    (h : At cfg s' n nd' (d.perform e)) : Changes cfg n s d [e] s' nd' :=
  ⟨.cons hm h.disk (.nil (Moves.refl h.sound) h.disk), by simpa using hout, h⟩

theorem Changes.append {s₁ : AbstractLog N P} {nd₁ : RaftNode N P} {effs effs' : List (Effect N P)}
    (h : Changes cfg n s d effs s₁ nd₁)
    (h' : Changes cfg n s₁ (effs.foldl RaftStorage.perform d) effs' s' nd') :
    Changes cfg n s d (effs ++ effs') s' nd' :=
  ⟨h.tracks.append h'.tracks, fun e he => (List.mem_append.mp he).elim (h.noOutput e)
    (h'.noOutput e), List.foldl_append ▸ h'.after⟩

theorem At.emits_nil (h : At cfg s n nd d) : Emits cfg n s d [] nd :=
  ⟨by simp, fun k => by rw [List.take_nil]; exact h.disk, h⟩

theorem Emits.append {nd₁ : RaftNode N P} {effs effs' : List (Effect N P)}
    (h : Emits cfg n s d effs nd₁)
    (h' : Emits cfg n s (effs.foldl RaftStorage.perform d) effs' nd') :
    Emits cfg n s d (effs ++ effs') nd' := by
  refine ⟨fun e he => (List.mem_append.mp he).elim (h.output e) (h'.output e), fun k => ?_,
    List.foldl_append ▸ h'.after⟩
  rw [List.take_append, List.foldl_append]
  rcases Nat.lt_or_ge k effs.length with hk | hk
  · rw [Nat.sub_eq_zero_of_le hk.le, List.take_zero]
    exact h.disk k
  · rw [List.take_of_length_le hk]
    exact h'.disk _

theorem Changes.emits {nd₁ : RaftNode N P} {effs effs' : List (Effect N P)}
    (h : Changes cfg n s d effs s' nd₁)
    (h' : Emits cfg n s' (effs.foldl RaftStorage.perform d) effs' nd') :
    Follows cfg n s d (effs ++ effs') s' nd' := ⟨effs, effs', nd₁, rfl, h, h'⟩

theorem Changes.follows {effs : List (Effect N P)} (h : Changes cfg n s d effs s' nd') :
    Follows cfg n s d effs s' nd' := by
  simpa using h.emits h.after.emits_nil

/-- Outputs are tracked without a move. -/
theorem Emits.tracks : ∀ {effs : List (Effect N P)} {d : RaftStorage N P},
    Emits cfg n s d effs nd' → Tracks cfg n s d effs s
  | [], _, h => .nil (Moves.refl h.after.sound) h.after.disk
  | e :: effs, d, h => by
      have hvote : e.vote = none := by
        have hout := h.output e List.mem_cons_self
        cases e <;> first | rfl | cases hout
      have htail : Emits cfg n s (d.perform e) effs nd' :=
        ⟨fun e' he' => h.output e' (List.mem_cons_of_mem _ he'), fun k => h.disk (k + 1), h.after⟩
      exact .cons (hvote ▸ Moves.refl h.after.sound) (htail.disk 0) htail.tracks

theorem Follows.tracks {effs : List (Effect N P)} (h : Follows cfg n s d effs s' nd') :
    Tracks cfg n s d effs s' := by
  obtain ⟨changes, outputs, nd₁, rfl, hc, he⟩ := h.split
  exact hc.tracks.append he.tracks

theorem Follows.after {effs : List (Effect N P)} (h : Follows cfg n s d effs s' nd') :
    At cfg s' n nd' (effs.foldl RaftStorage.perform d) := by
  obtain ⟨changes, outputs, nd₁, rfl, hc, he⟩ := h.split
  rw [List.foldl_append]
  exact he.after

/-- A block cut short by a crash is tracked: before its first output, or to its last state. -/
theorem Follows.take {effs : List (Effect N P)} (h : Follows cfg n s d effs s' nd')
    (hs : Sound cfg s) (hd : HoldsDisk s n d) (k : ℕ) :
    ∃ s'', Tracks cfg n s d (effs.take k) s'' ∧
      (s'' = s' ∨ ∀ e ∈ effs.take k, e.isOutput = false) := by
  obtain ⟨changes, outputs, nd₁, rfl, hc, he⟩ := h.split
  rw [List.take_append]
  rcases Nat.lt_or_ge k changes.length with hk | hk
  · rw [Nat.sub_eq_zero_of_le hk.le, List.take_zero, List.append_nil]
    obtain ⟨s'', ht⟩ := hc.tracks.take hs hd k
    exact ⟨s'', ht, Or.inr fun e he => hc.noOutput e (List.mem_of_mem_take he)⟩
  · rw [List.take_of_length_le hk]
    have hcut : Emits cfg n s' (changes.foldl RaftStorage.perform d)
        (outputs.take (k - changes.length)) (RaftNode.boot
          ((outputs.take (k - changes.length)).foldl RaftStorage.perform
            (changes.foldl RaftStorage.perform d))) := by
      refine ⟨fun e he' => he.output e (List.mem_of_mem_take he'), fun j => ?_,
        At.boot hc.after.sound (he.disk _)⟩
      rw [List.take_take]
      exact he.disk _
    exact ⟨s', hc.tracks.append hcut.tracks, Or.inl rfl⟩

/-- What a node holds says nothing of the rest of its memory. -/
theorem At.congr (h : At cfg s n nd d) (hterm : nd'.currentTerm = nd.currentTerm)
    (hvote : nd'.votedFor = nd.votedFor) (hlog : nd'.log = nd.log)
    (hindex : nd'.snapshotIndex = nd.snapshotIndex) (hst : nd'.snapshotTerm = nd.snapshotTerm) :
    At cfg s n nd' d := by
  refine ⟨h.sound, ?_, h.disk, by rw [hindex]; exact h.snap⟩
  unfold HoldsNode
  rw [hterm, hvote, hlog, hindex, hst]
  exact h.node

/-- The node as it is. -/
theorem At.changes_nil (h : At cfg s n nd d) : Changes cfg n s d [] s nd :=
  .of_moves (Moves.refl h.sound) h

/-! ## What a node knows of its log -/

omit [DecidableEq N] in
theorem Holds.lastLogInfo (hn : HoldsNode s n nd) (hal : Aligned (s.log n)) :
    nd.lastLogInfo = ((s.log n).length, lastTerm LogEntry.term (s.log n)) := by
  have hsplit := List.take_append_drop nd.snapshotIndex (s.log n)
  unfold RaftNode.lastLogInfo
  cases hlast : nd.log.getLast? with
  | none =>
      have hnil : (s.log n).drop nd.snapshotIndex = [] := by
        rw [← hn.log]
        exact List.getLast?_eq_none_iff.mp hlast
      rw [hnil, List.append_nil] at hsplit
      have hlen : nd.snapshotIndex = (s.log n).length :=
        le_antisymm hn.le (List.drop_eq_nil_iff.mp hnil)
      simp only [hn.snapTerm, hsplit, ← hlen]
  | some e =>
      obtain ⟨X, hX⟩ := List.getLast?_eq_some_iff.mp hlast
      obtain ⟨Y, hlog⟩ : ∃ Y, s.log n = Y ++ [e] := by
        refine ⟨(s.log n).take nd.snapshotIndex ++ X, ?_⟩
        rw [List.append_assoc, ← hX, hn.log]
        exact hsplit.symm
      have hidx : e.index = (s.log n).length := by
        rw [hal Y.length e (by rw [hlog]; simp), hlog]
        simp
      have hterm : lastTerm LogEntry.term (s.log n) = e.term := by
        rw [hlog, lastTerm_concat]
      simp only [hidx, hterm]

omit [DecidableEq N] in
theorem Holds.log_eq (hn : HoldsNode s n nd) (hsnap : nd.snapshotIndex = 0) :
    nd.log = s.log n := by
  rw [hn.log, hsnap, List.drop_zero]

omit [DecidableEq N] in
/-- What `log_term_at` reads when nothing is compacted. -/
theorem Holds.logTermAt (hn : HoldsNode s n nd) (hsnap : nd.snapshotIndex = 0) {k : ℕ}
    (hk : k ≤ (s.log n).length) :
    nd.logTermAt k = lastTerm LogEntry.term ((s.log n).take k) := by
  unfold RaftNode.logTermAt
  by_cases h0 : k = 0
  · subst h0
    rw [if_pos rfl, hn.snapTerm, hsnap]
  · rw [if_neg h0, hn.log_eq hsnap]
    have hlt : k - 1 < (s.log n).length := by omega
    have htake : (s.log n).take k = (s.log n).take (k - 1) ++ [(s.log n)[k - 1]] := by
      rw [List.take_append_getElem hlt]
      congr 1
      omega
    rw [List.getElem?_eq_getElem hlt, htake, lastTerm_concat]

theorem isLogUpToDate_iff {L M : List (LogEntry P)} {idx term : ℕ} (hidx : L.length = idx)
    (hterm : lastTerm LogEntry.term L = term) :
    isLogUpToDate idx term M.length (lastTerm LogEntry.term M) = true ↔
      UpToDate LogEntry.term L M := by
  subst hidx hterm
  unfold isLogUpToDate UpToDate
  split_ifs with hne
  · simp only [decide_eq_true_eq]
    exact ⟨Or.inl, fun h => h.resolve_right fun h' => hne h'.1⟩
  · have heq := not_not.mp hne
    simp only [decide_eq_true_eq]
    exact ⟨fun h => Or.inr ⟨heq, h⟩, fun h => (h.resolve_left fun h' => h'.ne' heq).2⟩

/-! ## Blocks that change terms and votes -/

/-- The abstract node after `_become_follower`. -/
theorem At.changes_becomeFollower (h : At cfg s n nd d) (term : ℕ) (leader : Option N) :
    Changes cfg n s d (nd.becomeFollower term leader).2
      (s.advance n (max nd.currentTerm term)) (nd.becomeFollower term leader).1 := by
  have hterm := RaftNode.becomeFollower_currentTerm nd term leader
  have hvoted := RaftNode.becomeFollower_votedFor nd term leader
  have hle : s.term n ≤ max nd.currentTerm term := by
    rw [h.node.term]
    exact le_max_left _ _
  have hadv := Moves.advance h.sound n hle
  have hself : (s.advance n (max nd.currentTerm term)).term n = max nd.currentTerm term :=
    Function.update_self ..
  have hsame : (nd.becomeFollower term leader).1.log = nd.log ∧
      (nd.becomeFollower term leader).1.snapshotIndex = nd.snapshotIndex ∧
      (nd.becomeFollower term leader).1.snapshotTerm = nd.snapshotTerm := by
    unfold RaftNode.becomeFollower
    split_ifs <;> exact ⟨rfl, rfl, rfl⟩
  -- the vote stored again is one of the same term, so it is on record
  have hvote : ∀ v, (nd.becomeFollower term leader).1.votedFor = some v →
      s.vote n (max nd.currentTerm term) v := by
    intro v hv
    rw [hvoted] at hv
    split_ifs at hv with hlt
    · rw [max_eq_left (not_lt.mp hlt)]
      exact h.node.voted v hv
  rw [RaftNode.becomeFollower_effects]
  refine Changes.one ?_ rfl ⟨hadv.sound, ?_, ?_, ?_⟩
  · refine ⟨hadv.moved, hadv.sound, hadv.term, hadv.log, hadv.leader, fun m t v => ?_⟩
    refine ⟨Or.inl, fun hv => ?_⟩
    rcases hv with hv | ⟨rfl, hv⟩
    · exact hv
    cases hvf : (nd.becomeFollower term leader).1.votedFor with
    | none =>
        rw [RaftNode.persistState, hvf] at hv
        cases hv
    | some v' =>
        rw [RaftNode.persistState, hvf] at hv
        obtain ⟨rfl, rfl⟩ := Prod.mk.inj (Option.some.inj hv)
        rw [hterm]
        exact hvote _ hvf
  · refine ⟨?_, ?_, ?_, ?_, ?_⟩
    · rw [hself, hterm]
    · rw [hterm]
      exact hvote
    · rw [hsame.2.1]
      exact h.node.le
    · rw [hsame.1, hsame.2.1]
      exact h.node.log
    · rw [hsame.2.1, hsame.2.2]
      exact h.node.snapTerm
  · refine ⟨?_, ?_, h.disk.le, h.disk.log, h.disk.snapTerm⟩
    · show _ = (nd.becomeFollower term leader).1.currentTerm
      rw [hself, hterm]
    · show ∀ v, (nd.becomeFollower term leader).1.votedFor = some v →
        s.vote n (nd.becomeFollower term leader).1.currentTerm v
      rw [hterm]
      exact hvote
  · rw [hsame.2.1]
    exact h.snap

theorem At.changes_startElection (h : At cfg s n nd d) :
    Changes cfg n s d (nd.startElection n).2 (s.campaign n (nd.currentTerm + 1))
      (nd.startElection n).1 := by
  have hlt : s.term n < nd.currentTerm + 1 := by
    rw [h.node.term]
    exact Nat.lt_succ_self _
  have hmv := Moves.campaign h.sound n hlt
  have hself : (s.campaign n (nd.currentTerm + 1)).term n = nd.currentTerm + 1 :=
    Function.update_self ..
  have hvote : ∀ v, some n = some v → (s.campaign n (nd.currentTerm + 1)).vote n
      (nd.currentTerm + 1) v := by
    rintro v ⟨⟩
    exact Or.inr ⟨rfl, rfl, rfl⟩
  exact Changes.one hmv rfl ⟨hmv.sound,
    ⟨hself, hvote, h.node.le, h.node.log, h.node.snapTerm⟩,
    ⟨hself, hvote, h.disk.le, h.disk.log, h.disk.snapTerm⟩, h.snap⟩

/-- The request of a candidate: it stands with a log of the length and last term it names. -/
def Ticket (s : AbstractLog N P) (v : N) (term lastIdx lastLogTerm : ℕ) : Prop :=
  s.vote v term v ∧ (s.ticket v term).length = lastIdx ∧
    lastTerm LogEntry.term (s.ticket v term) = lastLogTerm

omit [DecidableEq N] in
theorem Ticket.grows {v : N} {term lastIdx lastLogTerm : ℕ}
    (h : Ticket s v term lastIdx lastLogTerm) (hg : Grows s s') :
    Ticket s' v term lastIdx lastLogTerm := by
  obtain ⟨hv, hidx, hterm⟩ := h
  refine ⟨hg.vote hv, ?_, ?_⟩
  · rw [hg.ticket hv]
    exact hidx
  · rw [hg.ticket hv]
    exact hterm

theorem At.changes_grant (h : At cfg s n nd d) {req : RequestVoteRequest N}
    (hterm : nd.currentTerm = req.term)
    (hticket : Ticket s req.candidateId req.term req.lastLogIndex req.lastLogTerm)
    (hup : isLogUpToDate req.lastLogIndex req.lastLogTerm nd.lastLogInfo.1 nd.lastLogInfo.2 =
      true) :
    Changes cfg n s d [.setState nd.currentTerm (some req.candidateId)]
      (s.grant n req.candidateId) { nd with votedFor := some req.candidateId } := by
  have hst : s.term n = req.term := h.node.term.trans hterm
  rw [h.node.lastLogInfo (h.sound.aligned_log n),
    isLogUpToDate_iff hticket.2.1 hticket.2.2] at hup
  have hmv : Moves cfg n s (s.grant n req.candidateId) (some (s.term n, req.candidateId)) :=
    Moves.grant h.sound (by rw [hst]; exact hticket.1) (by rw [hst]; exact hup)
  rw [h.node.term] at hmv
  have hvote : ∀ v, some req.candidateId = some v →
      (s.grant n req.candidateId).vote n nd.currentTerm v := by
    rintro v ⟨⟩
    exact Or.inr ⟨rfl, h.node.term.symm, rfl⟩
  exact Changes.one hmv rfl ⟨hmv.sound,
    ⟨h.node.term, hvote, h.node.le, h.node.log, h.node.snapTerm⟩,
    ⟨h.node.term, hvote, h.disk.le, h.disk.log, h.disk.snapTerm⟩, h.snap⟩

/-- `handle_request_vote` keeps the log. -/
theorem At.changes_handleRequestVote (h : At cfg s n nd d) {req : RequestVoteRequest N}
    (hticket : Ticket s req.candidateId req.term req.lastLogIndex req.lastLogTerm) :
    ∃ s', Changes cfg n s d (nd.handleRequestVote req).2.1 s' (nd.handleRequestVote req).1 ∧
      s'.log n = s.log n := by
  rcases RaftNode.handleRequestVote_cases nd req with ⟨-, heq⟩ | ⟨nd', effs, hle, hnd', heq⟩
  · rw [heq]
    exact ⟨s, h.changes_nil, rfl⟩
  obtain ⟨s₁, hfol, hlog, hterm⟩ : ∃ s₁, Changes cfg n s d effs s₁ nd' ∧ s₁.log n = s.log n ∧
      nd'.currentTerm = req.term := by
    rcases hnd' with ⟨rfl, rfl, ht⟩ | ⟨-, rfl, rfl⟩
    · exact ⟨s, h.changes_nil, rfl, ht⟩
    · refine ⟨_, h.changes_becomeFollower req.term none, rfl, ?_⟩
      rw [RaftNode.becomeFollower_currentTerm, max_eq_right hle]
  rcases heq with heq | ⟨-, hup, heq⟩
  · rw [heq]
    exact ⟨s₁, hfol, hlog⟩
  · rw [heq]
    have hgrant := hfol.after.changes_grant hterm
      (hticket.grows (hfol.tracks.grows h.sound)) hup
    exact ⟨_, hfol.append hgrant, hlog⟩

/-! ## Applying and compacting -/

theorem At.emits_applyEffects (h : At cfg s n nd d) (es : Applied P) :
    Emits cfg n s d (applyEffects es) nd := by
  refine ⟨fun e he => ?_, fun k => ?_, ?_⟩
  · obtain ⟨p, -, rfl⟩ := List.mem_map.mp he
    rfl
  · rw [applyEffects, ← List.map_take]
    exact (foldl_applyEffects (es.take k) d).symm ▸ h.disk
  · rw [foldl_applyEffects]
    exact h

/-- Committing as the leader has leaves the abstract node alone. -/
theorem At.emits_followCommit (h : At cfg s n nd d) (leaderCommit : ℕ) :
    Emits cfg n s d (nd.followCommit leaderCommit).2 (nd.followCommit leaderCommit).1 := by
  unfold RaftNode.followCommit
  split_ifs
  · rw [RaftNode.applyPendingCommits_eq]
    have hcaught : At cfg s n
        { nd with commitIndex := min leaderCommit nd.log.length }.caughtUp d :=
      ⟨h.sound, h.node, h.disk, h.snap⟩
    exact hcaught.emits_applyEffects { nd with
      commitIndex := min leaderCommit nd.log.length }.uncaught
  · exact h.emits_nil

/-- A snapshot of what the log holds. -/
theorem At.emits_saveSnapshot (h : At cfg s n nd d) (hsnap : nd.snapshotIndex = 0)
    (hle : nd.lastApplied ≤ nd.log.length) :
    Emits cfg n s d
      [.saveSnapshot nd.lastApplied (nd.logTermAt nd.lastApplied) nd.stateMachine]
      (nd.onSnapshotCreated nd.lastApplied) := by
  have hal := h.sound.aligned_log n
  have hlog : nd.log = s.log n := h.node.log_eq hsnap
  have hdisk : d.raftLog = s.log n := by
    rw [h.disk.log, h.snap, hsnap, List.drop_zero]
  rw [hlog] at hle
  have hcut : (s.log n).filter (fun e => decide (nd.lastApplied < e.index)) =
      (s.log n).drop nd.lastApplied := by
    simpa using hal.filter_lt_index (Nat.zero_le nd.lastApplied)
  have hterm := h.node.logTermAt hsnap hle
  have hat : At cfg s n (nd.onSnapshotCreated nd.lastApplied) (d.perform
      (.saveSnapshot nd.lastApplied (nd.logTermAt nd.lastApplied) nd.stateMachine)) := by
    refine ⟨h.sound, ?_, ?_, rfl⟩
    · refine ⟨h.node.term, h.node.voted, hle, ?_, hterm⟩
      show nd.log.filter _ = _
      rw [hlog]
      exact hcut
    · refine ⟨h.disk.term, h.disk.voted, hle, ?_, hterm⟩
      show d.raftLog.filter _ = _
      rw [hdisk]
      exact hcut
  refine ⟨by simp [Effect.isOutput], fun k => ?_, hat⟩
  cases k with
  | zero => exact h.disk
  | succ k => rw [List.take_succ_cons, List.take_nil]; exact hat.disk

/-- A block stores no snapshot, or its node has applied no more than it has committed. -/
def Fits (nd : RaftNode N P) (effs : List (Effect N P)) : Prop :=
  (∀ k t data, Effect.saveSnapshot k t data ∉ effs) ∨ nd.lastApplied ≤ nd.commitIndex

/-- `_advance_commit_index` leaves the abstract node alone. -/
theorem At.emits_advanceCommitIndex (h : At cfg s n nd d) (threshold : ℕ) (peers : List N)
    (hsnap : nd.snapshotIndex = 0)
    (hfit : Fits nd (nd.advanceCommitIndex threshold peers).2) :
    Emits cfg n s d (nd.advanceCommitIndex threshold peers).2
      (nd.advanceCommitIndex threshold peers).1 := by
  rcases RaftNode.advanceCommitIndex_cases threshold peers nd with heq | ⟨k, hlt, hle, -, heq⟩
  · rw [heq]
    exact h.emits_nil
  rw [heq] at hfit ⊢
  have hcaught : At cfg s n { nd with commitIndex := k }.caughtUp d :=
    ⟨h.sound, h.node, h.disk, h.snap⟩
  have happly := hcaught.emits_applyEffects { nd with commitIndex := k }.uncaught
  rcases RaftNode.maybeSnapshot_cases threshold { nd with commitIndex := k }.caughtUp with
    hs | hs
  · rw [hs, List.append_nil]
    exact happly
  · rw [hs] at hfit ⊢
    refine happly.append (happly.after.emits_saveSnapshot hsnap ?_)
    rcases hfit with hno | hcommit
    · exact absurd (List.mem_append_right _ List.mem_cons_self) (hno _ _ _)
    · show nd.lastApplied + (k - nd.lastApplied) ≤ nd.log.length
      omega

/-! ## Blocks that change the log -/

/-- The leader of its term appends an entry of the next index. -/
theorem At.changes_appendLocalEntry (h : At cfg s n nd d)
    (hl : s.leader nd.currentTerm = some n) (hpos : 0 < nd.currentTerm)
    (command : CommandType) (payload : P) :
    Changes cfg n s d (nd.appendLocalEntry command payload).2.1
      ((s.append n (nd.appendLocalEntry command payload).2.2).ack n
        (s.log n ++ [(nd.appendLocalEntry command payload).2.2]))
      (nd.appendLocalEntry command payload).1 ∧
      (nd.appendLocalEntry command payload).2.2.index = (s.log n).length + 1 := by
  have hal := h.sound.aligned_log n
  have hinfo := h.node.lastLogInfo hal
  have hidx : (nd.appendLocalEntry command payload).2.2.index = (s.log n).length + 1 := by
    have hfst := congrArg Prod.fst hinfo
    unfold RaftNode.lastLogInfo at hfst
    unfold RaftNode.appendLocalEntry
    cases hlast : nd.log.getLast? with
    | none =>
        rw [hlast] at hfst
        exact congrArg (· + 1) hfst
    | some e =>
        rw [hlast] at hfst
        exact congrArg (· + 1) hfst
  refine ⟨?_, hidx⟩
  generalize he : (nd.appendLocalEntry command payload).2.2 = e at hidx
  have hterm : e.term = nd.currentTerm := by
    rw [← he]
    rfl
  have hmv := Moves.append h.sound (n := n) (e := e) (by rw [h.node.term]; exact hl)
    (by rw [h.node.term]; exact hterm) hidx (hterm ▸ hpos)
  have hown : ((s.append n e).ack n (s.log n ++ [e])).log n = s.log n ++ [e] := by
    simp [LogState.append, LogState.ack]
  have hlogs : ∀ {snapIndex : ℕ}, snapIndex ≤ (s.log n).length →
      snapIndex ≤ (((s.append n e).ack n (s.log n ++ [e])).log n).length ∧
      (s.log n).drop snapIndex ++ [e] =
        (((s.append n e).ack n (s.log n ++ [e])).log n).drop snapIndex ∧
      lastTerm LogEntry.term ((s.log n).take snapIndex) = lastTerm LogEntry.term
        ((((s.append n e).ack n (s.log n ++ [e])).log n).take snapIndex) := by
    intro snapIndex hle
    rw [hown]
    refine ⟨by rw [List.length_append]; omega, (List.drop_append_of_le_length hle).symm, ?_⟩
    rw [List.take_append_of_le_length hle]
  have hnode := hlogs h.node.le
  have hdisk := hlogs h.disk.le
  have heffs : (nd.appendLocalEntry command payload).2.1 = [.appendEntries [e]] := by
    rw [← he]
    rfl
  rw [heffs]
  refine Changes.one hmv rfl ⟨hmv.sound, ⟨h.node.term, h.node.voted, hnode.1, ?_, ?_⟩,
    ⟨h.disk.term, h.disk.voted, hdisk.1, ?_, ?_⟩, h.snap⟩
  · show nd.log ++ [(nd.appendLocalEntry command payload).2.2] = _
    rw [he, h.node.log]
    exact hnode.2.1
  · exact h.node.snapTerm.trans hnode.2.2
  · show [e].foldl (fun rows e => insertOrReplace e rows) d.raftLog = _
    rw [List.foldl_cons, List.foldl_nil, h.disk.log, insertOrReplace_of_lt]
    · exact hdisk.2.1
    · intro r hr
      have := hal.index_le (List.mem_of_mem_drop hr)
      omega
  · exact h.disk.snapTerm.trans hdisk.2.2

/-- A request whose entries are those of the leader's log from `prev_log_index` on. -/
structure Chained (s : AbstractLog N P) (req : AppendEntriesRequest N P) : Prop where
  le : req.prevLogIndex ≤ (s.chain req.term).length
  entries : (s.chain req.term).take req.prevLogIndex ++ req.entries <+: s.chain req.term
  prev : 0 < req.prevLogIndex →
    (s.chain req.term)[req.prevLogIndex - 1]?.map LogEntry.term = some req.prevLogTerm

omit [DecidableEq N] in
theorem Chained.grows {req : AppendEntriesRequest N P} (h : Chained s req) (hg : Grows s s') :
    Chained s' req := by
  have hc := hg.chain req.term
  have htake : (s'.chain req.term).take req.prevLogIndex =
      (s.chain req.term).take req.prevLogIndex := by
    obtain ⟨Y, hY⟩ := hc
    rw [← hY, List.take_append_of_le_length h.le]
  refine ⟨h.le.trans hc.length_le, ?_, fun hpos => ?_⟩
  · rw [htake]
    exact h.entries.trans hc
  · have hlt : req.prevLogIndex - 1 < (s.chain req.term).length := by
      have := h.le
      omega
    rw [← h.prev hpos, List.getElem?_eq_getElem hlt,
      getElem?_mono hc (List.getElem?_eq_getElem hlt)]

theorem Changes.storeEntries {entries : List (LogEntry P)} (hm : Moves cfg n s s' none)
    (h : At cfg s' n nd' (d.perform (.appendEntries entries))) :
    Changes cfg n s d (RaftNode.storeEntries entries) s' nd' := by
  unfold RaftNode.storeEntries
  split_ifs with hnil
  · subst hnil
    exact .of_moves hm h
  · exact .one hm rfl h

/-- Storing entries that continue the log along the chain of the term. -/
theorem At.changes_extend (h : At cfg s n nd d) (hsnap : nd.snapshotIndex = 0)
    {Pre entries : List (LogEntry P)} (hc : Pre ++ entries <+: s.chain (s.term n))
    (hpre : Pre <+: s.log n) (hle : s.log n <+: Pre ++ entries) :
    Changes cfg n s d (RaftNode.storeEntries entries)
      ((s.setLog n (Pre ++ entries)).ack n (Pre ++ entries))
      { nd with log := Pre ++ entries } := by
  have hext := Moves.setLog h.sound (.extend n _ hle hc)
  have hown : (s.setLog n (Pre ++ entries)).log n = Pre ++ entries := Function.update_self ..
  have hack : Moves cfg n (s.setLog n (Pre ++ entries))
      ((s.setLog n (Pre ++ entries)).ack n (Pre ++ entries)) none :=
    Moves.ack hext.sound (n := n) hc (by rw [hown])
  have hdisk : d.raftLog = s.log n := by
    rw [h.disk.log, h.snap, hsnap, List.drop_zero]
  have hown' : ((s.setLog n (Pre ++ entries)).ack n (Pre ++ entries)).log n = Pre ++ entries :=
    hown
  refine .storeEntries (hext.trans hack) ⟨hack.sound, ⟨h.node.term, h.node.voted, ?_, ?_, ?_⟩,
    ⟨h.disk.term, h.disk.voted, ?_, ?_, ?_⟩, h.snap⟩
  · rw [hsnap]
    exact Nat.zero_le _
  · rw [hown', hsnap, List.drop_zero]
  · rw [h.node.snapTerm, hsnap, List.take_zero, List.take_zero]
  · show d.lastIncludedIndex ≤ _
    rw [h.snap, hsnap]
    exact Nat.zero_le _
  · show entries.foldl (fun rows e => insertOrReplace e rows) d.raftLog =
      List.drop d.lastIncludedIndex _
    rw [hown', h.snap, hsnap, List.drop_zero, hdisk]
    exact foldl_insertOrReplace ((h.sound.aligned _).mono hc) hpre hle
  · show d.lastIncludedTerm = lastTerm LogEntry.term (List.take d.lastIncludedIndex _)
    rw [h.disk.snapTerm, h.snap, hsnap, List.take_zero, List.take_zero]

/-- What handling the entries of a request does to the abstract node: it holds them, has
acknowledged them, and keeps what it shares with the chain. -/
structure Accepts (s s' : AbstractLog N P) (n : N) (Pfx : List (LogEntry P)) : Prop where
  holds : Pfx <+: s'.log n
  acked : Pfx.length ≤ s'.acked (s.term n) n
  kept : ∀ X, X <+: s.log n → X <+: s.chain (s.term n) → X <+: s'.log n

theorem At.changes_entries (h : At cfg s n nd d) (hsnap : nd.snapshotIndex = 0)
    (hl : s.leader (s.term n) ≠ none) {Pre entries : List (LogEntry P)}
    (hc : Pre ++ entries <+: s.chain (s.term n)) (hpre : Pre <+: s.log n) :
    ∃ s', Changes cfg n s d
        ((RaftNode.appendLoop (N := N) nd.log entries).2 ++ RaftNode.storeEntries entries) s'
        { nd with log := (RaftNode.appendLoop (N := N) nd.log entries).1 } ∧
      Accepts s s' n (Pre ++ entries) := by
  have hlog : nd.log = s.log n := h.node.log_eq hsnap
  have hdisk : d.raftLog = s.log n := by
    rw [h.disk.log, h.snap, hsnap, List.drop_zero]
  have hal := (h.sound.aligned _).mono hc
  have hagree : ∀ (i : ℕ) (a b : LogEntry P), (s.log n)[i]? = some a →
      (Pre ++ entries)[i]? = some b → a.term = b.term → a = b :=
    fun i a b ha hb hab => h.sound.eq_of_term_eq ha (getElem?_mono hc hb) hab
  have hacked : ∀ s₁ : AbstractLog N P, s₁.term n = s.term n →
      (Pre ++ entries).length ≤ (s₁.ack n (Pre ++ entries)).acked (s.term n) n := by
    intro s₁ ht
    simp [LogState.ack, ← ht]
  rw [hlog]
  rcases appendLoop_cases (N := N) hal hpre hagree with
    ⟨hin, heq⟩ | ⟨hext, heq⟩ | ⟨k, a, b, ha, hb, hab, htake, hpretake, heq⟩
  · -- the log has them all
    rw [heq]
    have hack := Moves.ack h.sound hc hin
    refine ⟨_, .storeEntries hack ⟨hack.sound, ⟨h.node.term, h.node.voted, h.node.le, ?_,
      h.node.snapTerm⟩, ⟨h.disk.term, h.disk.voted, h.disk.le, ?_, h.disk.snapTerm⟩, h.snap⟩,
      hin, hacked s rfl, fun X hX _ => hX⟩
    · rw [hsnap]
      rfl
    · show entries.foldl (fun rows e => insertOrReplace e rows) d.raftLog =
        List.drop d.lastIncludedIndex (s.log n)
      rw [hdisk, foldl_insertOrReplace_held (h.sound.aligned_log n) hin, h.snap, hsnap,
        List.drop_zero]
  · -- they extend it
    rw [heq]
    refine ⟨_, h.changes_extend hsnap hc hpre hext, ?_, hacked _ rfl, fun X hX _ => ?_⟩
    · show Pre ++ entries <+: (s.setLog n (Pre ++ entries)).log n
      rw [show (s.setLog n (Pre ++ entries)).log n = Pre ++ entries from Function.update_self ..]
    · show X <+: (s.setLog n (Pre ++ entries)).log n
      rw [show (s.setLog n (Pre ++ entries)).log n = Pre ++ entries from Function.update_self ..]
      exact hX.trans hext
  · -- they replace it from position `k` on
    rw [heq]
    have hkeep : ∀ X, X <+: s.log n → X <+: s.chain (s.term n) → X <+: (s.log n).take k := by
      intro X hX hXc
      rcases Nat.lt_or_ge k X.length with hk | hk
      · have hXa : X[k]? = some a := by
          obtain ⟨Y, hY⟩ := hX
          rw [← hY, List.getElem?_append_left hk] at ha
          exact ha
        exact absurd (Option.some.inj ((getElem?_mono hXc hXa).symm.trans
          (getElem?_mono hc hb))) hab
      · rw [List.prefix_take_iff]
        exact ⟨hX, hk⟩
    have hcut := Moves.setLog h.sound (.cut n _ hl (List.take_prefix k _) hkeep)
    have hown : (s.setLog n ((s.log n).take k)).log n = (s.log n).take k :=
      Function.update_self ..
    have hat : At cfg (s.setLog n ((s.log n).take k)) n { nd with log := (s.log n).take k }
        (d.perform (.truncateLogFrom (k + 1))) := by
      refine ⟨hcut.sound, ⟨h.node.term, h.node.voted, ?_, ?_, ?_⟩,
        ⟨h.disk.term, h.disk.voted, ?_, ?_, ?_⟩, h.snap⟩
      · rw [hsnap]
        exact Nat.zero_le _
      · rw [hown, hsnap, List.drop_zero]
      · rw [h.node.snapTerm, hsnap, List.take_zero, List.take_zero]
      · show d.lastIncludedIndex ≤ _
        rw [h.snap, hsnap]
        exact Nat.zero_le _
      · show d.raftLog.filter (fun row => decide (row.index < k + 1)) =
          List.drop d.lastIncludedIndex _
        rw [hown, hdisk, (h.sound.aligned_log n).filter_index_lt, h.snap, hsnap, List.drop_zero]
      · show d.lastIncludedTerm = lastTerm LogEntry.term (List.take d.lastIncludedIndex _)
        rw [h.disk.snapTerm, h.snap, hsnap, List.take_zero, List.take_zero]
    have hfol := (Changes.one (e := .truncateLogFrom (k + 1)) hcut rfl hat).append
      (hat.changes_extend hsnap hc (by rw [hown]; exact hpretake) (by rw [hown]; exact htake))
    have hown' : (((s.setLog n ((s.log n).take k)).setLog n (Pre ++ entries)).ack n
        (Pre ++ entries)).log n = Pre ++ entries := Function.update_self ..
    refine ⟨_, hfol, ?_, hacked _ rfl, fun X hX hXc => ?_⟩
    · rw [hown']
    · rw [hown']
      exact (hkeep X hX hXc).trans htake

/-- `handle_append_entries`, on a request that is one of the leader of its term, or one whose
previous entry does not exist: it is refused or accepted. -/
theorem At.follows_handleAppendEntries (h : At cfg s n nd d) {req : AppendEntriesRequest N P}
    (hl : s.leader req.term ≠ none) (hreq : Chained s req ∨ 0 < req.prevLogIndex ∧
      req.prevLogTerm = 0) (hsnap : nd.currentTerm ≤ req.term → nd.snapshotIndex = 0) :
    ∃ s', Follows cfg n s d (nd.handleAppendEntries req).2.1 s' (nd.handleAppendEntries req).1 ∧
      (s' = s ∧ (nd.handleAppendEntries req).1 = nd ∨
        (nd.handleAppendEntries req).1.role = .follower ∧ s'.term n = req.term ∧
        (s'.log n = s.log n ∧ (nd.handleAppendEntries req).2.2.success = false ∧
            (nd.handleAppendEntries req).1.commitIndex = nd.commitIndex ∨
          Chained s req ∧
          Accepts (s.advance n req.term) s' n
            ((s.chain req.term).take req.prevLogIndex ++ req.entries))) ∧
      ((nd.handleAppendEntries req).2.2.success = true → Chained s req ∧
        req.prevLogIndex + req.entries.length ≤ s'.acked req.term n) := by
  rcases RaftNode.handleAppendEntries_cases nd req with ⟨-, heq⟩ | ⟨nd₁, effs, hle, hnd₁, heffs, heq⟩
  · rw [heq]
    exact ⟨s, h.changes_nil.follows, Or.inl ⟨rfl, rfl⟩, by intro hs; cases hs⟩
  have hsnap := hsnap hle
  have hfol := h.changes_becomeFollower req.term (some req.leaderId)
  rw [← hnd₁, ← heffs, max_eq_right hle] at hfol
  have hterm : (s.advance n req.term).term n = req.term := Function.update_self ..
  have hrole : nd₁.role = .follower := by
    rw [hnd₁]
    rfl
  have hsame : nd₁.log = nd.log ∧ nd₁.snapshotIndex = nd.snapshotIndex ∧
      nd₁.commitIndex = nd.commitIndex := by
    rw [hnd₁]
    unfold RaftNode.becomeFollower
    split_ifs <;> exact ⟨rfl, rfl, rfl⟩
  rcases heq with heq | ⟨hprev, heq⟩
  · rw [heq]
    exact ⟨_, hfol.follows, Or.inr ⟨hrole, hterm, Or.inl ⟨rfl, rfl, hsame.2.2⟩⟩, by intro hs; cases hs⟩
  rw [heq]
  have hlog : nd.log = s.log n := h.node.log_eq hsnap
  simp only [RaftNode.prevMatches, hlog, Bool.or_eq_true, decide_eq_true_eq] at hprev
  -- an entry of term zero is in no log, so the request is one of the leader
  have hchained : Chained s req := by
    rcases hreq with hreq | ⟨hpos, hzero⟩
    · exact hreq
    · rcases hprev with hprev | hprev
      · omega
      · obtain ⟨e, he, het⟩ := Option.map_eq_some_iff.mp hprev
        have := h.sound.pos_log (List.mem_of_getElem? he)
        omega
  have hpre : (s.chain req.term).take req.prevLogIndex <+: s.log n := by
    rcases Nat.eq_zero_or_pos req.prevLogIndex with h0 | hpos
    · rw [h0, List.take_zero]
      exact List.nil_prefix
    · obtain ⟨e, he, het⟩ := Option.map_eq_some_iff.mp (hprev.resolve_left (by omega))
      obtain ⟨e', he', het'⟩ := Option.map_eq_some_iff.mp (hchained.prev hpos)
      have htake := h.sound.take_eq_of_term_eq he he' (het.trans het'.symm)
      rw [Nat.sub_add_cancel hpos] at htake
      rw [← htake]
      exact List.take_prefix _ _
  have hcont : (s.chain req.term).take req.prevLogIndex ++ req.entries <+:
      (s.advance n req.term).chain ((s.advance n req.term).term n) := by
    rw [hterm]
    exact hchained.entries
  obtain ⟨s', hfol', hacc⟩ := hfol.after.changes_entries (hsame.2.1.trans hsnap)
    (by rw [hterm]; exact hl) hcont hpre
  rw [hsame.1] at hfol'
  have hcommit := (hfol.append hfol').after.emits_followCommit req.leaderCommit
  refine ⟨s', ?_, Or.inr ⟨?_, ?_, Or.inr ⟨hchained, hacc⟩⟩, fun _ => ⟨hchained, ?_⟩⟩
  · rw [List.append_assoc effs]
    exact (hfol.append hfol').emits hcommit
  · exact (RaftNode.quiet_followCommit _ _).role.trans hrole
  · rw [hcommit.after.node.term]
    show (RaftNode.followCommit _ req.leaderCommit).1.currentTerm = req.term
    rw [(RaftNode.quiet_followCommit _ _).term, hnd₁, RaftNode.becomeFollower_currentTerm,
      max_eq_right hle]
  · have hlen := hacc.acked
    rw [hterm, List.length_append, List.length_take, min_eq_left hchained.le] at hlen
    exact hlen

/-! ## Blocks of `propose` and `_replicate_to_peer` -/

omit [DecidableEq N] in
theorem Fits.of_append {effs effs' : List (Effect N P)} (h : Fits nd (effs ++ effs'))
    (hle : nd'.lastApplied = nd.lastApplied) (hcommit : nd'.commitIndex = nd.commitIndex) :
    Fits nd' effs' := by
  rcases h with h | h
  · exact Or.inl fun k t data hm => h k t data (List.mem_append_right _ hm)
  · exact Or.inr (by rw [hle, hcommit]; exact h)

/-- The locked append of `propose`, on the leader of its term. -/
theorem At.follows_proposeLocked (h : At cfg s n nd d) (hl : s.leader nd.currentTerm = some n)
    (hpos : 0 < nd.currentTerm) {threshold : ℕ} {peers : List N} {command : CommandType}
    {payload : P} (hsnap : peers = [] → nd.snapshotIndex = 0)
    (hfit : Fits nd (nd.proposeLocked threshold peers command payload).2.1) :
    ∃ s', Follows cfg n s d (nd.proposeLocked threshold peers command payload).2.1 s'
        (nd.proposeLocked threshold peers command payload).1 ∧
      s'.log n = s.log n ++ [(nd.proposeLocked threshold peers command payload).2.2] ∧
      (nd.proposeLocked threshold peers command payload).2.2.index = (s.log n).length + 1 := by
  obtain ⟨happ, hidx⟩ := h.changes_appendLocalEntry hl hpos command payload
  have hown : ∀ e, ((s.append n e).ack n (s.log n ++ [e])).log n = s.log n ++ [e] :=
    fun e => Function.update_self ..
  rcases RaftNode.proposeLocked_cases threshold peers nd command payload with
    ⟨-, heq⟩ | ⟨hpeers, heq⟩
  · rw [heq]
    exact ⟨_, happ.follows, hown _, hidx⟩
  · rw [heq] at hfit ⊢
    have hadv := happ.after.emits_advanceCommitIndex threshold peers
      (hsnap hpeers) (hfit.of_append rfl rfl)
    exact ⟨_, happ.emits hadv, hown _, hidx⟩

/-- The response block of `_replicate_to_peer` leaves the abstract log alone. -/
theorem At.follows_handleAppendResponse (h : At cfg s n nd d) {threshold : ℕ} {peers : List N}
    {peer : N} {req : AppendEntriesRequest N P} {resp : AppendEntriesResponse}
    (hsnap : resp.success = true → nd.snapshotIndex = 0)
    (hfit : Fits nd (RaftNode.handleAppendResponse threshold peers peer req nd resp).2) :
    ∃ s', Follows cfg n s d (RaftNode.handleAppendResponse threshold peers peer req nd resp).2 s'
        (RaftNode.handleAppendResponse threshold peers peer req nd resp).1 ∧
      s'.log n = s.log n := by
  rcases RaftNode.handleAppendResponse_cases threshold peers peer req nd resp with
    ⟨-, heq⟩ | ⟨-, hsucc, next, matched, -, -, heq⟩ | ⟨-, -, next, heq⟩
  · rw [heq]
    exact ⟨_, (h.changes_becomeFollower resp.term none).follows, rfl⟩
  · rw [heq] at hfit ⊢
    have hat : At cfg s n { nd with
        nextIndex := next, matchIndex := Function.update nd.matchIndex peer (some matched) } d :=
      ⟨h.sound, h.node, h.disk, h.snap⟩
    exact ⟨s, hat.changes_nil.emits (hat.emits_advanceCommitIndex threshold peers (hsnap hsucc)
      (hfit.imp_right id)), rfl⟩
  · rw [heq]
    exact ⟨s, Changes.follows (At.changes_nil (h.congr rfl rfl rfl rfl rfl)), rfl⟩

/-- The request a leader builds is one of its log, or names a previous entry that does not exist. -/
theorem At.chained_buildAppendEntries (h : At cfg s n nd d)
    (hl : s.leader nd.currentTerm = some n) (hsnap : nd.snapshotIndex = 0) (peer : N) :
    Chained s (nd.buildAppendEntries n peer) ∧
        (nd.buildAppendEntries n peer).prevLogIndex +
          (nd.buildAppendEntries n peer).entries.length = nd.log.length ∨
      0 < (nd.buildAppendEntries n peer).prevLogIndex ∧
        (nd.buildAppendEntries n peer).prevLogTerm = 0 := by
  have hlog : s.log n = s.chain nd.currentTerm := by
    rw [← h.node.term] at hl ⊢
    exact h.sound.inv.leader_log hl
  have hnd : nd.log = s.chain nd.currentTerm := (h.node.log_eq hsnap).trans hlog
  have hentries : (nd.buildAppendEntries n peer).entries =
      (s.chain nd.currentTerm).drop (nd.buildAppendEntries n peer).prevLogIndex := by
    show nd.log.filter _ = _
    rw [hnd]
    exact (h.sound.aligned _).filter_le_index _
  rcases Nat.lt_or_ge (s.chain nd.currentTerm).length
    (nd.buildAppendEntries n peer).prevLogIndex with hlt | hle
  · refine Or.inr ⟨Nat.zero_lt_of_lt hlt, ?_⟩
    show nd.logTermAt (nd.buildAppendEntries n peer).prevLogIndex = 0
    unfold RaftNode.logTermAt
    rw [if_neg (Nat.ne_zero_of_lt hlt), hnd,
      List.getElem?_eq_none (by omega)]
  · refine Or.inl ⟨⟨hle, ?_, fun hpos => ?_⟩, ?_⟩
    · show (s.chain nd.currentTerm).take _ ++ _ <+: s.chain nd.currentTerm
      rw [hentries, List.take_append_drop]
    · show ((s.chain nd.currentTerm)[(nd.buildAppendEntries n peer).prevLogIndex - 1]?).map
        LogEntry.term = some (nd.logTermAt (nd.buildAppendEntries n peer).prevLogIndex)
      unfold RaftNode.logTermAt
      rw [if_neg hpos.ne', hnd, List.getElem?_eq_getElem (by omega)]
      rfl
    · rw [hentries, List.length_drop, hnd]
      omega

end NanoFabric.Raft
