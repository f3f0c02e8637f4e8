import NanoFabric.Raft.Cluster

/-!
# Steps of a cluster, taken apart

What the proofs about runs share, so that none of them unfolds `Config.step`.

* `Config.Runs`, `Config.runs_of_block` — the block of every action, with what it was tested for.
* `Config.StepCases`, `Config.stepCases` — an event runs a block, cuts one short or restarts a node.
* `Config.runWhile_induction` — what holds at the start and is kept by every step that meets the
  condition holds at the end.
* `perform_…` — what a node's effects leave alone, and what they record.
-/

namespace NanoFabric.Raft

variable {N P : Type} [DecidableEq N]

/-! ## Blocks -/

namespace Config

variable (cfg : Config N)

/-- The block of every action, with what was tested before it ran. -/
inductive Runs (c : Cluster N P) : Action N P → Block N P → Prop
  | startElection (n : N) (hn : n ∈ cfg.members) (hnone : c.election n = none)
      (hrole : (c.node n).role ≠ .leader) :
      Runs c (.startElection n) ⟨n, ((c.node n).startElection n).1, ((c.node n).startElection n).2,
        fun c' => c'.setElection n (some ⟨((c.node n).startElection n).1.currentTerm,
          ((c.node n).startElection n).1.lastLogInfo.1,
          ((c.node n).startElection n).1.lastLogInfo.2, cfg.peers n, none⟩)⟩
  | requestVote (n : N) {term lastIdx lastTerm : ℕ} {peer : N} {pending : List N}
      (hel : c.election n = some ⟨term, lastIdx, lastTerm, peer :: pending, none⟩) :
      Runs c (.requestVote n) ⟨n, c.node n, [], fun c' =>
        { c'.setElection n (some ⟨term, lastIdx, lastTerm, pending, some c'.voteRpcs.length⟩) with
          voteRpcs := c'.voteRpcs ++ [⟨n, peer, ⟨term, n, lastIdx, lastTerm⟩, none⟩] }⟩
  | handleRequestVote (i : ℕ) {candidate peer : N} {request : RequestVoteRequest N}
      (hrpc : c.voteRpcs[i]? = some ⟨candidate, peer, request, none⟩) :
      Runs c (.handleRequestVote i) ⟨peer, ((c.node peer).handleRequestVote request).1,
        ((c.node peer).handleRequestVote request).2.1, fun c' =>
        { c' with
          voteRpcs := c'.voteRpcs.set i
            ⟨candidate, peer, request, some ((c.node peer).handleRequestVote request).2.2⟩ }⟩
  | voteReply (n : N) {term lastIdx lastTerm i : ℕ} {pending : List N}
      {rpc : VoteRpc N} {resp : RequestVoteResponse}
      (hel : c.election n = some ⟨term, lastIdx, lastTerm, pending, some i⟩)
      (hrpc : c.voteRpcs[i]? = some rpc) (hresp : rpc.response = some resp) :
      Runs c (.voteReply n) ⟨n, ((c.node n).handleVoteResponse resp).1,
        ((c.node n).handleVoteResponse resp).2.1, fun c' => c'.setElection n
          (if ((c.node n).handleVoteResponse resp).2.2 then
            some ⟨term, lastIdx, lastTerm, pending, none⟩ else none)⟩
  | voteLost (n : N) {term lastIdx lastTerm i : ℕ} {pending : List N}
      (hel : c.election n = some ⟨term, lastIdx, lastTerm, pending, some i⟩) :
      Runs c (.voteLost n) ⟨n, c.node n, [], fun c' => c'.setElection n
        (some ⟨term, lastIdx, lastTerm, pending, none⟩)⟩
  | winElection (n : N) {term lastIdx lastTerm : ℕ}
      (hel : c.election n = some ⟨term, lastIdx, lastTerm, [], none⟩)
      (hwin : (c.node n).winsElection (cfg.peers n) = true) :
      Runs c (.finishElection n) ⟨n, (c.node n).becomeLeader n (cfg.peers n), [], fun c' =>
        { c'.setElection n none with elected := (n, (c.node n).currentTerm) :: c'.elected }⟩
  | loseElection (n : N) {term lastIdx lastTerm : ℕ}
      (hel : c.election n = some ⟨term, lastIdx, lastTerm, [], none⟩) :
      Runs c (.finishElection n) ⟨n, c.node n, [], fun c' => c'.setElection n none⟩
  | stepDown (n : N) (hn : n ∈ cfg.members) :
      Runs c (.stepDown n) ⟨n, (c.node n).stepDown, [], id⟩
  | proposeCheck (n : N) (command : CommandType) (payload : P) (hn : n ∈ cfg.members)
      (hrole : (c.node n).role = .leader) :
      Runs c (.proposeCheck n command payload) ⟨n, c.node n, [], fun c' =>
        c'.setProposals n (c'.proposals n ++ [.checked command payload])⟩
  | proposeRefuse (n : N) (command : CommandType) (payload : P) (hn : n ∈ cfg.members) :
      Runs c (.proposeCheck n command payload) ⟨n, c.node n, [], fun c' =>
        { c' with results := (n, none, ⟨false, 0, some .notLeader⟩) :: c'.results }⟩
  | proposeAppend (n : N) (i : ℕ) {command : CommandType} {payload : P}
      (hcall : (c.proposals n)[i]? = some (.checked command payload)) :
      Runs c (.proposeAppend n i)
        ⟨n, ((c.node n).proposeLocked (cfg.threshold n) (cfg.peers n) command payload).1,
          ((c.node n).proposeLocked (cfg.threshold n) (cfg.peers n) command payload).2.1,
          fun c' => c'.setProposals n ((c'.proposals n).set i (.waiting
            ((c.node n).proposeLocked (cfg.threshold n) (cfg.peers n) command payload).2.2))⟩
  | proposeDone (n : N) (i : ℕ) {entry : LogEntry P}
      (hcall : (c.proposals n)[i]? = some (.waiting entry))
      (hcommit : entry.index ≤ (c.node n).commitIndex) :
      Runs c (.proposePoll n i) ⟨n, c.node n, [], fun c' =>
        { c'.setProposals n ((c'.proposals n).eraseIdx i) with
          results := (n, some entry, ⟨true, entry.index, none⟩) :: c'.results }⟩
  | proposeLost (n : N) (i : ℕ) {entry : LogEntry P}
      (hcall : (c.proposals n)[i]? = some (.waiting entry)) :
      Runs c (.proposePoll n i) ⟨n, c.node n, [], fun c' =>
        { c'.setProposals n ((c'.proposals n).eraseIdx i) with
          results := (n, some entry, ⟨false, 0, some .lostLeadership⟩) :: c'.results }⟩
  | proposeWait (n : N) (i : ℕ) {entry : LogEntry P}
      (hcall : (c.proposals n)[i]? = some (.waiting entry)) :
      Runs c (.proposePoll n i) ⟨n, c.node n, [], id⟩
  | proposeTimeout (n : N) (i : ℕ) {entry : LogEntry P}
      (hcall : (c.proposals n)[i]? = some (.waiting entry)) :
      Runs c (.proposeTimeout n i) ⟨n, c.node n, [], fun c' =>
        { c'.setProposals n ((c'.proposals n).eraseIdx i) with
          results := (n, some entry, ⟨false, 0, some .commitTimeout⟩) :: c'.results }⟩
  | replicate (n peer : N) (hn : n ∈ cfg.members) (hpeer : peer ∈ cfg.peers n)
      (hrole : (c.node n).role = .leader) :
      Runs c (.replicate n peer) ⟨n, c.node n, [], fun c' =>
        { c' with
          appendRpcs := c'.appendRpcs ++
            [⟨n, peer, RaftNode.buildAppendEntries n (c.node n) peer, true, none⟩] }⟩
  | handleAppendEntries (i : ℕ) {sender peer : N} {request : AppendEntriesRequest N P}
      {waiting : Bool} (hrpc : c.appendRpcs[i]? = some ⟨sender, peer, request, waiting, none⟩) :
      Runs c (.handleAppendEntries i) ⟨peer, ((c.node peer).handleAppendEntries request).1,
        ((c.node peer).handleAppendEntries request).2.1, fun c' =>
        { c' with
          appendRpcs := c'.appendRpcs.set i ⟨sender, peer, request, waiting,
            some ((c.node peer).handleAppendEntries request).2.2⟩ }⟩
  | replicateReply (i : ℕ) {sender peer : N} {request : AppendEntriesRequest N P}
      {resp : AppendEntriesResponse}
      (hrpc : c.appendRpcs[i]? = some ⟨sender, peer, request, true, some resp⟩) :
      Runs c (.replicateReply i) ⟨sender,
        ((c.node sender).handleAppendResponse (cfg.threshold sender) (cfg.peers sender) peer
          request resp).1,
        ((c.node sender).handleAppendResponse (cfg.threshold sender) (cfg.peers sender) peer
          request resp).2, fun c' =>
        { c' with
          appendRpcs := c'.appendRpcs.set i ⟨sender, peer, request, false, some resp⟩ }⟩
  | replicateLost (i : ℕ) {sender peer : N} {request : AppendEntriesRequest N P}
      {resp : Option AppendEntriesResponse}
      (hrpc : c.appendRpcs[i]? = some ⟨sender, peer, request, true, resp⟩) :
      Runs c (.replicateLost i) ⟨sender, c.node sender, [], fun c' =>
        { c' with appendRpcs := c'.appendRpcs.set i ⟨sender, peer, request, false, resp⟩ }⟩

variable {cfg}

theorem runs_of_electionBlock {c : Cluster N P} {a : Action N P} {b : Block N P}
    (h : cfg.electionBlock c a = some b) : cfg.Runs c a b := by
  cases a with
  | startElection n =>
      simp only [electionBlock, Option.ite_none_right_eq_some, Option.some.injEq] at h
      obtain ⟨⟨hn, hnone, hrole⟩, rfl⟩ := h
      exact .startElection n hn hnone hrole
  | requestVote n =>
      simp only [electionBlock] at h
      split at h
      · obtain rfl := Option.some.inj h
        exact .requestVote n ‹_›
      · cases h
  | handleRequestVote i =>
      simp only [electionBlock] at h
      split at h
      · obtain rfl := Option.some.inj h
        exact .handleRequestVote i ‹_›
      · cases h
  | voteReply n =>
      simp only [electionBlock] at h
      split at h
      · rename_i hel
        split at h
        · rename_i hresp
          obtain ⟨rpc, hrpc, hr⟩ := Option.bind_eq_some_iff.mp hresp
          obtain rfl := Option.some.inj h
          exact .voteReply n hel hrpc hr
        · cases h
      · cases h
  | voteLost n =>
      simp only [electionBlock] at h
      split at h
      · obtain rfl := Option.some.inj h
        exact .voteLost n ‹_›
      · cases h
  | finishElection n =>
      simp only [electionBlock] at h
      split at h
      · rename_i hel
        split_ifs at h with hwin
        · obtain rfl := Option.some.inj h
          exact .winElection n hel hwin
        · obtain rfl := Option.some.inj h
          exact .loseElection n hel
      · cases h
  | stepDown n =>
      simp only [electionBlock, Option.ite_none_right_eq_some, Option.some.injEq] at h
      obtain ⟨hn, rfl⟩ := h
      exact .stepDown n hn
  | _ => cases h

theorem runs_of_proposeBlock {c : Cluster N P} {a : Action N P} {b : Block N P}
    (h : cfg.proposeBlock c a = some b) : cfg.Runs c a b := by
  cases a with
  | proposeCheck n command payload =>
      simp only [proposeBlock, Option.ite_none_right_eq_some] at h
      obtain ⟨hn, h⟩ := h
      split_ifs at h with hrole
      · obtain rfl := Option.some.inj h
        exact .proposeCheck n command payload hn hrole
      · obtain rfl := Option.some.inj h
        exact .proposeRefuse n command payload hn
  | proposeAppend n i =>
      simp only [proposeBlock] at h
      split at h
      · obtain rfl := Option.some.inj h
        exact .proposeAppend n i ‹_›
      · cases h
  | proposePoll n i =>
      simp only [proposeBlock] at h
      split at h
      · rename_i hcall
        split_ifs at h with hcommit hrole
        · obtain rfl := Option.some.inj h
          exact .proposeDone n i hcall hcommit
        · obtain rfl := Option.some.inj h
          exact .proposeLost n i hcall
        · obtain rfl := Option.some.inj h
          exact .proposeWait n i hcall
      · cases h
  | proposeTimeout n i =>
      simp only [proposeBlock] at h
      split at h
      · obtain rfl := Option.some.inj h
        exact .proposeTimeout n i ‹_›
      · cases h
  | _ => cases h

theorem runs_of_replicateBlock {c : Cluster N P} {a : Action N P} {b : Block N P}
    (h : cfg.replicateBlock c a = some b) : cfg.Runs c a b := by
  cases a with
  | replicate n peer =>
      simp only [replicateBlock, Option.ite_none_right_eq_some, Option.some.injEq] at h
      obtain ⟨⟨hn, hpeer, hrole⟩, rfl⟩ := h
      exact .replicate n peer hn hpeer hrole
  | handleAppendEntries i =>
      simp only [replicateBlock] at h
      split at h
      · obtain rfl := Option.some.inj h
        exact .handleAppendEntries i ‹_›
      · cases h
  | replicateReply i =>
      simp only [replicateBlock] at h
      split at h
      · obtain rfl := Option.some.inj h
        exact .replicateReply i ‹_›
      · cases h
  | replicateLost i =>
      simp only [replicateBlock] at h
      split at h
      · obtain rfl := Option.some.inj h
        exact .replicateLost i ‹_›
      · cases h
  | _ => cases h

/-- A block that runs is the block of its action. -/
theorem runs_of_block {c : Cluster N P} {a : Action N P} {b : Block N P}
    (h : cfg.block c a = some b) : cfg.Runs c a b := by
  rcases Option.or_eq_some_iff.mp h with h | ⟨-, h⟩
  · exact runs_of_electionBlock h
  rcases Option.or_eq_some_iff.mp h with h | ⟨-, h⟩
  · exact runs_of_proposeBlock h
  · exact runs_of_replicateBlock h

/-! ## Events and runs -/

/-- An event runs a block to its end, or its node crashes after some of the block's effects; a
crash between two blocks is one within a block that has none. -/
theorem step_cases {c c' : Cluster N P} {ev : Event N P} (h : cfg.step c ev = some c') :
    ∃ a b, cfg.block c a = some b ∧
      (ev = .run a ∧ c' = b.calls (c.runBlock b.actor b.node b.effects) ∨
        ∃ k, (ev = .crash a k ∨ ev = .restart b.actor ∧ a = .stepDown b.actor ∧ b.effects = []) ∧
          c' = (c.perform b.actor (b.effects.take k)).restart b.actor) := by
  cases ev with
  | run a =>
      obtain ⟨b, hb, rfl⟩ := Option.map_eq_some_iff.mp h
      exact ⟨a, b, hb, Or.inl ⟨rfl, rfl⟩⟩
  | crash a k =>
      obtain ⟨b, hb, rfl⟩ := Option.map_eq_some_iff.mp h
      exact ⟨a, b, hb, Or.inr ⟨k, Or.inl rfl, rfl⟩⟩
  | restart n =>
      simp only [step, Option.ite_none_right_eq_some, Option.some.injEq] at h
      obtain ⟨hn, rfl⟩ := h
      refine ⟨.stepDown n, ⟨n, (c.node n).stepDown, [], id⟩, ?_,
        Or.inr ⟨0, Or.inr ⟨rfl, rfl, rfl⟩, rfl⟩⟩
      simp [block, electionBlock, hn]

/-- Where a block leaves the calls is not in the nodes or their storage. -/
theorem Runs.calls_frame {c : Cluster N P} {a : Action N P} {b : Block N P}
    (h : cfg.Runs c a b) (x : Cluster N P) :
    (b.calls x).node = x.node ∧ (b.calls x).disk = x.disk ∧ (b.calls x).applied = x.applied ∧
      (b.calls x).votes = x.votes := by
  cases h <;> exact ⟨rfl, rfl, rfl, rfl⟩

/-- What holds at the start of a run and is kept by each of its steps holds at its end. -/
theorem runWhile_induction {C : Cluster N P → Event N P → Bool} {I : Cluster N P → Prop}
    (hstep : ∀ c ev c', I c → C c ev = true → cfg.step c ev = some c' → I c') :
    ∀ {evs : List (Event N P)} {c c' : Cluster N P}, I c → cfg.runWhile C c evs = some c' → I c'
  | [], c, c', hc, h => by
      obtain rfl := Option.some.inj h
      exact hc
  | ev :: evs, c, c', hc, h => by
      simp only [runWhile, Option.ite_none_right_eq_some, Option.bind_eq_some_iff] at h
      obtain ⟨hC, c₁, hc₁, h⟩ := h
      exact runWhile_induction hstep (hstep c ev c₁ hc hC hc₁) h

/-- A run after another. -/
theorem runWhile_append {C : Cluster N P → Event N P → Bool} {evs evs' : List (Event N P)}
    {c c₁ c₂ : Cluster N P} (h : cfg.runWhile C c evs = some c₁)
    (h' : cfg.runWhile C c₁ evs' = some c₂) : cfg.runWhile C c (evs ++ evs') = some c₂ := by
  induction evs generalizing c with
  | nil => exact Option.some.inj h ▸ h'
  | cons ev evs ih =>
      simp only [runWhile, Option.ite_none_right_eq_some, Option.bind_eq_some_iff] at h
      obtain ⟨hC, c', hstep, h⟩ := h
      rw [List.cons_append, runWhile, if_pos hC, hstep]
      exact ih h

end Config

/-! ## Effects -/

namespace Cluster

/-- Effects touch the storage of their node and the record of votes and applied entries only. -/
theorem perform_frame (n : N) : ∀ (effs : List (Effect N P)) (c : Cluster N P),
    (c.perform n effs).node = c.node ∧ (c.perform n effs).election = c.election ∧
    (c.perform n effs).voteRpcs = c.voteRpcs ∧ (c.perform n effs).appendRpcs = c.appendRpcs ∧
    (c.perform n effs).proposals = c.proposals ∧ (c.perform n effs).elected = c.elected ∧
    (c.perform n effs).results = c.results
  | [], _ => ⟨rfl, rfl, rfl, rfl, rfl, rfl, rfl⟩
  | e :: effs, c => perform_frame n effs (c.performOne n e)

@[simp] theorem perform_node (c : Cluster N P) (n : N) (effs : List (Effect N P)) :
    (c.perform n effs).node = c.node := (perform_frame n effs c).1

@[simp] theorem perform_election (c : Cluster N P) (n : N) (effs : List (Effect N P)) :
    (c.perform n effs).election = c.election := (perform_frame n effs c).2.1

@[simp] theorem perform_voteRpcs (c : Cluster N P) (n : N) (effs : List (Effect N P)) :
    (c.perform n effs).voteRpcs = c.voteRpcs := (perform_frame n effs c).2.2.1

@[simp] theorem perform_appendRpcs (c : Cluster N P) (n : N) (effs : List (Effect N P)) :
    (c.perform n effs).appendRpcs = c.appendRpcs := (perform_frame n effs c).2.2.2.1

@[simp] theorem perform_proposals (c : Cluster N P) (n : N) (effs : List (Effect N P)) :
    (c.perform n effs).proposals = c.proposals := (perform_frame n effs c).2.2.2.2.1

@[simp] theorem perform_elected (c : Cluster N P) (n : N) (effs : List (Effect N P)) :
    (c.perform n effs).elected = c.elected := (perform_frame n effs c).2.2.2.2.2.1

@[simp] theorem perform_results (c : Cluster N P) (n : N) (effs : List (Effect N P)) :
    (c.perform n effs).results = c.results := (perform_frame n effs c).2.2.2.2.2.2

/-- The end of an election call leaves those of the other nodes. -/
theorem election_setElection_none {c : Cluster N P} {n m : N} {el : ElectionCall N}
    (h : (c.setElection n none).election m = some el) : m ≠ n ∧ c.election m = some el := by
  have hm : Function.update c.election n none m = some el := h
  obtain rfl | hmn := eq_or_ne m n
  · rw [Function.update_self] at hm
    cases hm
  · rw [Function.update_of_ne hmn] at hm
    exact ⟨hmn, hm⟩

theorem perform_disk_self (n : N) : ∀ (effs : List (Effect N P)) (c : Cluster N P),
    (c.perform n effs).disk n = effs.foldl RaftStorage.perform (c.disk n)
  | [], _ => rfl
  | e :: effs, c => by
      rw [List.foldl_cons, ← Function.update_self n ((c.disk n).perform e) c.disk]
      exact perform_disk_self n effs (c.performOne n e)

theorem perform_disk_of_ne {n m : N} (hm : m ≠ n) : ∀ (effs : List (Effect N P))
    (c : Cluster N P), (c.perform n effs).disk m = c.disk m
  | [], _ => rfl
  | e :: effs, c => by
      rw [← Function.update_of_ne hm ((c.disk n).perform e) c.disk]
      exact perform_disk_of_ne hm effs (c.performOne n e)

/-- The votes on record after a node's effects. -/
theorem mem_perform_votes {n m v : N} {t : ℕ} : ∀ {effs : List (Effect N P)} {c : Cluster N P},
    (m, t, v) ∈ (c.perform n effs).votes ↔
      (m, t, v) ∈ c.votes ∨ m = n ∧ Effect.setState t (some v) ∈ effs
  | [], c => by simp [perform]
  | e :: effs, c => by
      have ih : (m, t, v) ∈ ((c.performOne n e).perform n effs).votes ↔
          (m, t, v) ∈ (c.performOne n e).votes ∨ m = n ∧ Effect.setState t (some v) ∈ effs :=
        mem_perform_votes
      rw [show c.perform n (e :: effs) = (c.performOne n e).perform n effs from rfl, ih]
      rcases e with ⟨t', _ | v'⟩ | _ | _ | _ | _ <;> simp [performOne]
      tauto

/-- The applied entries on record after a node's effects. -/
theorem mem_perform_applied {n m : N} {k : ℕ} {entry : LogEntry P} :
    ∀ {effs : List (Effect N P)} {c : Cluster N P},
    (m, k, entry) ∈ (c.perform n effs).applied ↔
      (m, k, entry) ∈ c.applied ∨ m = n ∧ Effect.apply k entry ∈ effs
  | [], c => by simp [perform]
  | e :: effs, c => by
      have ih : (m, k, entry) ∈ ((c.performOne n e).perform n effs).applied ↔
          (m, k, entry) ∈ (c.performOne n e).applied ∨ m = n ∧ Effect.apply k entry ∈ effs :=
        mem_perform_applied
      rw [show c.perform n (e :: effs) = (c.performOne n e).perform n effs from rfl, ih]
      rcases e with ⟨t', _ | v'⟩ | _ | _ | _ | _ <;> simp [performOne]
      tauto

end Cluster

/-! ## Writing runs down -/

/-- An election of `n`: for each peer in order, whether its answer is handled, in a cluster that
has seen `asked` vote requests. -/
def electionEvents (n : N) (asked : ℕ) (answers : List Bool) : List (Event N P) :=
  .run (.startElection n) :: (answers.zipIdx asked).flatMap (fun (answered, i) =>
    .run (.requestVote n) :: if answered then
      [.run (.handleRequestVote i), .run (.voteReply n)] else [.run (.voteLost n)]) ++
    [.run (.finishElection n)]

/-- A call of `_replicate_to_peer`, the `sent`-th of the cluster, that runs to its end. -/
def replicateEvents (n peer : N) (sent : ℕ) : List (Event N P) :=
  [.run (.replicate n peer), .run (.handleAppendEntries sent), .run (.replicateReply sent)]

end NanoFabric.Raft
