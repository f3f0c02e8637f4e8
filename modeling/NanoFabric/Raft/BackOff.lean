import NanoFabric.Raft.Link

/-!
# The back-off of a new leader

The leader starts at the end of its log and goes back by one entry with every refusal, until the peer has
the entry before those it is sent. The code reads the log at the position of an index, so that this is
about logs that are not compacted.

* `Link.round_of_whole` — a round that is taken, with entries or without.
* `Link.Follows` — what a run keeps, turn by turn (`Link.Follows.turn`).
* `Link.Follows.rejections_lt` — the refusals are fewer than the next index.
* `Link.backsOff_becomeLeader` — the rounds after an election, in the term of the leader.
-/

namespace NanoFabric.Raft

variable {N P : Type}

/-! ## Uncompacted logs -/

namespace RaftNode

/-- A leader with an uncompacted log notes that the peer has all of it. -/
theorem acknowledged_buildAppendEntries [DecidableEq N] {nd : RaftNode N P} (self : N) {peer : N}
    (h : Aligned nd.log) (hpos : 1 ≤ (nd.nextIndex peer).getD 1)
    (hle : (nd.nextIndex peer).getD 1 ≤ nd.log.length + 1) :
    (nd.acknowledged peer (nd.buildAppendEntries self peer)).matchIndex peer = some nd.log.length ∧
      ((nd.acknowledged peer (nd.buildAppendEntries self peer)).nextIndex peer).getD 1 =
        nd.log.length + 1 := by
  have hprev : (nd.buildAppendEntries self peer).prevLogIndex = (nd.nextIndex peer).getD 1 - 1 := rfl
  have hentries := entries_buildAppendEntries self peer h
  have hlast : (nd.buildAppendEntries self peer).entries.getLast? =
      if nd.log.length ≤ (nd.nextIndex peer).getD 1 - 1 then none else nd.log.getLast? := by
    rw [hentries, List.getLast?_drop, hprev]
  unfold acknowledged
  split_ifs at hlast with hall
  · -- nothing was left to send
    rw [hlast]
    simp only [Function.update_self, Option.some.injEq]
    omega
  · rcases hsome : nd.log.getLast? with _ | last
    · rw [List.getLast?_eq_none_iff] at hsome
      rw [hsome] at hall
      exact absurd (Nat.zero_le _) hall
    · have hindex := h.contiguous.index_of_getLast? hsome
      rw [hlast, hsome]
      simp only [Function.update_self, Option.getD_some, Option.some.injEq]
      omega

/-- A leader with an uncompacted log appends an entry at the next position. -/
theorem log_appendLocalEntry {nd : RaftNode N P} (h : Aligned nd.log) (h0 : nd.snapshotIndex = 0)
    (command : CommandType) (payload : P) : (nd.appendLocalEntry command payload).1.log =
      nd.log ++ [⟨nd.log.length + 1, nd.currentTerm, command, payload⟩] := by
  have hcontiguous : Contiguous nd.snapshotIndex nd.log := by
    rw [h0]
    exact h.contiguous
  have hindex := index_appendLocalEntry hcontiguous command payload
  rw [h0, Nat.zero_add] at hindex
  show nd.log ++ [⟨(nd.appendLocalEntry command payload).2.2.index, nd.currentTerm, command,
    payload⟩] = _
  rw [hindex]

end RaftNode

/-- A log matches every log that it is the start of. -/
theorem logMatching_of_prefix {L G : List (LogEntry P)} (h : L <+: G) : LogMatching L G := by
  intro i a b ha _ _
  obtain ⟨Y, rfl⟩ := h
  rw [List.take_append_of_le_length (List.getElem?_eq_some_iff.mp ha).1]

namespace Link

variable [DecidableEq N] (l : Link N)

/-- The logs of a link are uncompacted, the follower's matches the leader's with what some turns append
to it, and the next index is within the leader's or after it. -/
structure Whole (s : Pair N P) (turns : List (Turn N P l.peer)) : Prop where
  leader : Aligned s.leader.log
  follower : Aligned s.follower.log
  matching : LogMatching s.follower.log (l.grown s.leader.currentTerm s.leader.log turns)
  next_le : l.nextIndex s.leader ≤ s.leader.log.length + 1

/-- The follower has the entries before the next index. -/
def Synced (s : Pair N P) : Prop :=
  s.leader.log.take (l.nextIndex s.leader - 1) <+: s.follower.log

/-- Entries of a term of which the follower has none match what it has. -/
theorem logMatching_grown {term : ℕ} {F : List (LogEntry P)} (hnew : ∀ e ∈ F, e.term ≠ term) :
    ∀ (turns : List (Turn N P l.peer)) {G : List (LogEntry P)}, LogMatching F G →
      LogMatching F (l.grown term G turns)
  | [], _, h => h
  | .propose _ _ :: turns, G, h => by
      refine logMatching_grown hnew turns fun i a b ha hb hterm => ?_
      rcases Nat.lt_or_ge i G.length with hi | hi
      · rw [List.getElem?_append_left hi] at hb
        rw [h i a b ha hb hterm, List.take_append_of_le_length hi]
      · rw [List.getElem?_append_right hi] at hb
        have hlast := List.mem_singleton.mp (List.mem_of_getElem? hb)
        rw [hlast] at hterm
        exact absurd hterm (hnew a (List.mem_of_getElem? ha))
  | .replicate :: turns, _, h => logMatching_grown hnew turns h
  | .reply _ _ _ _ :: turns, _, h => logMatching_grown hnew turns h

section whole

variable {l} {s : Pair N P} {r : Round N P} {turns : List (Turn N P l.peer)}

/-- A round that is taken gives the follower the log of the leader, where it does not have it already,
and the leader goes on from the end of its log. -/
theorem round_of_whole (hw : l.Whole s turns) (hpos : 1 ≤ l.nextIndex s.leader)
    (hr : l.replicateToPeer s = some r)
    (hkeeps : r.after.leader.currentTerm = s.leader.currentTerm)
    (hsucc : r.response.success = true) :
    s.leader.log <+: r.after.follower.log ∧
      (r.after.follower.log = s.follower.log ∨ r.after.follower.log = s.leader.log) ∧
      r.after.leader.matchIndex l.peer = some s.leader.log.length ∧
      l.nextIndex r.after.leader = s.leader.log.length + 1 := by
  obtain ⟨hle, -, hterm⟩ := keeps_of_round hr hkeeps
  have hprev := (success_eq hr hterm).symm.trans hsucc
  have hG := l.aligned_grown s.leader.currentTerm turns hw.leader
  have hld := l.prefix_grown s.leader.currentTerm turns s.leader.log
  have hcons := consistent_buildAppendEntries l.self l.peer hw.follower hG hw.matching hld
  have hspliced := spliced_of_prevLogIndex_le l.self l.peer hG hw.matching hld
    (Nat.sub_le_of_le_add hw.next_le) hprev
  have hholds := holds_appendLoop (N := N) hcons hw.follower (RaftNode.prevLogIndex_le hprev)
  have hloop := (appendLoop_splice (N := N) hcons hw.follower (RaftNode.prevLogIndex_le hprev)).1
  rw [hspliced] at hholds hloop
  obtain ⟨hmatched, hnext⟩ :=
    RaftNode.acknowledged_buildAppendEntries l.self hw.leader hpos hw.next_le
  obtain ⟨-, rfl⟩ := l.replicateToPeer_eq_some.mp hr
  have hterm' : s.follower.currentTerm ≤ (s.leader.buildAppendEntries l.self l.peer).term := hterm
  have hlog : (s.follower.handleAppendEntries (s.leader.buildAppendEntries l.self l.peer)).1.log =
      (RaftNode.appendLoop (N := N) s.follower.log
        (s.leader.buildAppendEntries l.self l.peer).entries).1 := by
    rw [RaftNode.handleAppendEntries_of_match hterm' hprev]
    exact (RaftNode.followCommit_frame _ _).log
  unfold nextIndex
  simp only [hlog, RaftNode.handleAppendResponse_of_success hle hsucc,
    (RaftNode.advanceCommitIndex_peers _ _ _).1, (RaftNode.advanceCommitIndex_peers _ _ _).2]
  exact ⟨hholds, hloop.imp_left And.right, hmatched, hnext⟩

/-- A follower that has the entries before the next index takes the request. -/
theorem success_of_synced (hw : l.Whole s turns) (hs : l.Synced s)
    (hr : l.replicateToPeer s = some r)
    (hkeeps : r.after.leader.currentTerm = s.leader.currentTerm) : r.response.success = true := by
  rw [success_eq hr (keeps_of_round hr hkeeps).2.2]
  have hnext := hw.next_le
  unfold Synced at hs
  have hprev : (s.leader.buildAppendEntries l.self l.peer).prevLogIndex =
    l.nextIndex s.leader - 1 := rfl
  have hterm : (s.leader.buildAppendEntries l.self l.peer).prevLogTerm =
    s.leader.logTermAt (l.nextIndex s.leader - 1) := rfl
  unfold RaftNode.prevMatches
  rw [hprev, hterm, Bool.or_eq_true, decide_eq_true_iff, decide_eq_true_iff]
  rcases hk : l.nextIndex s.leader - 1 with _ | k
  · exact Or.inl rfl
  · rw [hk] at hs
    have hget : s.leader.log[k]? = some s.leader.log[k] := List.getElem?_eq_getElem (by omega)
    have htake : (s.leader.log.take (k + 1))[k]? = some s.leader.log[k] := by
      rw [List.getElem?_take_of_lt (Nat.lt_succ_self k)]
      exact hget
    rw [RaftNode.logTermAt_of_getElem? hget, Nat.add_sub_cancel, getElem?_mono hs htake]
    exact Or.inr rfl

end whole

end Link

/-! ## Runs -/

namespace Link

variable [DecidableEq N] (l : Link N)

/-- What a run keeps: the leader leads, is in its term to the end, and has a next index; and the logs
match for as long as nothing is cut off. -/
structure Follows (s : Pair N P) (turns : List (Turn N P l.peer)) : Prop where
  role : s.leader.role = .leader
  one_le_next : 1 ≤ l.nextIndex s.leader
  keeps : (l.run s turns).leader.currentTerm = s.leader.currentTerm
  whole : s.leader.snapshotIndex = 0 → l.Whole s turns

/-- The round was taken, the follower has the log that the leader had as it sent the request, and the
leader knows. -/
structure Synchronised (r : Round N P) : Prop where
  success : r.response.success = true
  agrees : r.sender.log <+: r.after.follower.log
  matched : r.after.leader.matchIndex l.peer = some r.sender.lastLogInfo.1

section run

variable {l} {s : Pair N P} {t : Turn N P l.peer} {turns : List (Turn N P l.peer)} {r : Round N P}

theorem Follows.keeps_turn (h : l.Follows s (t :: turns)) :
    (l.turn s t).leader.currentTerm = s.leader.currentTerm :=
  le_antisymm ((l.currentTerm_le_run (l.turn s t) turns).trans h.keeps.le)
    (l.currentTerm_le_turn s t)

theorem Follows.exists_round (h : l.Follows s turns) : ∃ r, l.replicateToPeer s = some r :=
  ⟨_, l.replicateToPeer_eq_some.mpr ⟨h.role, rfl⟩⟩

theorem Follows.keeps_round (h : l.Follows s (.replicate :: turns))
    (hr : l.replicateToPeer s = some r) :
    r.after.leader.currentTerm = s.leader.currentTerm := by
  have hkeeps := h.keeps_turn
  rwa [l.turn_replicate hr] at hkeeps

theorem Follows.role_turn (h : l.Follows s (t :: turns)) : (l.turn s t).leader.role = .leader := by
  cases t with
  | replicate =>
      obtain ⟨r, hr⟩ := h.exists_round
      rw [l.turn_replicate hr]
      exact (keeps_of_round hr (h.keeps_round hr)).2.1
  | propose command payload =>
      rw [turn_propose]
      exact h.role
  | reply other hne request response =>
      exact (RaftNode.handleAppendResponse_keeps h.keeps_turn).2.trans h.role

/-- The log after a round that cuts nothing off. -/
theorem log_of_round (hr : l.replicateToPeer s = some r) (h : r.after.leader.snapshotIndex = 0) :
    r.after.leader.log = s.leader.log := by
  rw [(l.replicateToPeer_eq_some.mp hr).2] at h ⊢
  exact (RaftNode.handleAppendResponse_whole h).2

theorem Whole.replicate (hw : l.Whole s (.replicate :: turns)) (hpos : 1 ≤ l.nextIndex s.leader)
    (hr : l.replicateToPeer s = some r)
    (hkeeps : r.after.leader.currentTerm = s.leader.currentTerm)
    (h : r.after.leader.snapshotIndex = 0) : l.Whole r.after turns := by
  have hlog := log_of_round hr h
  have hnext := hw.next_le
  rcases hsucc : r.response.success with _ | _
  · obtain ⟨hback, hsame⟩ := nextIndex_of_rejected hr hkeeps hsucc
    refine ⟨hlog ▸ hw.leader, hsame ▸ hw.follower, ?_, ?_⟩
    · rw [hlog, hsame, hkeeps]
      exact hw.matching
    · rw [hlog]
      omega
  · obtain ⟨-, htaken, -, hend⟩ := round_of_whole hw hpos hr hkeeps hsucc
    refine ⟨hlog ▸ hw.leader, ?_, ?_, ?_⟩
    · rcases htaken with heq | heq
      · exact heq ▸ hw.follower
      · exact heq ▸ hw.leader
    · rw [hlog, hkeeps]
      rcases htaken with heq | heq
      · rw [heq]
        exact hw.matching
      · rw [heq]
        exact logMatching_of_prefix (l.prefix_grown _ turns _)
    · rw [hlog]
      exact hend.le

theorem Follows.whole_turn (h : l.Follows s (t :: turns))
    (h0 : (l.turn s t).leader.snapshotIndex = 0) : l.Whole (l.turn s t) turns := by
  have hs := l.snapshotIndex_of_turn h0
  have hw := h.whole hs
  cases t with
  | replicate =>
      obtain ⟨r, hr⟩ := h.exists_round
      rw [l.turn_replicate hr] at h0 ⊢
      exact hw.replicate h.one_le_next hr (h.keeps_round hr) h0
  | propose command payload =>
      have hlog := RaftNode.log_appendLocalEntry hw.leader hs command payload
      have hnext := hw.next_le
      have hmatching := hw.matching
      have haligned := l.aligned_grown s.leader.currentTerm (.propose command payload :: turns)
        hw.leader
      unfold grown at hmatching haligned
      rw [← hlog] at hmatching haligned
      rw [turn_propose]
      refine ⟨haligned.mono (l.prefix_grown _ turns _), hw.follower, hmatching, ?_⟩
      show l.nextIndex s.leader ≤ _
      rw [hlog, List.length_append, List.length_singleton]
      omega
  | reply other hne request response =>
      have hlog : (l.turn s (.reply other hne request response)).leader.log = s.leader.log :=
        (RaftNode.handleAppendResponse_whole h0).2
      have hnext : l.nextIndex (l.turn s (.reply other hne request response)).leader =
          l.nextIndex s.leader :=
        congrArg (Option.getD · 1) (RaftNode.nextIndex_handleAppendResponse_of_ne hne.symm)
      refine ⟨hlog ▸ hw.leader, hw.follower, ?_, ?_⟩
      · rw [hlog, h.keeps_turn]
        exact hw.matching
      · rw [hlog, hnext]
        exact hw.next_le

/-- One turn leaves what a run keeps. -/
theorem Follows.turn (h : l.Follows s (t :: turns)) : l.Follows (l.turn s t) turns where
  role := h.role_turn
  one_le_next := l.one_le_nextIndex_turn h.one_le_next t
  keeps := h.keeps.trans h.keeps_turn.symm
  whole := h.whole_turn

theorem round_eq_some (hr : l.round s t = some r) :
    t = .replicate ∧ l.replicateToPeer s = some r ∧ r.sender = s.leader := by
  cases t with
  | replicate => exact ⟨rfl, hr, by rw [(l.replicateToPeer_eq_some.mp hr).2]⟩
  | propose command payload => cases hr
  | reply other hne request response => cases hr

theorem Follows.nextIndex_of_no_round (h : l.Follows s (t :: turns)) (hr : l.round s t = none) :
    l.nextIndex (l.turn s t).leader = l.nextIndex s.leader := by
  cases t with
  | replicate =>
      obtain ⟨r, hsome⟩ := h.exists_round
      cases hr.symm.trans hsome
  | propose command payload =>
      rw [turn_propose]
      rfl
  | reply other hne request response =>
      exact congrArg (Option.getD · 1) (RaftNode.nextIndex_handleAppendResponse_of_ne hne.symm)

/-- Rounds that are refused from the start are fewer than the next index. -/
theorem Follows.rejections_lt (h : l.Follows s turns) {k : ℕ} (hk : k ≤ (l.rounds s turns).length)
    (hfail : ∀ r ∈ (l.rounds s turns).take k, r.response.success = false) :
    k < l.nextIndex s.leader := by
  induction turns generalizing s k with
  | nil =>
      have hzero : k ≤ 0 := hk
      have := h.one_le_next
      omega
  | cons t turns ih =>
      unfold rounds at hk hfail
      rcases hr : l.round s t with _ | r
      · rw [hr] at hk hfail
        rw [← h.nextIndex_of_no_round hr]
        exact ih h.turn hk hfail
      · rw [hr] at hk hfail
        cases k with
        | zero => exact h.one_le_next
        | succ k =>
            obtain ⟨rfl, hround, -⟩ := round_eq_some hr
            have hturn := l.turn_replicate hround
            have hback := (nextIndex_of_rejected hround (h.keeps_round hround)
              (hfail r List.mem_cons_self)).1
            have hlt := ih h.turn (Nat.le_of_succ_le_succ hk)
              fun r' hr' => hfail r' (List.mem_cons_of_mem r hr')
            rw [hturn] at hlt
            omega

/-- A round that is taken while the log is uncompacted synchronises the two nodes. -/
theorem Follows.synchronised (h : l.Follows s (t :: turns)) (hr : l.round s t = some r)
    (hsucc : r.response.success = true) (h0 : s.leader.snapshotIndex = 0) :
    l.Synchronised r ∧ ((l.turn s t).leader.snapshotIndex = 0 → l.Synced (l.turn s t)) := by
  obtain ⟨rfl, hround, hsender⟩ := round_eq_some hr
  have hw := h.whole h0
  obtain ⟨hagrees, -, hmatched, hnext⟩ :=
    round_of_whole hw h.one_le_next hround (h.keeps_round hround) hsucc
  have hlast : s.leader.lastLogInfo.1 = s.leader.log.length := by
    rw [RaftNode.lastLogInfo_fst (by rw [h0]; exact hw.leader.contiguous), h0, Nat.zero_add]
  constructor
  · refine ⟨hsucc, ?_, ?_⟩
    · rw [hsender]
      exact hagrees
    · rw [hsender, hlast]
      exact hmatched
  · intro h0'
    rw [l.turn_replicate hround] at h0' ⊢
    unfold Synced
    rw [hnext, log_of_round hround h0', Nat.add_sub_cancel, List.take_length]
    exact hagrees

/-- A follower that has the entries before the next index has them after a turn. -/
theorem Follows.synced_turn (h : l.Follows s (t :: turns)) (hs : l.Synced s)
    (h0 : (l.turn s t).leader.snapshotIndex = 0) : l.Synced (l.turn s t) := by
  have hs0 := l.snapshotIndex_of_turn h0
  have hw := h.whole hs0
  cases t with
  | replicate =>
      obtain ⟨r, hr⟩ := h.exists_round
      exact (h.synchronised hr (success_of_synced hw hs hr (h.keeps_round hr)) hs0).2 h0
  | propose command payload =>
      have hlog := RaftNode.log_appendLocalEntry hw.leader hs0 command payload
      have hnext := hw.next_le
      rw [turn_propose]
      unfold Synced at hs ⊢
      show List.take (l.nextIndex s.leader - 1) _ <+: _
      rw [hlog, List.take_append_of_le_length (by omega)]
      exact hs
  | reply other hne request response =>
      have hlog : (l.turn s (.reply other hne request response)).leader.log = s.leader.log :=
        (RaftNode.handleAppendResponse_whole h0).2
      unfold Synced at hs ⊢
      rw [hlog, h.nextIndex_of_no_round rfl]
      exact hs

/-- From a synchronised state on every round of an uncompacted log is taken. -/
theorem Follows.synchronised_of_synced (h : l.Follows s turns)
    (hs : s.leader.snapshotIndex = 0 → l.Synced s) :
    ∀ r ∈ l.rounds s turns, r.sender.snapshotIndex = 0 → l.Synchronised r := by
  induction turns generalizing s with
  | nil => exact fun r hr => absurd hr List.not_mem_nil
  | cons t turns ih =>
      intro r hr h0
      unfold rounds at hr
      rcases List.mem_append.mp hr with hr | hr
      · have hround := Option.mem_toList.mp hr
        obtain ⟨rfl, hcall, hsender⟩ := round_eq_some hround
        rw [hsender] at h0
        exact (h.synchronised hround
          (success_of_synced (h.whole h0) (hs h0) hcall (h.keeps_round hcall)) h0).1
      · exact ih h.turn (fun h0' => h.synced_turn (hs (l.snapshotIndex_of_turn h0')) h0') r hr h0

/-- From the first round that is taken on every round of an uncompacted log is. -/
theorem Follows.synchronised_of_success (h : l.Follows s turns) {rs rs' : List (Round N P)}
    (hrounds : l.rounds s turns = rs ++ r :: rs') (hsucc : r.response.success = true) :
    ∀ r' ∈ r :: rs', r'.sender.snapshotIndex = 0 → l.Synchronised r' := by
  induction turns generalizing s rs with
  | nil => exact absurd hrounds.symm (List.append_ne_nil_of_right_ne_nil rs (List.cons_ne_nil r rs'))
  | cons t turns ih =>
      unfold rounds at hrounds
      rcases hround : l.round s t with _ | r₀
      · rw [hround] at hrounds
        exact ih h.turn hrounds
      · rw [hround] at hrounds
        obtain ⟨rfl, hcall, hsender⟩ := round_eq_some hround
        cases rs with
        | nil =>
            obtain ⟨rfl, rfl⟩ := List.cons.inj hrounds
            intro r' hr' h0
            rcases List.mem_cons.mp hr' with rfl | hr'
            · exact (h.synchronised hround hsucc (hsender ▸ h0)).1
            · refine h.turn.synchronised_of_synced (fun h0' => ?_) r' hr' h0
              exact (h.synchronised hround hsucc (l.snapshotIndex_of_turn h0')).2 h0'
        | cons r₁ rs => exact ih h.turn (List.cons.inj hrounds).2

/-- A leader that holds no entries of its own term compacts nothing. -/
theorem Follows.uncompacted (h : l.Follows s turns) (h0 : s.leader.snapshotIndex = 0)
    (hold : ∀ e ∈ l.grown s.leader.currentTerm s.leader.log turns, e.term ≠ s.leader.currentTerm) :
    ∀ r ∈ l.rounds s turns, r.sender.snapshotIndex = 0 := by
  induction turns generalizing s with
  | nil => exact fun r hr => absurd hr List.not_mem_nil
  | cons t turns ih =>
      have holder : ∀ e ∈ s.leader.log, e.term ≠ s.leader.currentTerm :=
        fun e he => hold e ((l.prefix_grown _ _ _).subset he)
      have hkeeps := h.keeps_turn
      have hturn : (l.turn s t).leader.snapshotIndex = 0 ∧
          ∀ e ∈ l.grown s.leader.currentTerm (l.turn s t).leader.log turns,
            e.term ≠ s.leader.currentTerm := by
        cases t with
        | replicate =>
            obtain ⟨r, hr⟩ := h.exists_round
            rw [l.turn_replicate hr, (l.replicateToPeer_eq_some.mp hr).2]
            obtain ⟨hindex, hlog⟩ := RaftNode.handleAppendResponse_of_older holder
            rw [hindex, hlog]
            exact ⟨h0, hold⟩
        | propose command payload =>
            refine absurd rfl (hold ⟨s.leader.log.length + 1, s.leader.currentTerm, command, payload⟩ ?_)
            exact (l.prefix_grown _ turns _).subset (List.mem_append_right _ List.mem_cons_self)
        | reply other hne request response =>
            obtain ⟨hindex, hlog⟩ := RaftNode.handleAppendResponse_of_older holder
            have hlog' : (l.turn s (.reply other hne request response)).leader.log = s.leader.log :=
              hlog
            rw [hlog']
            exact ⟨hindex.trans h0, hold⟩
      intro r hr
      unfold rounds at hr
      rcases List.mem_append.mp hr with hr | hr
      · rw [(round_eq_some (Option.mem_toList.mp hr)).2.2]
        exact h0
      · exact ih h.turn hturn.1 (hkeeps.symm ▸ hturn.2) r hr

end run

/-! ## After an election -/

/-- How a leader comes together with a peer: among any more rounds than its log has entries one of the
first is taken, the next index stays above zero, and from a round that is taken on the follower has all
of the log of each request, for as long as the log is uncompacted. It is uncompacted while it has no
entries of the leader's own term, as it is when the leader is elected. -/
structure BacksOff (s : Pair N P) (turns : List (Turn N P l.peer)) : Prop where
  terminates : s.leader.log.length < (l.rounds s turns).length →
    ∃ r ∈ (l.rounds s turns).take (s.leader.log.length + 1), r.response.success = true
  one_le_next : ∀ k, 1 ≤ l.nextIndex (l.run s (turns.take k)).leader
  synchronised : ∀ (rs : List (Round N P)) (r : Round N P) (rs' : List (Round N P)),
    l.rounds s turns = rs ++ r :: rs' → r.response.success = true →
      ∀ r' ∈ r :: rs', r'.sender.snapshotIndex = 0 → l.Synchronised r'
  uncompacted : (∀ e ∈ l.grown s.leader.currentTerm s.leader.log turns,
      e.term ≠ s.leader.currentTerm) → ∀ r ∈ l.rounds s turns, r.sender.snapshotIndex = 0

theorem one_le_nextIndex_run {s : Pair N P} (h : 1 ≤ l.nextIndex s.leader)
    (turns : List (Turn N P l.peer)) : 1 ≤ l.nextIndex (l.run s turns).leader := by
  unfold run
  induction turns generalizing s with
  | nil => exact h
  | cons t turns ih => exact ih (l.one_le_nextIndex_turn h t)

/-- The next index of a leader with an uncompacted log is one past its end when it is elected. -/
theorem nextIndex_becomeLeader {nd : RaftNode N P} (h0 : nd.snapshotIndex = 0)
    (hG : Aligned nd.log) :
    l.nextIndex (nd.becomeLeader l.self (l.cfg.peers l.self)) = nd.log.length + 1 := by
  have hlast : nd.lastLogInfo.1 = nd.log.length := by
    rw [RaftNode.lastLogInfo_fst (by rw [h0]; exact hG.contiguous), h0, Nat.zero_add]
  unfold nextIndex RaftNode.becomeLeader
  simp only [if_pos l.peer_mem, Option.getD_some, hlast]

/-- A leader that was just elected, and keeps its term, comes together with a peer, whatever the
follower's log is, if the two are uncompacted and match. -/
theorem backsOff_becomeLeader {nd fl : RaftNode N P} {turns : List (Turn N P l.peer)}
    (h0 : nd.snapshotIndex = 0) (hG : Aligned nd.log) (hF : Aligned fl.log)
    (hmatch : LogMatching fl.log (l.grown nd.currentTerm nd.log turns))
    (hkeeps : (l.run ⟨nd.becomeLeader l.self (l.cfg.peers l.self), fl⟩ turns).leader.currentTerm =
      nd.currentTerm) :
    l.BacksOff ⟨nd.becomeLeader l.self (l.cfg.peers l.self), fl⟩ turns := by
  have hnext := l.nextIndex_becomeLeader h0 hG
  have hpos : 1 ≤ l.nextIndex (nd.becomeLeader l.self (l.cfg.peers l.self)) := by
    rw [hnext]
    exact Nat.le_add_left 1 _
  have hfollows : l.Follows ⟨nd.becomeLeader l.self (l.cfg.peers l.self), fl⟩ turns :=
    ⟨rfl, hpos, hkeeps, fun _ => ⟨hG, hF, hmatch, hnext.le⟩⟩
  refine ⟨fun hlen => ?_, fun k => l.one_le_nextIndex_run hpos _, ?_, ?_⟩
  · by_contra hnone
    refine lt_irrefl (nd.log.length + 1) ((hfollows.rejections_lt hlen fun r hr => ?_).trans_eq hnext)
    rcases hsucc : r.response.success with _ | _
    · rfl
    · exact absurd ⟨r, hr, hsucc⟩ hnone
  · exact fun rs r rs' hrounds => hfollows.synchronised_of_success hrounds
  · exact hfollows.uncompacted h0

/-- A cluster of two. -/
def two : Link String where
  cfg :=
    { members := ["node1", "node2"]
      nodup := by decide
      threshold := fun _ => 50
      threshold_pos := fun _ => by decide }
  self := "node1"
  peer := "node2"
  peer_mem := by decide

/-- A follower with two entries of a term that the leader did not see: one round is refused, the next
replaces them, and then an entry of the new term follows. -/
theorem backsOff_becomeLeader_conflict : two.BacksOff
    ⟨RaftNode.becomeLeader two.self (two.cfg.peers two.self)
        { currentTerm := 3, log := [bare 1 1, bare 2 2] },
      { currentTerm := 2, log := [bare 1 1, bare 2 1, bare 3 1] }⟩
    [.replicate, .replicate, .propose .registerNode (), .replicate] := by
  refine two.backsOff_becomeLeader rfl ?_ ?_ (two.logMatching_grown (by decide) _ ?_) rfl
  · rintro (_ | _ | i) e he
    all_goals simp at he
    all_goals subst he; rfl
  · rintro (_ | _ | _ | i) e he
    all_goals simp at he
    all_goals subst he; rfl
  · rintro (_ | _ | i) a b ha hb hterm
    · rfl
    · simp only [List.getElem?_cons_succ, List.getElem?_cons_zero, Option.some.injEq] at ha hb
      subst ha hb
      cases hterm
    · simp at hb

end Link

end NanoFabric.Raft
