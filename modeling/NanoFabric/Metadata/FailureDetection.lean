import NanoFabric.Metadata.Stores

/-!
# Failure detection

Histories of the membership registry of `metadata/membership.py`: registrations and heartbeats, which
carry times of their own and may arrive in any order, and checks for failures.

* `MembershipRegistry.Recorded.check` — what a record says of the messages of its node.
* `MembershipRegistry.detects_last` — after a check a node is down just when the message that arrived
  last is older than the timeout.
* `MembershipRegistry.detects_newest_counterexample` — the newest message does not decide.
* `MembershipRegistry.down_iff_newest` — unless messages arrive in the order of their times.

A heartbeat without a time counts with the time at which it arrives.
-/

namespace NanoFabric.Metadata

open NanoFabric.Found

/-! ## Histories -/

/-- A call of the registry. -/
inductive MembershipEvent
  | register (nodeId address : String) (now : ℤ)
  | heartbeat (nodeId : String) (timestamp : ℤ)
  | checkFailures (now : ℤ)
deriving DecidableEq

/-- The times of the checks. -/
def checkTimes (evs : List MembershipEvent) : List ℤ :=
  evs.filterMap fun
    | .checkFailures now => some now
    | _ => none

/-- Checks come at times that do not decrease. -/
def ChecksInOrder (evs : List MembershipEvent) : Prop := (checkTimes evs).Pairwise (· ≤ ·)

instance (evs : List MembershipEvent) : Decidable (ChecksInOrder evs) :=
  inferInstanceAs (Decidable ((checkTimes evs).Pairwise (· ≤ ·)))

/-- The times of the messages of a node, with one more event. A heartbeat is refused until the node is
registered. -/
def receive (nodeId : String) (times : List ℤ) : MembershipEvent → List ℤ
  | .register n _ now => if n = nodeId then times ++ [now] else times
  | .heartbeat n timestamp => if n = nodeId ∧ times ≠ [] then times ++ [timestamp] else times
  | .checkFailures _ => times

/-- The times of the messages that were received of a node, in the order of their arrival. -/
def received (nodeId : String) (evs : List MembershipEvent) : List ℤ :=
  evs.foldl (receive nodeId) []

namespace MembershipRegistry

/-- The registry after a call. One that raises leaves it. -/
def handle (failureTimeoutMs : ℤ) (m : MembershipRegistry) : MembershipEvent → MembershipRegistry
  | .register nodeId address now => m.register nodeId address now
  | .heartbeat nodeId timestamp => ((m.heartbeat nodeId timestamp).map Prod.fst).getD m
  | .checkFailures now => m.checkFailures failureTimeoutMs now

/-- The registry after a history. -/
def after (failureTimeoutMs : ℤ) (evs : List MembershipEvent) : MembershipRegistry :=
  evs.foldl (handle failureTimeoutMs) empty

/-- The status of a node. -/
def status (m : MembershipRegistry) (nodeId : String) : Option NodeStatus :=
  (m.nodes.get? nodeId).map NodeRecord.status

/-- What a check at the time `now` finds, where `pick` is the message of a node that decides: the node
is down just when that message is older than the timeout, it has failed while it is down, and another
order in which the same message decides gives the same. -/
structure Detects (pick : List ℤ → Option ℤ) (failureTimeoutMs now : ℤ)
    (evs : List MembershipEvent) : Prop where
  down : ∀ nodeId record,
    (after failureTimeoutMs (evs ++ [.checkFailures now])).nodes.get? nodeId = some record →
    (record.status = .down ↔ ∃ t ∈ pick (received nodeId evs), failureTimeoutMs < now - t)
  failedAt : ∀ nodeId record, (after failureTimeoutMs evs).nodes.get? nodeId = some record ∨
    (after failureTimeoutMs (evs ++ [.checkFailures now])).nodes.get? nodeId = some record →
    (record.failedAt.isSome = true ↔ record.status = .down)
  orders : ∀ evs' : List MembershipEvent, evs'.Perm evs →
    ChecksInOrder (evs' ++ [.checkFailures now]) → ∀ nodeId,
    pick (received nodeId evs') = pick (received nodeId evs) →
    (after failureTimeoutMs (evs' ++ [.checkFailures now])).status nodeId =
      (after failureTimeoutMs (evs ++ [.checkFailures now])).status nodeId

/-! ## Records -/

/-- What a record says of the messages of its node and of the checks. -/
structure Recorded (failureTimeoutMs : ℤ) (times checks : List ℤ) (record : NodeRecord) : Prop where
  lastSeen : times.getLast? = some record.lastSeen
  failedAt : record.failedAt.isSome = true ↔ record.status = .down
  failed : record.status = .down → ∃ c ∈ checks, failureTimeoutMs < c - record.lastSeen

variable {timeout now : ℤ} {times checks : List ℤ} {record : NodeRecord}

/-- A message of the node. -/
theorem recorded_message (times checks : List ℤ) {t : ℤ} (hstatus : record.status = .up)
    (hlastSeen : record.lastSeen = t) (hfailedAt : record.failedAt = none) :
    Recorded timeout (times ++ [t]) checks record where
  lastSeen := by rw [List.getLast?_concat, hlastSeen]
  failedAt := by
    rw [hfailedAt, hstatus]
    exact iff_of_false Bool.false_ne_true nofun
  failed hdown := by
    rw [hstatus] at hdown
    cases hdown

/-- A check of the node. -/
theorem Recorded.check (h : Recorded timeout times checks record) (now : ℤ) :
    Recorded timeout times (checks ++ [now])
      (if record.status = .down then record
        else if timeout < now - record.lastSeen then
          { record with status := .down, failedAt := some now }
        else record) := by
  have hmore : ∀ c ∈ checks, c ∈ checks ++ [now] := fun c hc => List.mem_append_left _ hc
  split_ifs with hdown hlate
  · refine ⟨h.lastSeen, h.failedAt, fun hdown => ?_⟩
    obtain ⟨c, hc, hlt⟩ := h.failed hdown
    exact ⟨c, hmore c hc, hlt⟩
  · exact ⟨h.lastSeen, iff_of_true rfl rfl, fun _ =>
      ⟨now, List.mem_append_right _ List.mem_cons_self, hlate⟩⟩
  · exact ⟨h.lastSeen, h.failedAt, fun hdown' => absurd hdown' hdown⟩

theorem checkTimes_append (evs evs' : List MembershipEvent) :
    checkTimes (evs ++ evs') = checkTimes evs ++ checkTimes evs' :=
  List.filterMap_append

theorem received_concat (nodeId : String) (evs : List MembershipEvent) (ev : MembershipEvent) :
    received nodeId (evs ++ [ev]) = receive nodeId (received nodeId evs) ev := by
  unfold received
  rw [List.foldl_append]
  rfl

theorem after_concat (timeout : ℤ) (evs : List MembershipEvent) (ev : MembershipEvent) :
    after timeout (evs ++ [ev]) = handle timeout (after timeout evs) ev := by
  unfold after
  rw [List.foldl_append]
  rfl

/-- A node has a record just when it has messages, and the record says what it should of them. -/
structure Known (failureTimeoutMs : ℤ) (nodeId : String) (times checks : List ℤ)
    (m : MembershipRegistry) : Prop where
  silent : m.nodes.get? nodeId = none → times = []
  recorded : ∀ record, m.nodes.get? nodeId = some record →
    Recorded failureTimeoutMs times checks record

section known

variable {m : MembershipRegistry} {nodeId : String}

/-- A message that is taken. -/
theorem Known.message (h : Known timeout nodeId times checks m) {n : String} {t : ℤ}
    (hstatus : record.status = .up) (hlastSeen : record.lastSeen = t)
    (hfailedAt : record.failedAt = none) :
    Known timeout nodeId (if n = nodeId then times ++ [t] else times) checks
      ⟨m.nodes.set n record⟩ := by
  by_cases hn : nodeId = n
  · subst hn
    rw [if_pos rfl]
    refine ⟨fun hnone => ?_, fun record' hrecord => ?_⟩
    · rw [Dict.get?_set_self] at hnone
      cases hnone
    · rw [Dict.get?_set_self] at hrecord
      obtain rfl := Option.some.inj hrecord
      exact recorded_message times checks hstatus hlastSeen hfailedAt
  · rw [if_neg (Ne.symm hn)]
    refine ⟨fun hnone => ?_, fun record' hrecord => ?_⟩
    · rw [Dict.get?_set_of_ne hn] at hnone
      exact h.silent hnone
    · rw [Dict.get?_set_of_ne hn] at hrecord
      exact h.recorded record' hrecord

theorem Known.register (h : Known timeout nodeId times checks m) (n address : String) (now : ℤ) :
    Known timeout nodeId (receive nodeId times (.register n address now)) checks
      (m.register n address now) := by
  unfold MembershipRegistry.register receive
  refine h.message ?_ ?_ ?_ <;>
  · unfold registered
    split <;> rfl

/-- A heartbeat that arrives before the node is registered raises, and is not counted. -/
theorem Known.heartbeat (h : Known timeout nodeId times checks m) (n : String) (timestamp : ℤ) :
    Known timeout nodeId (receive nodeId times (.heartbeat n timestamp)) checks
      (((m.heartbeat n timestamp).map Prod.fst).getD m) := by
  unfold MembershipRegistry.heartbeat receive
  simp only
  rcases hget : m.nodes.get? n with _ | existing
  · have hnot : ¬ (n = nodeId ∧ times ≠ []) := by
      rintro ⟨rfl, hne⟩
      exact hne (h.silent hget)
    rw [if_neg hnot]
    exact h
  · have hne : n = nodeId → times ≠ [] := by
      rintro rfl rfl
      have hlast := (h.recorded existing hget).lastSeen
      cases hlast
    have hiff : (n = nodeId ∧ times ≠ []) ↔ n = nodeId := ⟨And.left, fun hn => ⟨hn, hne hn⟩⟩
    simp only [hiff]
    exact h.message rfl rfl rfl

theorem Known.checkFailures (h : Known timeout nodeId times checks m) (now : ℤ) :
    Known timeout nodeId times (checks ++ [now]) (m.checkFailures timeout now) := by
  unfold MembershipRegistry.checkFailures
  refine ⟨fun hnone => ?_, fun record hrecord => ?_⟩
  · rw [Dict.get?_mapVals] at hnone
    exact h.silent (Option.map_eq_none_iff.mp hnone)
  · rw [Dict.get?_mapVals] at hrecord
    obtain ⟨before, hbefore, rfl⟩ := Option.map_eq_some_iff.mp hrecord
    exact (h.recorded before hbefore).check now

end known

/-- In every history a node has a record just when it has messages, and the record says what it should
of them. -/
theorem known_after (timeout : ℤ) (evs : List MembershipEvent) (nodeId : String) :
    Known timeout nodeId (received nodeId evs) (checkTimes evs) (after timeout evs) := by
  induction evs using List.reverseRecOn with
  | nil => exact ⟨fun _ => rfl, fun _ hrecord => absurd hrecord (Option.some_ne_none _).symm⟩
  | append_singleton evs ev ih =>
      rw [after_concat, received_concat, checkTimes_append]
      cases ev with
      | register n address now =>
          have hchecks : checkTimes [.register n address now] = [] := rfl
          rw [hchecks, List.append_nil]
          exact ih.register n address now
      | heartbeat n timestamp =>
          have hchecks : checkTimes [.heartbeat n timestamp] = [] := rfl
          rw [hchecks, List.append_nil]
          exact ih.heartbeat n timestamp
      | checkFailures now => exact ih.checkFailures now

/-! ## The message that arrived last -/

/-- The status after a check. -/
theorem status_after_check {now : ℤ} {evs : List MembershipEvent} (timeout : ℤ)
    (h : ChecksInOrder (evs ++ [.checkFailures now])) (nodeId : String) :
    (after timeout (evs ++ [.checkFailures now])).status nodeId =
      (received nodeId evs).getLast?.map fun t =>
        if timeout < now - t then NodeStatus.down else NodeStatus.up := by
  obtain ⟨hnone, hsome⟩ := known_after timeout evs nodeId
  have hstatus : (after timeout (evs ++ [.checkFailures now])).status nodeId =
      ((after timeout evs).nodes.get? nodeId).map fun record =>
        if record.status = .down then record.status
        else if timeout < now - record.lastSeen then NodeStatus.down else record.status := by
    rw [after_concat, status, handle, checkFailures, Dict.get?_mapVals, Option.map_map]
    refine congrArg (Option.map · _) (funext fun record => ?_)
    rw [Function.comp_apply]
    split_ifs <;> rfl
  rw [hstatus]
  rcases hget : (after timeout evs).nodes.get? nodeId with _ | record
  · rw [hnone hget]
    rfl
  · have hrecorded := hsome record hget
    rw [hrecorded.lastSeen, Option.map_some, Option.map_some]
    refine congrArg some ?_
    by_cases hdown : record.status = .down
    · obtain ⟨c, hc, hlt⟩ := hrecorded.failed hdown
      have hle : c ≤ now := by
        unfold ChecksInOrder at h
        rw [checkTimes_append, List.pairwise_append] at h
        exact h.2.2 c hc now List.mem_cons_self
      rw [if_pos hdown, hdown, if_pos (by omega)]
    · have hup : record.status = .up := by
        cases hrecord : record.status with
        | up => rfl
        | down => exact absurd hrecord hdown
      rw [if_neg hdown, hup]

theorem down_iff_last {timeout now : ℤ} {evs : List MembershipEvent} {nodeId : String}
    {record : NodeRecord} (h : ChecksInOrder (evs ++ [.checkFailures now]))
    (hrecord : (after timeout (evs ++ [.checkFailures now])).nodes.get? nodeId = some record) :
    record.status = .down ↔ ∃ t ∈ (received nodeId evs).getLast?, timeout < now - t := by
  have hstatus := status_after_check timeout h nodeId
  rw [status, hrecord, Option.map_some] at hstatus
  obtain ⟨t, ht, hrecordStatus⟩ := Option.map_eq_some_iff.mp hstatus.symm
  rw [ht, ← hrecordStatus]
  simp only [Option.mem_some_iff, exists_eq_left']
  split_ifs with hlate
  · exact iff_of_true rfl hlate
  · exact iff_of_false nofun hlate

/-- After a check a node is down just when its message that arrived last is older than the timeout. -/
theorem detects_last {timeout now : ℤ} {evs : List MembershipEvent}
    (h : ChecksInOrder (evs ++ [.checkFailures now])) : Detects List.getLast? timeout now evs where
  down _ _ hrecord := down_iff_last h hrecord
  failedAt nodeId record hrecord := by
    rcases hrecord with hrecord | hrecord
    · exact ((known_after timeout _ nodeId).recorded record hrecord).failedAt
    · exact ((known_after timeout _ nodeId).recorded record hrecord).failedAt
  orders evs' _ h' nodeId hlast := by
    rw [status_after_check timeout h, status_after_check timeout h', hlast]

/-- A heartbeat that another one has overtaken. -/
def overtaken : List MembershipEvent :=
  [.register "node1" "127.0.0.1:8001" 0, .heartbeat "node1" 5000, .heartbeat "node1" 1000]

theorem detects_last_overtaken : Detects List.getLast? 3000 5000 overtaken :=
  detects_last (by decide)

/-- The node is down although its newest heartbeat is not old. -/
theorem detects_newest_counterexample : ¬ ∀ (timeout now : ℤ) (evs : List MembershipEvent),
    ChecksInOrder (evs ++ [.checkFailures now]) → Detects List.max? timeout now evs := by
  intro h
  have hrecord : (after 3000 (overtaken ++ [.checkFailures 5000])).nodes.get? "node1" =
      some ⟨"node1", .down, "127.0.0.1:8001", 1000, 0, some 5000, none⟩ := by
    decide +kernel
  obtain ⟨t, ht, hlate⟩ := ((h 3000 5000 overtaken (by decide)).down "node1" _ hrecord).mp rfl
  have hnewest : (received "node1" overtaken).max? = some 5000 := by decide +kernel
  rw [hnewest] at ht
  obtain rfl := Option.some.inj ht
  revert hlate
  decide

/-! ## Messages in the order of their times -/

theorem getLast?_eq_max? {times : List ℤ} (h : times.Pairwise (· ≤ ·)) :
    times.getLast? = times.max? := by
  rcases List.eq_nil_or_concat' times with rfl | ⟨before, t, rfl⟩
  · rfl
  · rw [List.getLast?_concat, eq_comm, List.max?_eq_some_iff]
    refine ⟨List.mem_append_right _ List.mem_cons_self, fun t' ht' => ?_⟩
    rcases List.mem_append.mp ht' with ht' | ht'
    · exact (List.pairwise_append.mp h).2.2 t' ht' t List.mem_cons_self
    · exact (List.mem_singleton.mp ht').le

/-- The newest message of a node decides if its messages arrive in the order of their times. -/
theorem down_iff_newest {timeout now : ℤ} {evs : List MembershipEvent} {nodeId : String}
    {record : NodeRecord} (h : ChecksInOrder (evs ++ [.checkFailures now]))
    (horder : (received nodeId evs).Pairwise (· ≤ ·))
    (hrecord : (after timeout (evs ++ [.checkFailures now])).nodes.get? nodeId = some record) :
    record.status = .down ↔ ∃ t ∈ (received nodeId evs).max?, timeout < now - t := by
  rw [← getLast?_eq_max? horder]
  exact down_iff_last h hrecord

end MembershipRegistry

end NanoFabric.Metadata
