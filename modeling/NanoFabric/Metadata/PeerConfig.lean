import NanoFabric.Found.Quorum
import NanoFabric.Found.Runs
import NanoFabric.Metadata.ReplicaAgreement
import NanoFabric.Raft.Models

/-!
# The cluster configuration

A configuration command changes three things: `_peers` of every state machine that applies it, the
`peer_urls` that the endpoint on the leader installs after its proposal, and, at a restart, the
`peer_urls` that a node reads from its environment. Elections and commits count over `peer_urls`.

* `Members.step` — proposals, the two halves of an endpoint's read and install, applications,
  snapshots and restarts.
* `Members.Agreement` — every node counts over the initial set updated by the commands it has
  applied, so that majorities of nodes with equal prefixes meet.
* `agreement_iff` — a run keeps this just when its configuration commands change nothing.
-/

namespace NanoFabric.Metadata

open NanoFabric.Found
open NanoFabric.Raft (majorityCount)

/-- A call of one of the configuration endpoints, with the names of the URLs that it gives. -/
inductive ConfigCall
  | reconfigure (peers : List String) (peerUrls : Finset String)
  | addPeer (peerId : String)
  | removePeer (peerId : String)
deriving DecidableEq

namespace ConfigCall

/-- The command that the endpoint proposes. -/
def command : ConfigCall → Command
  | .reconfigure peers _ => .reconfigureCluster (some peers)
  | .addPeer peerId => .addPeer peerId
  | .removePeer peerId => .removePeer peerId

/-- The names of the URLs that the endpoint installs when it finds `current`.
Source: `metadata/app.py`, `raft_reconfigure`, `raft_add_peer`, `raft_remove_peer`. -/
def urls (current : Finset String) : ConfigCall → Finset String
  | .reconfigure peers peerUrls => if peerUrls = ∅ then peers.toFinset else peerUrls
  | .addPeer peerId => insert peerId current
  | .removePeer peerId => current.erase peerId

end ConfigCall

/-- What a command does to a set of peers. -/
def applyConfig (peers : Finset String) : Command → Finset String
  | .addPeer peerId => insert peerId peers
  | .removePeer peerId => peers.erase peerId
  | .reconfigureCluster new => (new.getD []).toFinset
  | _ => peers

/-- The initial set of peers updated by the commands of a log, in order. -/
def configAfter (initial : Finset String) (log : List Command) : Finset String :=
  log.foldl applyConfig initial

theorem configAfter_take_succ {initial : Finset String} {log : List Command} {a : ℕ} {c : Command}
    (hc : log[a]? = some c) : configAfter initial (log.take (a + 1)) =
      applyConfig (configAfter initial (log.take a)) c := by
  unfold configAfter
  rw [List.take_add_one, hc, List.foldl_append]
  rfl

/-- An endpoint that waits for its proposal, and then has computed what it installs. -/
structure PendingCall where
  call : ConfigCall
  /-- The index of its entry. -/
  index : ℕ
  urls : Option (Finset String)

/-- A metadata node with the peers that it counts. -/
structure Member where
  replica : Replica
  /-- The names of `RaftNode.peer_urls`. -/
  peerUrls : Finset String
  calls : List PendingCall

/-- The committed log and the nodes, which are the initial peers. -/
structure Members (initial : Finset String) where
  log : List Command
  nodes : {n // n ∈ initial} → Member

/-- A step. -/
inductive MemberEvent (initial : Finset String)
  /-- An endpoint proposes its command, which commits. -/
  | propose (n : {n // n ∈ initial}) (call : ConfigCall)
  /-- Another command commits. -/
  | submit (c : Command)
  /-- The `i`-th waiting endpoint sees its entry committed and computes the new URLs. -/
  | read (n : {n // n ∈ initial}) (i : ℕ)
  /-- The `i`-th waiting endpoint installs them. -/
  | install (n : {n // n ∈ initial}) (i : ℕ)
  /-- A node applies its next entry. -/
  | apply (n : {n // n ∈ initial}) (r : Readings)
  /-- A node takes a Raft snapshot. -/
  | snapshot (n : {n // n ∈ initial})
  /-- A node restarts and reads its configuration again. -/
  | restart (n : {n // n ∈ initial})

namespace Members

variable {initial : Finset String}

/-- Nodes with empty databases that all read the initial peers. -/
def init (initial : Finset String) : Members initial :=
  ⟨[], fun _ => ⟨⟨.empty, 0, 0, none⟩, initial, []⟩⟩

/-- The state with another node. -/
def setNode (s : Members initial) (n : {n // n ∈ initial}) (x : Member) : Members initial :=
  { s with nodes := Function.update s.nodes n x }

theorem nodes_setNode (s : Members initial) (n m : {n // n ∈ initial}) (x : Member) :
    (s.setNode n x).nodes m = if m = n then x else s.nodes m :=
  Function.update_apply _ _ _ _

/-- Whether a command is a configuration command. -/
def isConfig : Command → Bool
  | .addPeer _ | .removePeer _ | .reconfigureCluster _ => true
  | _ => false

/-- One step. -/
def step (s : Members initial) : MemberEvent initial → Option (Members initial)
  | .propose n call =>
      some { s.setNode n { s.nodes n with
          calls := (s.nodes n).calls ++ [⟨call, s.log.length + 1, none⟩] } with
        log := s.log ++ [call.command] }
  | .submit c => if isConfig c then none else some { s with log := s.log ++ [c] }
  | .read n i =>
      ((s.nodes n).calls[i]?).bind fun p =>
        if p.index ≤ (s.nodes n).replica.applied then
          some <| s.setNode n { s.nodes n with
            calls := (s.nodes n).calls.set i { p with urls := some (p.call.urls (s.nodes n).peerUrls) } }
        else none
  | .install n i =>
      ((s.nodes n).calls[i]?).bind fun p => p.urls.map fun urls =>
        s.setNode n { s.nodes n with peerUrls := urls, calls := (s.nodes n).calls.eraseIdx i }
  | .apply n r =>
      (s.log[(s.nodes n).replica.applied]?).map fun c =>
        s.setNode n { s.nodes n with
          replica := { (s.nodes n).replica with
            machine := (s.nodes n).replica.machine.apply r c
            applied := (s.nodes n).replica.applied + 1 } }
  | .snapshot n =>
      if (s.nodes n).replica.applied = 0 then none
      else some <| s.setNode n { s.nodes n with
        replica := { (s.nodes n).replica with
          snapshot := some ((s.nodes n).replica.applied,
            (s.nodes n).replica.machine.buildSnapshot) } }
  | .restart n =>
      some <| s.setNode n ⟨Replicas.restarted (s.nodes n).replica, initial, []⟩

/-- A node counts `Q` as a majority: it is of the node and its peers, and as many as
`majority_count` asks for. -/
def IsMajority (s : Members initial) (n : {n // n ∈ initial}) (Q : Finset String) : Prop :=
  Q ⊆ insert n.1 (s.nodes n).peerUrls ∧
    majorityCount ((s.nodes n).peerUrls.erase n.1).card ≤ Q.card

/-- Every node counts over the initial set updated by the commands it has applied; nodes that have
applied the same entries count over the same set, and their majorities meet. -/
structure Agreement (s : Members initial) : Prop where
  config : ∀ n, (s.nodes n).peerUrls =
    configAfter initial (s.log.take (s.nodes n).replica.applied)
  same : ∀ n n', (s.nodes n).replica.applied = (s.nodes n').replica.applied →
    (s.nodes n).peerUrls = (s.nodes n').peerUrls
  meet : ∀ n n', (s.nodes n).replica.applied = (s.nodes n').replica.applied →
    ∀ Q Q', s.IsMajority n Q → s.IsMajority n' Q' → ∃ m, m ∈ Q ∧ m ∈ Q'

/-- A node applies no command that changes the initial peers, and no endpoint installs others. -/
def KeepsPeers (s : Members initial) : MemberEvent initial → Prop
  | .apply n _ => ∀ c, s.log[(s.nodes n).replica.applied]? = some c → applyConfig initial c = initial
  | .install n i => ∀ p, (s.nodes n).calls[i]? = some p → p.call.urls initial = initial
  | _ => True

/-! ## The invariant -/

/-- Every node counts over the initial peers, which the commands it has applied have not changed. -/
structure Invariant (s : Members initial) : Prop where
  peerUrls : ∀ n, (s.nodes n).peerUrls = initial
  applied : ∀ n, (s.nodes n).replica.applied ≤ s.log.length
  config : ∀ n, ∀ j ≤ (s.nodes n).replica.applied, configAfter initial (s.log.take j) = initial
  snapshot : ∀ n k data, (s.nodes n).replica.snapshot = some (k, data) →
    k ≤ (s.nodes n).replica.applied
  calls : ∀ n, ∀ p ∈ (s.nodes n).calls, ∀ u, p.urls = some u → u = p.call.urls initial

theorem invariant_init : Invariant (init initial) where
  peerUrls _ := rfl
  applied _ := Nat.zero_le _
  config n j hj := by
    rw [Nat.le_zero.mp hj]
    rfl
  snapshot _ _ _ h := by cases h
  calls _ _ hp := by cases hp

variable {s s' : Members initial}

/-- One node changes. -/
theorem Invariant.setNode {n : {n // n ∈ initial}} {x : Member} (h : Invariant s)
    (hurls : x.peerUrls = initial) (happlied : x.replica.applied ≤ s.log.length)
    (hconfig : ∀ j ≤ x.replica.applied, configAfter initial (s.log.take j) = initial)
    (hsnapshot : ∀ k data, x.replica.snapshot = some (k, data) → k ≤ x.replica.applied)
    (hcalls : ∀ p ∈ x.calls, ∀ u, p.urls = some u → u = p.call.urls initial) :
    Invariant (s.setNode n x) where
  peerUrls m := by
    rw [nodes_setNode]
    split
    · exact hurls
    · exact h.peerUrls m
  applied m := by
    rw [nodes_setNode]
    split
    · exact happlied
    · exact h.applied m
  config m := by
    rw [nodes_setNode]
    split
    · exact hconfig
    · exact h.config m
  snapshot m := by
    rw [nodes_setNode]
    split
    · exact hsnapshot
    · exact h.snapshot m
  calls m := by
    rw [nodes_setNode]
    split
    · exact hcalls
    · exact h.calls m

/-- The log grows. -/
theorem Invariant.append (h : Invariant s) (c : Command) :
    Invariant { s with log := s.log ++ [c] } where
  peerUrls := h.peerUrls
  applied n := (h.applied n).trans (by simp)
  config n j hj := by
    rw [List.take_append_of_le_length (hj.trans (h.applied n))]
    exact h.config n j hj
  snapshot := h.snapshot
  calls := h.calls

/-- A restart begins at an entry that the node had applied. -/
theorem applied_restarted_le {x : Replica} (h : ∀ k data, x.snapshot = some (k, data) → k ≤ x.applied) :
    (Replicas.restarted x).applied ≤ x.applied := by
  unfold Replicas.restarted
  split
  · exact Nat.zero_le _
  · rename_i k data hsnap
    exact h k data hsnap

theorem snapshot_restarted_le {x : Replica} {k : ℕ} {data : Snapshot}
    (h : (Replicas.restarted x).snapshot = some (k, data)) : k ≤ (Replicas.restarted x).applied := by
  unfold Replicas.restarted at h ⊢
  split at h
  · rename_i hsnap
    rw [hsnap] at h
    cases h
  · rename_i k' data' hsnap
    rw [hsnap] at h
    obtain ⟨rfl, rfl⟩ := Prod.mk.inj (Option.some.inj h)
    rw [hsnap]

theorem Invariant.step {ev : MemberEvent initial} (h : Invariant s) (hC : KeepsPeers s ev)
    (hstep : step s ev = some s') : Invariant s' := by
  cases ev with
  | propose n call =>
      obtain rfl := Option.some.inj hstep
      have hnode : Invariant (s.setNode n { s.nodes n with
          calls := (s.nodes n).calls ++ [⟨call, s.log.length + 1, none⟩] }) := by
        refine h.setNode ?_ ?_ ?_ ?_ ?_
        · exact h.peerUrls n
        · exact h.applied n
        · exact h.config n
        · exact h.snapshot n
        · intro p hp u hu
          rcases List.mem_append.mp hp with hp | hp
          · exact h.calls n p hp u hu
          · obtain rfl := List.mem_singleton.mp hp
            cases hu
      exact hnode.append call.command
  | submit c =>
      simp only [Members.step, Option.ite_none_left_eq_some, Option.some.injEq] at hstep
      obtain ⟨-, rfl⟩ := hstep
      exact h.append c
  | read n i =>
      obtain ⟨p, hp, hstep⟩ := Option.bind_eq_some_iff.mp hstep
      simp only [Option.ite_none_right_eq_some, Option.some.injEq] at hstep
      obtain ⟨-, rfl⟩ := hstep
      refine h.setNode ?_ ?_ ?_ ?_ ?_
      · exact h.peerUrls n
      · exact h.applied n
      · exact h.config n
      · exact h.snapshot n
      · intro q hq u hu
        rcases List.mem_or_eq_of_mem_set hq with hq | rfl
        · exact h.calls n q hq u hu
        · rw [h.peerUrls n] at hu
          exact (Option.some.inj hu).symm
  | install n i =>
      obtain ⟨p, hp, hstep⟩ := Option.bind_eq_some_iff.mp hstep
      obtain ⟨u, hu, rfl⟩ := Option.map_eq_some_iff.mp hstep
      refine h.setNode ?_ (h.applied n) (h.config n) (h.snapshot n) ?_
      · exact (h.calls n p (List.mem_of_getElem? hp) u hu).trans (hC p hp)
      · exact fun q hq => h.calls n q (List.mem_of_mem_eraseIdx hq)
  | apply n r =>
      obtain ⟨c, hc, rfl⟩ := Option.map_eq_some_iff.mp hstep
      refine h.setNode (h.peerUrls n) (List.getElem?_eq_some_iff.mp hc).1 ?_ ?_ (h.calls n)
      · intro j hj
        rcases Nat.le_succ_iff.mp hj with hj | rfl
        · exact h.config n j hj
        · rw [configAfter_take_succ hc, h.config n _ le_rfl]
          exact hC c hc
      · exact fun k data hdata => (h.snapshot n k data hdata).trans (Nat.le_succ _)
  | snapshot n =>
      simp only [Members.step, Option.ite_none_left_eq_some, Option.some.injEq] at hstep
      obtain ⟨-, rfl⟩ := hstep
      refine h.setNode (h.peerUrls n) (h.applied n) (h.config n) ?_ (h.calls n)
      intro k data hdata
      obtain ⟨rfl, rfl⟩ := Prod.mk.inj (Option.some.inj hdata)
      exact le_rfl
  | restart n =>
      obtain rfl := Option.some.inj hstep
      have hle := applied_restarted_le (h.snapshot n)
      refine h.setNode rfl (hle.trans (h.applied n)) (fun j hj => h.config n j (hj.trans hle))
        (fun k data hdata => snapshot_restarted_le hdata) ?_
      intro p hp
      cases hp

/-- Two majorities over the initial peers, of nodes among them, meet. -/
theorem Invariant.meet (h : Invariant s) (n n' : {n // n ∈ initial}) (Q Q' : Finset String)
    (hQ : s.IsMajority n Q) (hQ' : s.IsMajority n' Q') : ∃ m, m ∈ Q ∧ m ∈ Q' := by
  have hlarge : ∀ (m : {n // n ∈ initial}) (R : Finset String), s.IsMajority m R →
      R ⊆ initial ∧ initial.card < 2 * R.card := by
    rintro m R ⟨hR, hcard⟩
    rw [h.peerUrls m] at hR hcard
    rw [Finset.insert_eq_of_mem m.2] at hR
    rw [Finset.card_erase_of_mem m.2] at hcard
    unfold majorityCount at hcard
    have hpos : 0 < initial.card := Finset.card_pos.mpr ⟨m.1, m.2⟩
    exact ⟨hR, by omega⟩
  obtain ⟨hsub, hlt⟩ := hlarge n Q hQ
  obtain ⟨hsub', hlt'⟩ := hlarge n' Q' hQ'
  exact exists_mem_inter_of_card_lt hsub hsub' (by omega)

theorem Invariant.agreement (h : Invariant s) : Agreement s where
  config n := (h.peerUrls n).trans (h.config n _ le_rfl).symm
  same n n' _ := (h.peerUrls n).trans (h.peerUrls n').symm
  meet n n' _ := h.meet n n'

/-- A step that changes the peers leaves a node that counts over another set than the commands it
has applied give. -/
theorem Invariant.not_agreement {ev : MemberEvent initial} (h : Invariant s)
    (hC : ¬ KeepsPeers s ev) (hstep : Members.step s ev = some s') : ¬ Agreement s' := by
  intro hagree
  cases ev with
  | apply n r =>
      obtain ⟨c, hc, rfl⟩ := Option.map_eq_some_iff.mp hstep
      apply hC
      intro c' hc'
      obtain rfl := Option.some.inj (hc.symm.trans hc')
      have hconfig := hagree.config n
      rw [nodes_setNode, if_pos rfl] at hconfig
      have hnext := @configAfter_take_succ initial _ _ _ hc
      rw [h.config n _ le_rfl] at hnext
      exact hnext.symm.trans (hconfig.symm.trans (h.peerUrls n))
  | install n i =>
      obtain ⟨p, hp, hstep⟩ := Option.bind_eq_some_iff.mp hstep
      obtain ⟨u, hu, rfl⟩ := Option.map_eq_some_iff.mp hstep
      apply hC
      intro p' hp'
      obtain rfl := Option.some.inj (hp.symm.trans hp')
      have hconfig := hagree.config n
      rw [nodes_setNode, if_pos rfl] at hconfig
      rw [← h.calls n p (List.mem_of_getElem? hp) u hu]
      exact hconfig.trans (h.config n _ le_rfl)
  | _ => exact hC trivial

/-- **In every state of a run the nodes agree on the configuration just when every configuration
command that a node applies, and every set of peers that an endpoint installs, leaves the initial
peers as they are.** -/
theorem agreement_iff (evs : List (MemberEvent initial)) :
    Throughout step Agreement (init initial) evs ↔ StepsMeet step KeepsPeers (init initial) evs :=
  throughout_iff_stepsMeet (fun _ hs => hs.agreement) (fun _ _ _ hs hC hstep => hs.step hC hstep)
    (fun _ _ _ hs hC hstep => hs.not_agreement hC hstep) invariant_init

/-! ## A run -/

/-- Three metadata nodes. -/
def threeNodes : Finset String := {"metadata1", "metadata2", "metadata3"}

/-- The first node. -/
def metadata1 : {n // n ∈ threeNodes} := ⟨"metadata1", by decide⟩

/-- The second node. -/
def metadata2 : {n // n ∈ threeNodes} := ⟨"metadata2", by decide⟩

/-- A fourth node is added through the first one, and the second applies the command. -/
def addFourth : List (MemberEvent threeNodes) :=
  [.propose metadata1 (.addPeer "metadata4"), .apply metadata1 Replicas.clock, .read metadata1 0,
    .install metadata1 0, .apply metadata2 Replicas.clock]

/-- After one `ADD_PEER` that both have applied, two nodes count over different peers. -/
theorem agreement_counterexample : ¬ ∀ (initial : Finset String) (evs : List (MemberEvent initial))
    (s : Members initial), run step (init initial) evs = some s → Agreement s := by
  intro h
  have hrun : (run step (init threeNodes) addFourth).map (fun s =>
      ((s.nodes metadata1).replica.applied, (s.nodes metadata2).replica.applied,
        decide ("metadata4" ∈ (s.nodes metadata1).peerUrls),
        decide ("metadata4" ∈ (s.nodes metadata2).peerUrls))) = some (1, 1, true, false) := by
    decide +kernel
  obtain ⟨s, hs, hshown⟩ := Option.map_eq_some_iff.mp hrun
  simp only [Prod.mk.injEq, decide_eq_true_eq, decide_eq_false_iff_not] at hshown
  obtain ⟨ha, ha', hin, hnot⟩ := hshown
  have hsame := (h threeNodes addFourth s hs).same metadata1 metadata2 (ha.trans ha'.symm)
  exact hnot (hsame ▸ hin)

end Members

end NanoFabric.Metadata
