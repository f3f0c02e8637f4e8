import NanoFabric.Metadata.StateMachine

/-!
# Determinism of the state machine

Two nodes that apply one log read different clocks and draw different ids. `ClockFree` says of a
command, and of the machine that it meets, that its handler uses neither.

* `apply_congr` — a clock-free command leaves the same machine whatever is read.
* `exists_observe_ne` — every other command leaves, under two clocks, machines that can be told
  apart.
* `runs_agree_iff` — so two runs agree after every entry just when every command is clock-free.
-/

namespace NanoFabric.Metadata

open NanoFabric.Found
open NanoFabric.Node (Bindable)

/-- The numbers that a payload gives fit the row of its job. -/
def RepairPayload.Storable (p : RepairPayload) : Prop :=
  Bindable (p.version.getD 1) ∧ Bindable (p.attemptCount.getD 0) ∧ (∀ t ∈ p.createdAt, Bindable t) ∧
    (∀ t ∈ p.updatedAt, Bindable t) ∧ ∀ t ∈ p.completedAt, Bindable t

namespace RaftStateMachine

theorem bindable_getD {t : Option ℤ} {now : ℤ} (hnow : Bindable now) :
    Bindable (t.getD now) ↔ ∀ x ∈ t, Bindable x := by
  cases t with
  | none => simpa using hnow
  | some x => simp

theorem storable_job (r : Readings) (p : RepairPayload) :
    (job r p).Storable ↔ p.Storable := by
  unfold job RepairJob.Storable RepairPayload.Storable
  rw [bindable_getD r.now_bindable, bindable_getD r.later_bindable]

/-- The handler of `c` on `m` uses neither the clock nor a fresh id: no node registers and no alert
is raised, a heartbeat has its time or is of no registered node, and a job has both its times or
does not become a row. -/
def ClockFree (m : RaftStateMachine) : Command → Prop
  | .registerNode _ _ => False
  | .updateHeartbeat nodeId timestamp _ _ _ =>
      timestamp.isSome ∨ m.membership.nodes.get? nodeId = none
  | .createRepair p =>
      m.repairStore = none ∨ ¬ p.Storable ∨ (p.createdAt.isSome ∧ p.updatedAt.isSome)
  | .addAlert _ _ _ _ => False
  | _ => True

/-! ## What the handlers leave alone -/

variable {m : RaftStateMachine} {r r' : Readings} {c : Command}

@[simp] theorem membership_withPlacement (m : RaftStateMachine) (e : Except StoreError Placement) :
    (m.withPlacement e).membership = m.membership := by
  cases e <;> rfl

@[simp] theorem repairStore_withPlacement (m : RaftStateMachine) (e : Except StoreError Placement) :
    (m.withPlacement e).repairStore = m.repairStore := by
  cases e <;> rfl

@[simp] theorem membership_upsertNode (m : RaftStateMachine) (n : String) (t : ℤ)
    (stats : Option NodeStats) : (m.upsertNode n t stats).membership = m.membership :=
  membership_withPlacement _ _

@[simp] theorem repairStore_upsertNode (m : RaftStateMachine) (n : String) (t : ℤ)
    (stats : Option NodeStats) : (m.upsertNode n t stats).repairStore = m.repairStore :=
  repairStore_withPlacement _ _

/-- The membership after a heartbeat. -/
theorem membership_applyHeartbeat (m : RaftStateMachine) (n : String) (t b u l : Option ℤ) :
    (m.applyHeartbeat r n t b u l).membership =
      ((m.membership.heartbeat n (t.getD r.now)).map Prod.fst).getD m.membership := by
  unfold applyHeartbeat
  rcases m.membership.heartbeat n (t.getD r.now) with _ | ⟨membership, record⟩
  · rfl
  · exact membership_upsertNode _ _ _ _

theorem repairStore_applyHeartbeat (m : RaftStateMachine) (n : String) (t b u l : Option ℤ) :
    (m.applyHeartbeat r n t b u l).repairStore = m.repairStore := by
  unfold applyHeartbeat
  rcases m.membership.heartbeat n (t.getD r.now) with _ | ⟨membership, record⟩
  · rfl
  · exact repairStore_upsertNode _ _ _ _

theorem membership_applyCreateRepair (m : RaftStateMachine) (p : RepairPayload) :
    (m.applyCreateRepair r p).membership = m.membership := by
  unfold applyCreateRepair
  split
  · rfl
  · split <;> rfl

/-- The repair store after `CREATE_REPAIR`. -/
theorem repairStore_applyCreateRepair (m : RaftStateMachine) (p : RepairPayload) :
    (m.applyCreateRepair r p).repairStore =
      m.repairStore.map fun jobs => ((jobs.upsertJob (job r p)).toOption).getD jobs := by
  unfold applyCreateRepair
  rcases hstore : m.repairStore with _ | jobs
  · simpa using hstore
  · rcases hup : jobs.upsertJob (job r p) with e | jobs'
    · simpa [hup, Except.toOption] using hstore
    · simp [hup, Except.toOption]

/-- A heartbeat adds no node. -/
theorem get?_nodes_heartbeat_eq_none (m : MembershipRegistry) (n n' : String) (t : ℤ) :
    (((m.heartbeat n' t).map Prod.fst).getD m).nodes.get? n = none ↔ m.nodes.get? n = none := by
  unfold MembershipRegistry.heartbeat
  rcases hget : m.nodes.get? n' with _ | record
  · rfl
  · simp only [Option.map_some, Option.getD_some, Dict.get?_set]
    by_cases hn : n = n'
    · subst hn
      simp [hget]
    · rw [if_neg hn]

/-- Only `REGISTER_NODE` adds a node. -/
theorem get?_nodes_apply_eq_none (hc : ClockFree m c) (n : String) :
    (apply r m c).membership.nodes.get? n = none ↔ m.membership.nodes.get? n = none := by
  cases c with
  | registerNode => exact hc.elim
  | updateHeartbeat n' t b u l =>
      unfold apply
      rw [membership_applyHeartbeat]
      exact get?_nodes_heartbeat_eq_none _ _ _ _
  | createRepair p =>
      unfold apply
      rw [membership_applyCreateRepair]
  | allocateBlock => simp [apply, applyAllocate]
  | updatePlacement => simp [apply, applyPlacement]
  | _ => rfl

/-- No command takes the repair store away or brings one. -/
theorem repairStore_apply_eq_none :
    (apply r m c).repairStore = none ↔ m.repairStore = none := by
  cases c with
  | registerNode => simp [apply, applyRegister]
  | updateHeartbeat n t b u l =>
      unfold apply
      rw [repairStore_applyHeartbeat]
  | createRepair p =>
      unfold apply
      rw [repairStore_applyCreateRepair, Option.map_eq_none_iff]
  | deleteRepair => exact Option.map_eq_none_iff
  | allocateBlock => simp [apply, applyAllocate]
  | updatePlacement => simp [apply, applyPlacement]
  | _ => rfl

/-- A clock-free command keeps every command as clock-free as it was. -/
theorem clockFree_apply (hc : ClockFree m c) (c' : Command) :
    ClockFree (apply r m c) c' ↔ ClockFree m c' := by
  cases c' with
  | updateHeartbeat nodeId => exact or_congr_right (get?_nodes_apply_eq_none hc nodeId)
  | createRepair p => exact or_congr_left repairStore_apply_eq_none
  | _ => exact Iff.rfl

/-! ## One command -/

theorem applyHeartbeat_congr {n : String} {t b u l : Option ℤ}
    (h : t.isSome ∨ m.membership.nodes.get? n = none) :
    m.applyHeartbeat r n t b u l = m.applyHeartbeat r' n t b u l := by
  rcases h with ht | hnone
  · obtain ⟨time, rfl⟩ := Option.isSome_iff_exists.mp ht
    rfl
  · unfold applyHeartbeat MembershipRegistry.heartbeat
    rw [hnone]
    rfl

theorem upsertJob_of_not_storable (jobs : RepairJobStore) {p : RepairPayload} (h : ¬ p.Storable) :
    jobs.upsertJob (job r p) = .error .overflow :=
  dif_neg (mt (storable_job r p).mp h)

theorem applyCreateRepair_congr {p : RepairPayload}
    (h : m.repairStore = none ∨ ¬ p.Storable ∨ (p.createdAt.isSome ∧ p.updatedAt.isSome)) :
    m.applyCreateRepair r p = m.applyCreateRepair r' p := by
  unfold applyCreateRepair
  rcases h with hnone | hnot | ⟨hcreated, hupdated⟩
  · rw [hnone]
  · cases m.repairStore with
    | none => rfl
    | some jobs => simp only [upsertJob_of_not_storable jobs hnot]
  · obtain ⟨created, hcreated⟩ := Option.isSome_iff_exists.mp hcreated
    obtain ⟨updated, hupdated⟩ := Option.isSome_iff_exists.mp hupdated
    have hjob : job r p = job r' p := by
      unfold job
      rw [hcreated, hupdated]
      rfl
    rw [hjob]

/-- A clock-free command leaves the same machine whatever is read. -/
theorem apply_congr (hc : ClockFree m c) : apply r m c = apply r' m c := by
  cases c with
  | registerNode => exact hc.elim
  | addAlert => exact hc.elim
  | updateHeartbeat => exact applyHeartbeat_congr hc
  | createRepair => exact applyCreateRepair_congr hc
  | _ => rfl

/-- Readings at the time `t`. -/
def readingsAt (t : ℤ) (ht : Bindable t) : Readings := ⟨t, t, "id", ht, ht⟩

theorem bindable_zero : Bindable 0 := by decide

theorem bindable_one : Bindable 1 := by decide

/-- A handler that uses the clock leaves machines that can be told apart when it shows 0 and 1. -/
theorem observe_apply_ne (hc : ¬ ClockFree m c) :
    (apply (readingsAt 0 bindable_zero) m c).observe ≠
      (apply (readingsAt 1 bindable_one) m c).observe := by
  intro heq
  cases c with
  | registerNode n address =>
      have hn := congrArg (fun o => (o.nodes.get? n).map NodeRecord.lastSeen) heq
      simp only [observe, apply, applyRegister, membership_upsertNode, MembershipRegistry.register,
        Dict.get?_set_self, Option.map_some, MembershipRegistry.registered, readingsAt] at hn
      cases hget : m.membership.nodes.get? n <;> simp [hget] at hn
  | updateHeartbeat n t b u l =>
      obtain ⟨ht, hget⟩ := not_or.mp hc
      obtain ⟨record, hget⟩ := Option.ne_none_iff_exists'.mp hget
      obtain rfl := Option.not_isSome_iff_eq_none.mp ht
      have hn := congrArg (fun o => (o.nodes.get? n).map NodeRecord.lastSeen) heq
      simp [observe, apply, membership_applyHeartbeat, MembershipRegistry.heartbeat, hget,
        MembershipRegistry.beaten, readingsAt] at hn
  | addAlert severity node description alertId =>
      have halerts : (apply (readingsAt 0 bindable_zero) m
            (.addAlert severity node description alertId)).alerts =
          (apply (readingsAt 1 bindable_one) m (.addAlert severity node description alertId)).alerts := by
        rw [← AlertStore.loadSnapshot_toSnapshot (apply (readingsAt 0 bindable_zero) m _).alerts,
          ← AlertStore.loadSnapshot_toSnapshot (apply (readingsAt 1 bindable_one) m _).alerts]
        exact congrArg (fun o => AlertStore.loadSnapshot o.alerts) heq
      have hn := congrArg (fun s : AlertStore =>
        (s.rows.get? ((alertId.filter (· ≠ "")).getD "id")).map Alert.time) halerts
      simp [apply, applyAlert, AlertStore.addAlert, readingsAt, Table.set] at hn
  | createRepair p =>
      obtain ⟨hstore, hstorable, htimes⟩ := not_or.mp hc |>.imp_right not_or.mp
      obtain ⟨jobs, hstore⟩ := Option.ne_none_iff_exists'.mp hstore
      have hup : ∀ r, (jobs.upsertJob (job r p)).toOption.getD jobs =
          Table.set jobs p.jobId (job r p)
            ⟨rfl, (storable_job r p).mpr (not_not.mp hstorable)⟩ := by
        intro r
        unfold RepairJobStore.upsertJob
        rw [dif_pos ((storable_job r p).mpr (not_not.mp hstorable))]
        rfl
      have hjob := congrArg (fun o => o.repairJobs p.jobId) heq
      simp only [observe, getJob, apply, repairStore_applyCreateRepair, hstore, Option.map_some, hup,
        Option.bind_some, RepairJobStore.getJob, Table.set, Dict.get?_set_self,
        Option.some.injEq] at hjob
      apply htimes
      have hcreated := congrArg RepairJob.createdAt hjob
      have hupdated := congrArg RepairJob.updatedAt hjob
      constructor
      · cases hp : p.createdAt with
        | none => simp [job, hp, readingsAt] at hcreated
        | some _ => rfl
      · cases hp : p.updatedAt with
        | none => simp [job, hp, readingsAt] at hupdated
        | some _ => rfl
  | _ => exact hc trivial

/-! ## Two runs -/

/-- **Two runs from one machine can be told apart after no entry, whatever their clocks show and
whatever ids they draw, just when every command of the log is clock-free.** -/
theorem runs_agree_iff (m : RaftStateMachine) (log : List Command) :
    (∀ (env env' : ℕ → Readings) (n : ℕ),
      (applyAll env m (log.take n)).observe = (applyAll env' m (log.take n)).observe) ↔
    ∀ c ∈ log, ClockFree m c := by
  induction log generalizing m with
  | nil => simp [applyAll]
  | cons c log ih =>
      constructor
      · intro hagree
        have hc : ClockFree m c := by
          by_contra hc
          exact observe_apply_ne hc
            (hagree (fun _ => readingsAt 0 bindable_zero) (fun _ => readingsAt 1 bindable_one) 1)
        -- The tail runs from the machine that every reading leaves after `c`.
        have htail := (ih (apply (readingsAt 0 bindable_zero) m c)).mp fun env env' n => by
          have h := hagree (fun i => i.casesOn (readingsAt 0 bindable_zero) env)
            (fun i => i.casesOn (readingsAt 0 bindable_zero) env') (n + 1)
          exact h
        intro c' hc'
        rcases List.mem_cons.mp hc' with rfl | hc'
        · exact hc
        · exact (clockFree_apply hc c').mp (htail c' hc')
      · intro hall env env' n
        have hc : ClockFree m c := hall c List.mem_cons_self
        cases n with
        | zero => rfl
        | succ n =>
            have htail := (ih (apply (env 0) m c)).mpr fun c' hc' =>
              (clockFree_apply hc c').mpr (hall c' (List.mem_cons_of_mem c hc'))
            have h := htail (fun i => env (i + 1)) (fun i => env' (i + 1)) n
            rw [List.take_succ_cons]
            unfold applyAll
            rw [h, apply_congr hc]

/-- One `REGISTER_NODE` is enough for two replicas to differ. -/
theorem runs_agree_counterexample :
    ¬ ∀ (m : RaftStateMachine) (log : List Command) (env env' : ℕ → Readings),
      (applyAll env m log).observe = (applyAll env' m log).observe := by
  intro h
  have heq := h empty [.registerNode "node1" "127.0.0.1:8001"]
    (fun _ => ⟨1000, 1000, "a", by decide, by decide⟩)
    (fun _ => ⟨2000, 2000, "b", by decide, by decide⟩)
  have hseen := congrArg (fun o => (o.nodes.get? "node1").map NodeRecord.lastSeen) heq
  revert hseen
  decide +kernel

end RaftStateMachine

end NanoFabric.Metadata
