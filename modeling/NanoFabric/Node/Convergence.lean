import NanoFabric.Node.Recovery

/-!
# Convergence of replicas

Two engines that receive the same replication messages, in any orders and with any repetitions. A
message is what `POST /replicate` and `POST /replicate-delete` accept (`node/api_server.py`,
`node/replication_models.py`).

* `deliver_blocks` — delivering a message offers its row to the block, unless SQLite rejects it.
* `converge_iff` — the engines agree exactly if no two of the newest messages for a block differ in
  what they would leave there.
-/

namespace NanoFabric.Node

open NanoFabric.Found

/-- A `ReplicateRequest`, or a `ReplicateDeleteRequest` if it has no data, as the endpoints accept
it.
Source: `node/replication_models.py`. -/
structure ReplicaMessage where
  blockId : String
  data : Option String
  version : ℤ
  lsn : ℤ
  originNodeId : String
  blockId_ne : blockId ≠ ""
  version_pos : 1 ≤ version
  lsn_pos : 1 ≤ lsn
  originNodeId_ne : originNodeId ≠ ""
deriving DecidableEq

namespace ReplicaMessage

/-- The call that the endpoint makes.
Source: `node/api_server.py`, `replicate_write`, `replicate_delete`. -/
def op (m : ReplicaMessage) : EngineOp :=
  match m.data with
  | some data =>
      .writeLocal m.blockId data (.idempotent m.version) (some m.originNodeId) (some m.lsn)
  | none => .deleteLocal m.blockId (some m.version) (some m.originNodeId) (some m.lsn) true

/-- The mutation that the message asks for. -/
def mutation (m : ReplicaMessage) : Mutation :=
  ⟨m.data, m.blockId, m.version, some m.originNodeId, some m.lsn⟩

/-- The row that the message offers. -/
def row (m : ReplicaMessage) : Row := m.mutation.row m.originNodeId m.lsn

/-- SQLite can bind the integers of the message. -/
def Storable (m : ReplicaMessage) : Prop := Bindable m.version ∧ Bindable m.lsn

instance (m : ReplicaMessage) : Decidable m.Storable := inferInstanceAs (Decidable (_ ∧ _))

end ReplicaMessage

/-- The engine after a sequence of messages. A rejected message leaves it as it was, or with a
record in its oplog. -/
def Running.receiveAll (s : Running) (msgs : List ReplicaMessage) : Running :=
  msgs.foldl (fun s m => s.run m.op) s

/-- What an empty engine shows of a block after the messages. -/
def EngineConfig.received (cfg : EngineConfig) (msgs : List ReplicaMessage) (blockId : String) :
    Option (Option String × ℤ × Bool) :=
  match cfg.boot .empty with
  | some s => ((s.receiveAll msgs).disk.db.blocks blockId).map Row.visible
  | none => none

/-! ## One message -/

section deliver

variable {s : Running} {m : ReplicaMessage}

/-- What a message finds is what its own checks compare with: a block that is at least as new. -/
theorem ReplicaMessage.mutation_or_absorbed (db : ExtentStore) (m : ReplicaMessage) :
    m.op.mutation db = some m.mutation ∨
      (m.op.mutation db = none ∧ Register.Absorbs Row.key (db.blocks m.blockId) m.row) := by
  obtain ⟨blockId, data, version, lsn, origin, _, _, _, _⟩ := m
  rcases hrow : db.blocks blockId with _ | w
  · cases data <;> exact .inl (by simp [op, EngineOp.mutation, EngineOp.verdict,
      StorageEngine.judgeWrite, StorageEngine.judgeDelete, mutation, hrow])
  · cases data with
    | some data =>
        by_cases hdel : w.deleted = true
        · exact .inl (by simp [op, EngineOp.mutation, EngineOp.verdict, StorageEngine.judgeWrite,
            mutation, hrow, hdel])
        · by_cases hle : version ≤ w.version
          · refine .inr ⟨?_, Register.absorbs_some.mpr ?_⟩
            · rcases hle.lt_or_eq with hlt | heq
              · simp [op, EngineOp.mutation, EngineOp.verdict, StorageEngine.judgeWrite, hrow, hdel,
                  hlt]
              · simp [op, EngineOp.mutation, EngineOp.verdict, StorageEngine.judgeWrite, hrow, hdel,
                  heq]
            · rw [Row.key_le_key]
              rcases hle.lt_or_eq with hlt | heq
              · exact .inl hlt
              · exact .inr ⟨heq, by simp [row, Mutation.row, ReplicaMessage.mutation, Row.live]⟩
          · refine .inl ?_
            have hne : w.version ≠ version := fun heq => hle heq.ge
            simp [op, EngineOp.mutation, EngineOp.verdict, StorageEngine.judgeWrite, mutation, hrow,
              hdel, not_lt.mpr (le_of_not_ge hle), hne]
    | none =>
        by_cases habs : version < w.version ∨ (version = w.version ∧ w.deleted = true)
        · refine .inr ⟨?_, Register.absorbs_some.mpr ?_⟩
          · rcases habs with hlt | ⟨heq, hdel⟩
            · simp [op, EngineOp.mutation, EngineOp.verdict, StorageEngine.judgeDelete, hrow, hlt]
            · simp [op, EngineOp.mutation, EngineOp.verdict, StorageEngine.judgeDelete, hrow, heq,
                hdel]
          · rw [Row.key_le_key]
            rcases habs with hlt | ⟨heq, hdel⟩
            · exact .inl hlt
            · exact .inr ⟨heq, by
                simp [row, Mutation.row, ReplicaMessage.mutation, Row.tombstone, hdel]⟩
        · refine .inl ?_
          have hnlt : ¬ version < w.version := fun h => habs (.inl h)
          have hnalready : ¬ (version ≤ w.version ∧ w.deleted = true) := fun h =>
            habs (.inr ⟨le_antisymm h.1 (not_lt.mp hnlt), h.2⟩)
          simp only [op, EngineOp.mutation, EngineOp.verdict, StorageEngine.judgeDelete, mutation,
            hrow, if_true, if_neg hnlt, if_neg hnalready]

/-- Delivering a message offers its row to its block, unless SQLite rejects it. -/
theorem deliver_blocks : (s.run m.op).disk.db.blocks =
    if m.Storable then Registers.put Row.key s.disk.db.blocks m.blockId m.row
    else s.disk.db.blocks := by
  unfold Running.run
  have hcases := s.call_cases m.op
  have hjudge := m.mutation_or_absorbed s.disk.db
  have hstorable : s.engine.Storable m.mutation ↔ m.Storable := Iff.rfl
  have hrow : m.mutation.row (s.engine.effectiveOrigin (some m.originNodeId)) m.lsn = m.row := by
    simp only [StorageEngine.effectiveOrigin, if_neg m.originNodeId_ne]
    rfl
  generalize s.call m.op = out at hcases
  generalize hop : m.op = op at hcases hjudge
  obtain ⟨e', effects⟩ := out
  cases hcases with
  | quiet hq hcoh =>
      rcases hjudge with hm | ⟨-, habs⟩
      · rw [EngineOp.appends_of_mutation hm] at hq
        cases hq
      · rw [Registers.put_eq_of_absorbs habs, ite_self]
        rfl
  | stored hm hok hcoh =>
      rcases hjudge with hm' | ⟨hnone, -⟩
      · obtain rfl := Option.some.inj (hm'.symm.trans hm)
        rw [if_pos (hstorable.mp hok), ← hrow]
        rfl
      · rw [hnone] at hm
        cases hm
  | rejected hm hno =>
      rcases hjudge with hm' | ⟨hnone, -⟩
      · obtain rfl := Option.some.inj (hm'.symm.trans hm)
        rw [if_neg fun h => hno (hstorable.mpr h)]
        rfl
      · rw [hnone] at hm
        cases hm
  | purged => rcases m with ⟨_, _ | _, _⟩ <;> cases hop
  | checkpointed throughLsn => rcases m with ⟨_, _ | _, _⟩ <;> cases hop

/-- What the messages leave is what the storable ones put. -/
theorem receiveAll_blocks (msgs : List ReplicaMessage) (s : Running) :
    (s.receiveAll msgs).disk.db.blocks = (msgs.filter fun m => decide m.Storable).foldl
      (fun blocks m => Registers.put Row.key blocks m.blockId m.row) s.disk.db.blocks := by
  unfold Running.receiveAll
  induction msgs generalizing s with
  | nil => rfl
  | cons m msgs ih =>
      rw [List.foldl_cons, ih, deliver_blocks]
      by_cases hm : m.Storable
      · simp [hm]
      · simp [hm]

end deliver

/-! ## Any order -/

/-- The storable messages of `msgs` for a block. -/
def messagesFor (msgs : List ReplicaMessage) (blockId : String) : List ReplicaMessage :=
  msgs.filter fun m => decide m.Storable && decide (m.blockId = blockId)

/-- `m` is one of the newest storable messages for the block: none has a greater version, and none
of its version is a delete unless `m` is. -/
def Newest (msgs : List ReplicaMessage) (blockId : String) (m : ReplicaMessage) : Prop :=
  m ∈ messagesFor msgs blockId ∧ ∀ m' ∈ messagesFor msgs blockId, m'.row.key ≤ m.row.key

/-- No two of the newest messages for a block differ in what a client would see. -/
def NewestAgree (msgs : List ReplicaMessage) : Prop :=
  ∀ blockId m m', Newest msgs blockId m → Newest msgs blockId m' → m.row.visible = m'.row.visible

section order

variable {msgs L L' : List ReplicaMessage} {blockId : String} {m : ReplicaMessage}

theorem mem_messagesFor :
    m ∈ messagesFor msgs blockId ↔ m ∈ msgs ∧ m.Storable ∧ m.blockId = blockId := by
  simp [messagesFor]

theorem newest_iff :
    Newest msgs blockId m ↔ Register.Tops (fun m => m.row.key) (messagesFor msgs blockId) m :=
  Iff.rfl

/-- What an empty engine shows of a block is what the newest message that it kept shows. -/
theorem received_eq (cfg : EngineConfig) (msgs : List ReplicaMessage) (blockId : String) :
    cfg.received msgs blockId = ((messagesFor msgs blockId).foldl
      (Register.put fun m => m.row.key) none).map fun m => m.row.visible := by
  have hblocks : ∀ s : Running, s.disk.db.blocks = (fun _ => none) →
      (s.receiveAll msgs).disk.db.blocks blockId = ((messagesFor msgs blockId).foldl
        (Register.put fun m => m.row.key) none).map fun m => m.row := by
    intro s hs
    have hfilter : (msgs.filter fun m => decide m.Storable).filter
        (fun m => decide (m.blockId = blockId)) = messagesFor msgs blockId := by
      unfold messagesFor
      rw [List.filter_filter]
      congr 1
      funext m
      exact Bool.and_comm _ _
    rw [receiveAll_blocks, Registers.foldl_put_apply, hs, hfilter]
    exact Register.foldl_put_map _ _ none
  unfold EngineConfig.received
  change Option.map Row.visible ((Running.receiveAll _ msgs).disk.db.blocks blockId) = _
  rw [hblocks _ rfl, Option.map_map]
  rfl

theorem messagesFor_congr (h : ∀ m, m ∈ L ↔ m ∈ L') (m : ReplicaMessage) :
    m ∈ messagesFor L blockId ↔ m ∈ messagesFor L' blockId := by
  rw [mem_messagesFor, mem_messagesFor, h]

/-- If one of the newest messages comes first, it is what is left. -/
theorem received_cons (cfg : EngineConfig) (hm : Newest msgs blockId m) :
    cfg.received (m :: msgs) blockId = some m.row.visible := by
  obtain ⟨-, hstorable, hblock⟩ := mem_messagesFor.mp hm.1
  have hcons : messagesFor (m :: msgs) blockId = m :: messagesFor msgs blockId := by
    unfold messagesFor
    rw [List.filter_cons_of_pos (by simp [hstorable, hblock])]
  rw [received_eq, hcons, (newest_iff.mp hm).foldl_cons]
  rfl

end order

/-- **Convergence.** Two empty engines that receive the messages of `msgs`, each in any order and with
any repetitions, show the same of every block, exactly if no two of the newest messages for a block
differ in what they would leave there. -/
theorem converge_iff (cfg cfg' : EngineConfig) (msgs : List ReplicaMessage) :
    (∀ L L' : List ReplicaMessage, (∀ m, m ∈ L ↔ m ∈ msgs) → (∀ m, m ∈ L' ↔ m ∈ msgs) →
      ∀ blockId, cfg.received L blockId = cfg'.received L' blockId) ↔ NewestAgree msgs := by
  constructor
  · intro h blockId m m' hm hm'
    have hcons : ∀ {u : ReplicaMessage}, Newest msgs blockId u → ∀ x, x ∈ u :: msgs ↔ x ∈ msgs := by
      intro u hu x
      rw [List.mem_cons, or_iff_right_iff_imp]
      rintro rfl
      exact (mem_messagesFor.mp hu.1).1
    have heq := h (m :: msgs) (m' :: msgs) (hcons hm) (hcons hm') blockId
    rw [received_cons cfg hm, received_cons cfg' hm'] at heq
    exact Option.some.inj heq
  · intro h L L' hL hL' blockId
    rw [received_eq, received_eq]
    exact Register.observe_foldl_congr (h blockId) (messagesFor_congr hL) (messagesFor_congr hL')

/-- Two primaries choose the same version for different data. -/
def conflictingWrites : List ReplicaMessage :=
  [⟨"a", some "one", 1, 1, "node1", by decide, by decide, by decide, by decide⟩,
    ⟨"a", some "two", 1, 1, "node2", by decide, by decide, by decide, by decide⟩]

theorem converge_counterexample :
    ¬ ∀ L L' : List ReplicaMessage, (∀ m, m ∈ L ↔ m ∈ conflictingWrites) →
      (∀ m, m ∈ L' ↔ m ∈ conflictingWrites) →
      ∀ blockId, node1.received L blockId = node1.received L' blockId := by
  intro h
  have heq := h conflictingWrites conflictingWrites.reverse (fun _ => Iff.rfl)
    (fun _ => List.mem_reverse) "a"
  have hleft : node1.received conflictingWrites "a" = some (some "one", 1, false) := by
    decide +kernel
  have hright : node1.received conflictingWrites.reverse "a" = some (some "two", 1, false) := by
    decide +kernel
  rw [hleft, hright] at heq
  exact absurd heq (by simp)

end NanoFabric.Node
