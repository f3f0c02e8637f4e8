import NanoFabric.Node.BlockUrls
import NanoFabric.Storage.ReplicaEndpoint

/-!
# Read repair

A round of `POST /repair`: the copies of a block are read from the nodes of its placement, those of
other nodes at the URL with the id of the block, the latest one is selected, and it is written to the
nodes whose copies are stale.

* `selectLatest_eq_some` — the selection is a maximum for the version, the LSN and then the time.
* `copyOf_repairSync` — what a round of successful writes leaves of each copy: the older
  versions are replaced, with the time of the node that wrote them, and the others stay.
* `fixedPoint_iff` — so that a round for a block that the URL leads to reaches a fixed point just when
  the copies of the highest version are the same, and every node that is repaired shows the time of the
  latest copy.
-/

namespace NanoFabric.Repair

open NanoFabric.Found
open NanoFabric.Node
open NanoFabric.Storage

/-! ## Copies -/

/-- Source: `node/version_reconciliation.py`, `ReplicaCopy`. -/
structure ReplicaCopy where
  nodeId : String
  blockId : String
  data : String
  version : ℤ
  lsn : ℤ
  timestampMs : ℤ
  deleted : Bool
deriving DecidableEq, Repr

/-- Source: `node/version_reconciliation.py`, `compare_copies`. -/
def compareCopies (a b : ReplicaCopy) : ℤ :=
  if a.version ≠ b.version then a.version - b.version
  else if a.lsn ≠ b.lsn then a.lsn - b.lsn
  else a.timestampMs - b.timestampMs

/-- Source: `node/version_reconciliation.py`, `select_latest`. -/
def selectLatest : List ReplicaCopy → Option ReplicaCopy
  | [] => none
  | copy :: copies =>
      some (copies.foldl (fun latest copy => if 0 < compareCopies copy latest then copy else latest)
        copy)

/-- Source: `node/version_reconciliation.py`, `find_stale_replicas`. -/
def findStaleReplicas (copies : List ReplicaCopy) (latest : ReplicaCopy) : List ReplicaCopy :=
  copies.filter fun c => compareCopies c latest < 0

/-- What copies are compared by. -/
def ReplicaCopy.key (c : ReplicaCopy) : ℤ ×ₗ ℤ ×ₗ ℤ := toLex (c.version, toLex (c.lsn, c.timestampMs))

variable {a b c latest : ReplicaCopy} {copies : List ReplicaCopy}

theorem ReplicaCopy.key_lt_key : a.key < b.key ↔ a.version < b.version ∨
    (a.version = b.version ∧ (a.lsn < b.lsn ∨ (a.lsn = b.lsn ∧ a.timestampMs < b.timestampMs))) := by
  unfold key
  rw [Prod.Lex.toLex_lt_toLex, Prod.Lex.toLex_lt_toLex]

theorem ReplicaCopy.key_inj : a.key = b.key ↔
    a.version = b.version ∧ a.lsn = b.lsn ∧ a.timestampMs = b.timestampMs := by
  unfold key
  rw [toLex_inj, Prod.mk.injEq, toLex_inj, Prod.mk.injEq]

theorem ReplicaCopy.version_le_of_key_le (h : a.key ≤ b.key) : a.version ≤ b.version := by
  by_contra hlt
  exact not_lt.mpr h (key_lt_key.mpr (Or.inl (not_le.mp hlt)))

theorem compareCopies_neg : compareCopies a b < 0 ↔ a.key < b.key := by
  rw [ReplicaCopy.key_lt_key]
  unfold compareCopies
  split_ifs <;> omega

theorem compareCopies_pos : 0 < compareCopies a b ↔ b.key < a.key := by
  rw [ReplicaCopy.key_lt_key]
  unfold compareCopies
  split_ifs <;> omega

theorem selectLatest_eq_none : selectLatest copies = none ↔ copies = [] := by
  cases copies with
  | nil => exact iff_of_true rfl rfl
  | cons copy copies => exact iff_of_false nofun (List.cons_ne_nil _ _)

/-- The selection puts the copies into a register. -/
theorem selectLatest_eq_foldl (copies : List ReplicaCopy) :
    selectLatest copies = copies.foldl (Register.put ReplicaCopy.key) none := by
  have hnewer : ∀ u w : ReplicaCopy, 0 < compareCopies u w ↔ w.key < u.key :=
    fun _ _ => compareCopies_pos
  cases copies with
  | nil => rfl
  | cons copy copies =>
      rw [List.foldl_cons, Register.put_none]
      exact (Register.foldl_put_some hnewer copies copy).symm

/-- What is selected is one of the copies, and no other is newer. -/
theorem selectLatest_eq_some (h : selectLatest copies = some latest) :
    latest ∈ copies ∧ ∀ c ∈ copies, c.key ≤ latest.key := by
  rw [selectLatest_eq_foldl] at h
  exact Register.tops_of_foldl h

theorem mem_findStaleReplicas : c ∈ findStaleReplicas copies latest ↔
    c ∈ copies ∧ c.key < latest.key := by
  unfold findStaleReplicas
  rw [List.mem_filter, decide_eq_true_iff, compareCopies_neg]

/-- No copy is stale when all are as new as the latest. -/
theorem findStaleReplicas_eq_nil (h : selectLatest copies = some latest) :
    findStaleReplicas copies latest = [] ↔ ∀ c ∈ copies, c.key = latest.key := by
  rw [List.eq_nil_iff_forall_not_mem]
  apply forall_congr'
  intro c
  rw [mem_findStaleReplicas, not_and, not_lt]
  exact imp_congr_right fun hc =>
    ⟨fun hle => le_antisymm ((selectLatest_eq_some h).2 c hc) hle, fun heq => heq.ge⟩

/-! ## Nodes and rounds -/

/-- A node with the column `updated_at_ms` of its table. -/
structure TimedEngine where
  engine : LocalEngine
  updatedAtMs : String → ℤ

/-- The replication endpoint at the time `now`: an upsert that writes the row of the block writes the
time with it.
Source: `node/extent_store.py`, `save_if_newer`. -/
def TimedEngine.replicate (t : TimedEngine) (now : ℤ) (body : RequestBody) : TimedEngine × ℕ :=
  let (engine, code) := t.engine.replicate body
  (⟨engine, fun b => if engine.rows b = t.engine.rows b then t.updatedAtMs b else now⟩, code)

/-- The copy that a node has of a block.
Source: `node/read_coordinator.py`, `_record_to_copy`. -/
def copyOf (nodes : String → TimedEngine) (blockId nodeId : String) : Option ReplicaCopy :=
  ((nodes nodeId).engine.answer blockId).map fun record =>
    ⟨nodeId, blockId, record.data, record.version, record.originLsn,
      (nodes nodeId).updatedAtMs blockId, record.deleted⟩

/-- The copy that a read at a node comes to. The coordinator reads its own engine, and another node at
the URL with the id of the block; what goes wrong there counts as no copy, and an object of another
endpoint as one with the defaults of its fields.
Source: `node/read_coordinator.py`, `_read_from_replicas`. -/
def readNode (read : String → Route) (coordinator : String) (nodes : String → TimedEngine)
    (blockId nodeId : String) : Option ReplicaCopy :=
  if nodeId = coordinator then copyOf nodes blockId nodeId
  else match read blockId with
    | .block readId => (copyOf nodes readId nodeId).map fun copy => { copy with blockId }
    | .elsewhere => some ⟨nodeId, blockId, "", 0, 0, 0, false⟩
    | .notFound => none
    | .refused => none
    | .invalid => none

/-- The copies in the order in which they arrive.
Source: `node/read_coordinator.py`, `_read_from_replicas`. -/
def readFromReplicas (read : String → Route) (coordinator : String) (nodes : String → TimedEngine)
    (blockId : String) (arrivals : List String) : List ReplicaCopy :=
  arrivals.filterMap (readNode read coordinator nodes blockId)

/-- The request that the latest copy is sent with.
Source: `node/read_repair.py`, `_repair_sync`. -/
def repairRequest (coordinator : String) (latest : ReplicaCopy) : RequestBody :=
  ⟨latest.blockId, some latest.data, latest.version, some latest.lsn, some coordinator⟩

/-- The nodes after the writes, and how many the coordinator counts, where `none` is the
`ValidationError` of a request that cannot be built. Each node reads its own clock.
Source: `node/read_repair.py`, `_repair_sync`. -/
def repairSync (coordinator : String) (now : String → ℤ) (latest : ReplicaCopy) :
    List ReplicaCopy → (String → TimedEngine) → ℕ → (String → TimedEngine) × Option ℕ
  | [], nodes, repaired => (nodes, some repaired)
  | copy :: stale, nodes, repaired =>
      if copy.deleted then repairSync coordinator now latest stale nodes repaired
      else
        match ReplicateRequest.validate (repairRequest coordinator latest) with
        | none => (nodes, none)
        | some _ =>
            let (node, code) :=
              (nodes copy.nodeId).replicate (now copy.nodeId) (repairRequest coordinator latest)
            repairSync coordinator now latest stale (Function.update nodes copy.nodeId node)
              (if code = 200 then repaired + 1 else repaired)

/-- What a round does: the nodes after it, the copy it selects, the copies it finds stale, and what
`repair_sync` returns. -/
structure Round where
  nodes : String → TimedEngine
  latest : Option ReplicaCopy
  stale : List ReplicaCopy
  repaired : Option ℕ

/-- A round of a coordinator, for a block whose copies arrive in the given order.
Source: `node/api_server.py`, `repair_block`. -/
def repairBlock (read : String → Route) (coordinator : String) (now : String → ℤ)
    (nodes : String → TimedEngine) (blockId : String) (arrivals : List String) : Round :=
  let successful :=
    (readFromReplicas read coordinator nodes blockId arrivals).filter fun c => !c.deleted
  match selectLatest successful with
  | none => ⟨nodes, none, [], some 0⟩
  | some latest =>
      let stale := findStaleReplicas successful latest
      let (nodes', repaired) := repairSync coordinator now latest stale nodes 0
      ⟨nodes', some latest, stale, repaired⟩

/-! ## What a round of successful writes leaves -/

variable {read : String → Route} {coordinator : String} {now : String → ℤ}
  {nodes : String → TimedEngine} {n blockId : String}

theorem copyOf_eq (nodes : String → TimedEngine) (b n : String) : copyOf nodes b n =
    ((nodes n).engine.liveRow b).map fun row =>
      ⟨n, b, row.data.getD "", row.version, row.originLsn, (nodes n).updatedAtMs b, false⟩ := by
  unfold copyOf
  rw [LocalEngine.answer_eq, Option.map_map]
  apply Option.map_congr
  intro row hrow
  have hlive := (LocalEngine.liveRow_eq_some.mp hrow).2
  simp only [Function.comp_apply, StorageEngine.blockRecord, hlive]

theorem copyOf_nodeId (h : copyOf nodes blockId n = some c) :
    c.nodeId = n ∧ c.blockId = blockId ∧ c.deleted = false := by
  rw [copyOf_eq, Option.map_eq_some_iff] at h
  obtain ⟨row, -, rfl⟩ := h
  exact ⟨rfl, rfl, rfl⟩

/-- A node with a live row of the block has a copy. -/
theorem exists_copyOf (h : ((nodes n).engine.liveRow blockId).isSome) :
    ∃ c, copyOf nodes blockId n = some c := by
  obtain ⟨row, hrow⟩ := Option.isSome_iff_exists.mp h
  rw [copyOf_eq, hrow]
  exact ⟨_, rfl⟩

theorem copyOf_update_of_ne {m : String} (t : TimedEngine) (h : m ≠ n) :
    copyOf (Function.update nodes n t) blockId m = copyOf nodes blockId m := by
  unfold copyOf
  rw [Function.update_of_ne h]

/-- A copy after the latest one was written to its node: an older version is replaced. -/
def repairedBy (now : String → ℤ) (latest c : ReplicaCopy) : ReplicaCopy :=
  if c.version < latest.version then
    { c with
      data := latest.data
      version := latest.version
      lsn := latest.lsn
      timestampMs := now c.nodeId }
  else c

theorem repairedBy_of_lt (h : c.version < latest.version) : repairedBy now latest c =
    { c with
      data := latest.data
      version := latest.version
      lsn := latest.lsn
      timestampMs := now c.nodeId } := if_pos h

theorem repairedBy_of_le (h : latest.version ≤ c.version) : repairedBy now latest c = c :=
  if_neg (not_lt.mpr h)

theorem nodeId_repairedBy : (repairedBy now latest c).nodeId = c.nodeId := by
  unfold repairedBy
  split <;> rfl

/-- A second write of the latest copy changes nothing more. -/
theorem repairedBy_repairedBy :
    repairedBy now latest (repairedBy now latest c) = repairedBy now latest c := by
  by_cases h : c.version < latest.version
  · rw [repairedBy_of_lt h]
    exact repairedBy_of_le le_rfl
  · rw [repairedBy_of_le (not_lt.mp h), repairedBy_of_le (not_lt.mp h)]

theorem version_repairedBy (h : c.version ≤ latest.version) :
    (repairedBy now latest c).version = latest.version := by
  rcases h.lt_or_eq with hlt | heq
  · rw [repairedBy_of_lt hlt]
  · rw [repairedBy_of_le heq.ge, heq]

/-- The fields of a valid request are those of the copy. -/
theorem validate_repairRequest {req : ReplicateRequest}
    (hreq : ReplicateRequest.validate (repairRequest coordinator latest) = some req) :
    req.blockId = latest.blockId ∧ req.data = latest.data ∧ req.version = latest.version ∧
      req.lsn = latest.lsn := by
  unfold repairRequest ReplicateRequest.validate ReplicateDeleteRequest.validate at hreq
  simp only at hreq
  split_ifs at hreq
  · obtain rfl := Option.some.inj hreq
    exact ⟨rfl, rfl, rfl, rfl⟩
  · cases hreq

/-- What a write that succeeds leaves of a live row, and of its time. -/
theorem TimedEngine.replicate_spec {t : TimedEngine} {time : ℤ} {row : Row} {req : ReplicateRequest}
    {body : RequestBody} (hreq : ReplicateRequest.validate body = some req)
    (hrow : t.engine.rows req.blockId = some row) (hlive : row.deleted = false)
    (hcode : (t.replicate time body).2 = 200) :
    (row.version = req.version ∧
        (t.replicate time body).1.engine.rows req.blockId = some row ∧
        (t.replicate time body).1.updatedAtMs req.blockId = t.updatedAtMs req.blockId) ∨
      (row.version < req.version ∧
        (t.replicate time body).1.engine.rows req.blockId =
          some (.live req.data req.version req.originNodeId req.lsn) ∧
        (t.replicate time body).1.updatedAtMs req.blockId = time) := by
  unfold replicate at hcode ⊢
  simp only at hcode ⊢
  rcases LocalEngine.replicate_of_live hreq hrow hlive with
    ⟨hlt, -, -, hput⟩ | ⟨hkept, ⟨hsame, -⟩ | ⟨-, hconflict⟩ | ⟨-, -, hoverflow⟩⟩
  · refine Or.inr ⟨hlt, hput, if_neg ?_⟩
    rw [hput, hrow]
    intro heq
    exact hlt.ne' (congrArg Row.version (Option.some.inj heq))
  · exact Or.inl ⟨hsame, hkept, if_pos (hkept.trans hrow.symm)⟩
  · exact absurd (hconflict.symm.trans hcode) (by decide)
  · exact absurd (hoverflow.symm.trans hcode) (by decide)

/-- A write that succeeds repairs a copy. -/
theorem copyOf_replicate {req : ReplicateRequest}
    (hreq : ReplicateRequest.validate (repairRequest coordinator latest) = some req)
    (hcopy : copyOf nodes latest.blockId n = some c)
    (hcode : ((nodes n).replicate (now n) (repairRequest coordinator latest)).2 = 200) :
    copyOf (Function.update nodes n
        ((nodes n).replicate (now n) (repairRequest coordinator latest)).1) latest.blockId n =
      some (repairedBy now latest c) := by
  obtain ⟨hb, hdata, hversion, hlsn⟩ := validate_repairRequest hreq
  rw [copyOf_eq, Option.map_eq_some_iff] at hcopy
  obtain ⟨row, hrow, rfl⟩ := hcopy
  obtain ⟨hrow, hlive⟩ := LocalEngine.liveRow_eq_some.mp hrow
  rw [copyOf_eq, Function.update_self, Option.map_eq_some_iff]
  rw [← hb] at hrow ⊢
  rcases TimedEngine.replicate_spec hreq hrow hlive hcode with
    ⟨hsame, hrow', htime⟩ | ⟨hlt, hrow', htime⟩
  · refine ⟨row, LocalEngine.liveRow_eq_some.mpr ⟨hrow', hlive⟩, ?_⟩
    rw [htime, repairedBy_of_le (hversion ▸ hsame.ge)]
  · refine ⟨_, LocalEngine.liveRow_eq_some.mpr ⟨hrow', rfl⟩, ?_⟩
    rw [htime, repairedBy_of_lt (hversion ▸ hlt)]
    simp only [Row.live, Option.getD_some, hdata, hversion, hlsn]

/-- The coordinator counts no more than it sends. -/
theorem repaired_le {stale : List ReplicaCopy} {k r : ℕ}
    (h : (repairSync coordinator now latest stale nodes k).2 = some r) : r ≤ k + stale.length := by
  induction stale generalizing nodes k with
  | nil => exact (Option.some.inj h).ge
  | cons copy stale ih =>
      rw [List.length_cons]
      unfold repairSync at h
      split_ifs at h
      · exact (ih h).trans (by omega)
      · split at h
        · cases h
        · refine (ih h).trans ?_
          split_ifs <;> omega

/-- A round of successful writes repairs the nodes it writes to, and leaves the others alone. -/
theorem copyOf_repairSync {stale : List ReplicaCopy} {k : ℕ}
    (hlive : ∀ c ∈ stale, c.deleted = false)
    (hold : ∀ c ∈ stale, ∃ c₀, copyOf nodes latest.blockId c.nodeId = some c₀ ∧
      c₀.version ≤ latest.version)
    (hok : (repairSync coordinator now latest stale nodes k).2 = some (k + stale.length))
    (n : String) :
    copyOf (repairSync coordinator now latest stale nodes k).1 latest.blockId n =
      if n ∈ stale.map ReplicaCopy.nodeId then
        (copyOf nodes latest.blockId n).map (repairedBy now latest)
      else copyOf nodes latest.blockId n := by
  induction stale generalizing nodes k with
  | nil => rfl
  | cons copy stale ih =>
      obtain ⟨c₀, hcopy, hle⟩ := hold copy List.mem_cons_self
      rcases hreq : ReplicateRequest.validate (repairRequest coordinator latest) with _ | req
      · simp only [repairSync, hlive copy List.mem_cons_self, hreq] at hok
        cases hok
      · simp only [repairSync, hlive copy List.mem_cons_self, hreq] at hok ⊢
        have hcode : ((nodes copy.nodeId).replicate (now copy.nodeId)
            (repairRequest coordinator latest)).2 = 200 := by
          by_contra hcode
          rw [if_neg hcode] at hok
          have := repaired_le hok
          simp only [List.length_cons] at this
          omega
        rw [if_pos hcode] at hok ⊢
        have hself := copyOf_replicate hreq hcopy hcode
        have hlater : ∀ c ∈ stale, ∃ c₁, copyOf (Function.update nodes copy.nodeId
            ((nodes copy.nodeId).replicate (now copy.nodeId)
              (repairRequest coordinator latest)).1) latest.blockId c.nodeId = some c₁ ∧
            c₁.version ≤ latest.version := by
          intro c hc
          by_cases hn : c.nodeId = copy.nodeId
          · rw [hn]
            exact ⟨_, hself, (version_repairedBy hle).le⟩
          · rw [copyOf_update_of_ne _ hn]
            exact hold c (List.mem_cons_of_mem _ hc)
        rw [show k + (copy :: stale).length = k + 1 + stale.length by simp; omega] at hok
        refine (ih (fun c hc => hlive c (List.mem_cons_of_mem _ hc)) hlater hok).trans ?_
        simp only [List.map_cons, List.mem_cons]
        by_cases hn : n = copy.nodeId
        · -- a later write of the same node finds the latest version there
          subst hn
          rw [hself, hcopy, Option.map_some, Option.map_some, repairedBy_repairedBy, ite_self,
            if_pos (Or.inl rfl)]
        · simp only [copyOf_update_of_ne _ hn, hn, false_or]

/-! ## The fixed point -/

/-- A read of a block that the URL leads to comes to the copy that the node has. -/
theorem readNode_eq (hroute : read blockId = .block blockId) (n : String) :
    readNode read coordinator nodes blockId n = copyOf nodes blockId n := by
  unfold readNode
  rw [hroute]
  simp only
  split_ifs
  · rfl
  · rcases hcopy : copyOf nodes blockId n with _ | c
    · rfl
    · obtain rfl := (copyOf_nodeId hcopy).2.1
      rfl

theorem mem_readFromReplicas (hroute : read blockId = .block blockId) {arrivals : List String} :
    c ∈ readFromReplicas read coordinator nodes blockId arrivals ↔
      c.nodeId ∈ arrivals ∧ copyOf nodes blockId c.nodeId = some c := by
  unfold readFromReplicas
  simp only [List.mem_filterMap, readNode_eq hroute]
  constructor
  · rintro ⟨n, hn, hcopy⟩
    rw [(copyOf_nodeId hcopy).1]
    exact ⟨hn, hcopy⟩
  · exact fun h => ⟨c.nodeId, h⟩

/-- No copy that is read is deleted. -/
theorem filter_readFromReplicas (hroute : read blockId = .block blockId) (arrivals : List String) :
    (readFromReplicas read coordinator nodes blockId arrivals).filter (fun c => !c.deleted) =
      readFromReplicas read coordinator nodes blockId arrivals := by
  rw [List.filter_eq_self]
  intro c hc
  rw [(copyOf_nodeId ((mem_readFromReplicas hroute).mp hc).2).2.2]
  rfl

theorem repairBlock_of_some (hroute : read blockId = .block blockId) {arrivals : List String}
    (h : selectLatest (readFromReplicas read coordinator nodes blockId arrivals) = some latest) :
    repairBlock read coordinator now nodes blockId arrivals =
      let stale := findStaleReplicas (readFromReplicas read coordinator nodes blockId arrivals) latest
      ⟨(repairSync coordinator now latest stale nodes 0).1, some latest, stale,
        (repairSync coordinator now latest stale nodes 0).2⟩ := by
  simp only [repairBlock, filter_readFromReplicas hroute, h]

/-- The nodes of the placement hold what the round selects, and no copy is stale in a second round,
whoever coordinates it and however the copies arrive. -/
structure FixedPoint (read : String → Route) (placement : List String) (blockId : String)
    (round : Round) : Prop where
  held : ∀ latest, round.latest = some latest → ∀ n ∈ placement,
    ∃ c, copyOf round.nodes blockId n = some c ∧ c.data = latest.data ∧ c.version = latest.version
  settled : ∀ (coordinator : String) (now : String → ℤ) (arrivals : List String),
    arrivals.Perm placement →
      (repairBlock read coordinator now round.nodes blockId arrivals).stale = []

/-- The condition: a copy of the highest version is the same as every other of its version, and its
time is what the clock of every other node shows. -/
def Settles (now : String → ℤ) (nodes : String → TimedEngine) (placement : List String)
    (blockId : String) : Prop :=
  ∀ m ∈ placement, ∀ latest, copyOf nodes blockId m = some latest →
    (∀ n ∈ placement, ∀ c, copyOf nodes blockId n = some c → c.version ≤ latest.version) →
    ∀ n ∈ placement, ∀ c, copyOf nodes blockId n = some c →
      if c.version = latest.version then
        c.data = latest.data ∧ c.lsn = latest.lsn ∧ c.timestampMs = latest.timestampMs
      else now n = latest.timestampMs

/-- What a round of successful writes selects and leaves. -/
theorem repairBlock_spec (hroute : read blockId = .block blockId) {placement arrivals : List String}
    {m : String} (hm : m ∈ placement)
    (hlive : ∀ n ∈ placement, ((nodes n).engine.liveRow blockId).isSome)
    (harr : arrivals.Perm placement)
    (hok : (repairBlock read coordinator now nodes blockId arrivals).repaired =
      some (repairBlock read coordinator now nodes blockId arrivals).stale.length) :
    ∃ latest, (repairBlock read coordinator now nodes blockId arrivals).latest = some latest ∧
      latest.nodeId ∈ placement ∧ copyOf nodes blockId latest.nodeId = some latest ∧
      (∀ n ∈ placement, ∀ c, copyOf nodes blockId n = some c → c.key ≤ latest.key) ∧
      ∀ n ∈ placement,
        copyOf (repairBlock read coordinator now nodes blockId arrivals).nodes blockId n =
          (copyOf nodes blockId n).map (repairedBy now latest) := by
  rcases hsel : selectLatest (readFromReplicas read coordinator nodes blockId arrivals)
    with _ | latest
  · obtain ⟨c, hc⟩ := exists_copyOf (hlive m hm)
    rw [selectLatest_eq_none] at hsel
    have hmem : c ∈ readFromReplicas read coordinator nodes blockId arrivals := by
      rw [mem_readFromReplicas hroute, (copyOf_nodeId hc).1]
      exact ⟨harr.mem_iff.mpr hm, hc⟩
    rw [hsel] at hmem
    cases hmem
  · rw [repairBlock_of_some hroute hsel] at hok ⊢
    simp only at hok ⊢
    obtain ⟨hmem, hle⟩ := selectLatest_eq_some hsel
    obtain ⟨hin, hlatest⟩ := (mem_readFromReplicas hroute).mp hmem
    obtain rfl : latest.blockId = blockId := (copyOf_nodeId hlatest).2.1
    have hmax : ∀ n ∈ placement, ∀ c, copyOf nodes latest.blockId n = some c →
        c.key ≤ latest.key := by
      intro n hn c hc
      refine hle c ((mem_readFromReplicas hroute).mpr ?_)
      rw [(copyOf_nodeId hc).1]
      exact ⟨harr.mem_iff.mpr hn, hc⟩
    refine ⟨latest, rfl, harr.mem_iff.mp hin, hlatest, hmax, fun n hn => ?_⟩
    rw [copyOf_repairSync (k := 0)]
    · obtain ⟨c, hc⟩ := exists_copyOf (hlive n hn)
      split_ifs with hstale
      · rfl
      · -- a copy that is not stale is as new as the latest
        have hnot : ¬ c.key < latest.key := by
          intro hlt
          refine hstale (List.mem_map.mpr ⟨c, mem_findStaleReplicas.mpr ⟨?_, hlt⟩,
            (copyOf_nodeId hc).1⟩)
          rw [mem_readFromReplicas hroute, (copyOf_nodeId hc).1]
          exact ⟨harr.mem_iff.mpr hn, hc⟩
        rw [hc, Option.map_some, repairedBy_of_le]
        exact ReplicaCopy.version_le_of_key_le (not_lt.mp hnot)
    · intro c hc
      exact (copyOf_nodeId ((mem_readFromReplicas hroute).mp (mem_findStaleReplicas.mp hc).1).2).2.2
    · intro c hc
      obtain ⟨hc, hlt⟩ := mem_findStaleReplicas.mp hc
      exact ⟨c, ((mem_readFromReplicas hroute).mp hc).2, ReplicaCopy.version_le_of_key_le hlt.le⟩
    · rw [hok, Nat.zero_add]

/-- No copy is stale when all that are read are equally new. -/
theorem stale_repairBlock_eq_nil (hroute : read blockId = .block blockId) {arrivals : List String} :
    (repairBlock read coordinator now nodes blockId arrivals).stale = [] ↔
      ∀ c ∈ readFromReplicas read coordinator nodes blockId arrivals,
        ∀ d ∈ readFromReplicas read coordinator nodes blockId arrivals, c.key = d.key := by
  rcases hsel : selectLatest (readFromReplicas read coordinator nodes blockId arrivals)
    with _ | latest
  · refine iff_of_true ?_ (selectLatest_eq_none.mp hsel ▸ fun c hc => absurd hc List.not_mem_nil)
    simp only [repairBlock, filter_readFromReplicas hroute, hsel]
  · rw [repairBlock_of_some hroute hsel, findStaleReplicas_eq_nil hsel]
    exact ⟨fun h c hc d hd => (h c hc).trans (h d hd).symm,
      fun h c hc => h c hc latest (selectLatest_eq_some hsel).1⟩

/-- When a copy that is repaired is as the latest one. -/
theorem repairedBy_agrees_iff (h : c.key ≤ latest.key) :
    ((repairedBy now latest c).data = latest.data ∧ (repairedBy now latest c).key = latest.key) ↔
      if c.version = latest.version then
        c.data = latest.data ∧ c.lsn = latest.lsn ∧ c.timestampMs = latest.timestampMs
      else now c.nodeId = latest.timestampMs := by
  by_cases hv : c.version = latest.version
  · rw [if_pos hv, repairedBy_of_le hv.ge, ReplicaCopy.key_inj, and_iff_right hv]
  · have hlt : c.version < latest.version := (ReplicaCopy.version_le_of_key_le h).lt_of_ne hv
    rw [if_neg hv, repairedBy_of_lt hlt, ReplicaCopy.key_inj]
    simp only [true_and]

/-- A round that repairs every copy reaches a fixed point just when each is then as the latest one. -/
theorem fixedPoint_iff_agree (hroute : read blockId = .block blockId) {placement : List String}
    {round : Round}
    (hlive : ∀ n ∈ placement, ((nodes n).engine.liveRow blockId).isSome)
    (hsel : round.latest = some latest) (hin : latest.nodeId ∈ placement)
    (hlatest : copyOf nodes blockId latest.nodeId = some latest)
    (hleft : ∀ n ∈ placement,
      copyOf round.nodes blockId n = (copyOf nodes blockId n).map (repairedBy now latest)) :
    FixedPoint read placement blockId round ↔ ∀ n ∈ placement, ∀ c, copyOf nodes blockId n = some c →
      (repairedBy now latest c).data = latest.data ∧ (repairedBy now latest c).key = latest.key := by
  constructor
  · intro h n hn c hc
    have hread : ∀ n ∈ placement, ∀ c, copyOf nodes blockId n = some c →
        repairedBy now latest c ∈ readFromReplicas read "" round.nodes blockId placement := by
      intro n hn c hc
      rw [mem_readFromReplicas hroute, nodeId_repairedBy, (copyOf_nodeId hc).1, hleft n hn, hc]
      exact ⟨hn, rfl⟩
    obtain ⟨c', hc', hdata, -⟩ := h.held latest hsel n hn
    rw [hleft n hn, hc] at hc'
    have hself := hread _ hin _ hlatest
    rw [repairedBy_of_le le_rfl] at hself
    have hkeys := (stale_repairBlock_eq_nil hroute).mp (h.settled "" now placement (List.Perm.refl _))
    exact ⟨Option.some.inj hc' ▸ hdata, hkeys _ (hread n hn c hc) _ hself⟩
  · intro h
    constructor
    · intro latest' hsel' n hn
      obtain rfl := Option.some.inj (hsel.symm.trans hsel')
      obtain ⟨c, hc⟩ := exists_copyOf (hlive n hn)
      obtain ⟨hdata, hkey⟩ := h n hn c hc
      exact ⟨_, by rw [hleft n hn, hc, Option.map_some], hdata, (ReplicaCopy.key_inj.mp hkey).1⟩
    · intro coordinator' now' arrivals harr
      have hkey : ∀ c ∈ readFromReplicas read coordinator' round.nodes blockId arrivals,
          c.key = latest.key := by
        intro c' hc'
        obtain ⟨hn, hcopy⟩ := (mem_readFromReplicas hroute).mp hc'
        have hn := harr.mem_iff.mp hn
        rw [hleft _ hn, Option.map_eq_some_iff] at hcopy
        obtain ⟨c, hc, heq⟩ := hcopy
        rw [← heq]
        exact (h _ hn c hc).2
      rw [stale_repairBlock_eq_nil hroute]
      exact fun c hc d hd => (hkey c hc).trans (hkey d hd).symm

/-- A round of successful writes for a block that the URL leads to reaches a fixed point just when the
copies of the highest version are the same and the clock of every node with an older one shows their
time. -/
theorem fixedPoint_iff (hroute : read blockId = .block blockId) {placement arrivals : List String}
    (hlive : ∀ n ∈ placement, ((nodes n).engine.liveRow blockId).isSome)
    (harr : arrivals.Perm placement)
    (hok : (repairBlock read coordinator now nodes blockId arrivals).repaired =
      some (repairBlock read coordinator now nodes blockId arrivals).stale.length) :
    FixedPoint read placement blockId
        (repairBlock read coordinator now nodes blockId arrivals) ↔
      Settles now nodes placement blockId := by
  rcases List.eq_nil_or_concat' placement with rfl | ⟨ns, m, hns⟩
  · refine iff_of_true ⟨fun _ _ n hn => absurd hn List.not_mem_nil, ?_⟩ fun m hm =>
      absurd hm List.not_mem_nil
    intro coordinator' now' arrivals' harr'
    rw [stale_repairBlock_eq_nil hroute, harr'.eq_nil]
    exact fun c hc => absurd hc List.not_mem_nil
  · have hm : m ∈ placement := hns ▸ List.mem_append_right ns List.mem_cons_self
    obtain ⟨latest, hsel, hin, hlatest, hmax, hleft⟩ := repairBlock_spec hroute hm hlive harr hok
    rw [fixedPoint_iff_agree hroute hlive hsel hin hlatest hleft]
    constructor
    · intro h m' hm' latest' hlatest' hmax' n hn c hc
      have hversion : latest'.version = latest.version := le_antisymm
        (ReplicaCopy.version_le_of_key_le (hmax m' hm' latest' hlatest'))
        (hmax' latest.nodeId hin latest hlatest)
      have hsame := (repairedBy_agrees_iff (hmax m' hm' latest' hlatest')).mp (h m' hm' _ hlatest')
      rw [if_pos hversion] at hsame
      have hcopy := (repairedBy_agrees_iff (hmax n hn c hc)).mp (h n hn c hc)
      rw [(copyOf_nodeId hc).1] at hcopy
      rwa [hversion, hsame.1, hsame.2.1, hsame.2.2]
    · intro h n hn c hc
      rw [repairedBy_agrees_iff (hmax n hn c hc), (copyOf_nodeId hc).1]
      exact h latest.nodeId hin latest hlatest (fun n hn c hc =>
        ReplicaCopy.version_le_of_key_le (hmax n hn c hc)) n hn c hc

/-- A node that a primary has written version `version` of a block to. -/
def written (nodeId data : String) (version lsn time : ℤ) : TimedEngine :=
  ((⟨.empty nodeId, fun _ => 0⟩ : TimedEngine).replicate time
    ⟨"a", some data, version, some lsn, some "node1"⟩).1

/-- Two nodes, of which the second has missed a write. -/
def behind (nodeId : String) : TimedEngine :=
  if nodeId = "node1" then written "node1" "new" 2 5 100 else written "node2" "old" 1 3 90

/-- One round, at the times that the nodes show. -/
theorem fixedPoint_iff_behind : FixedPoint Urls.plain.read ["node1", "node2"] "a"
      (repairBlock Urls.plain.read "node1" (fun _ => 100) behind "a" ["node2", "node1"]) ↔
    Settles (fun _ => 100) behind ["node1", "node2"] "a" :=
  fixedPoint_iff (by decide +kernel) (by decide +kernel) (by decide +kernel) (by decide +kernel)

/-- The node that is repaired at a later time has the newer copy in the second round, where the node
that it was repaired from is stale. -/
theorem fixedPoint_counterexample : ¬ ∀ (read : String → Route) (coordinator : String)
    (now : String → ℤ) (nodes : String → TimedEngine) (blockId : String)
    (placement arrivals : List String),
    (∀ n ∈ placement, ((nodes n).engine.liveRow blockId).isSome) → arrivals.Perm placement →
    (repairBlock read coordinator now nodes blockId arrivals).repaired =
      some (repairBlock read coordinator now nodes blockId arrivals).stale.length →
    FixedPoint read placement blockId
      (repairBlock read coordinator now nodes blockId arrivals) := by
  intro h
  have hfixed := h Urls.plain.read "node1" (fun _ => 200) behind "a" ["node1", "node2"]
    ["node2", "node1"]
    (by decide +kernel) (by decide +kernel) (by decide +kernel)
  have hstale := hfixed.settled "node1" (fun _ => 300) ["node1", "node2"] (List.Perm.refl _)
  revert hstale
  decide +kernel

end NanoFabric.Repair
