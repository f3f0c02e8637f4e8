import NanoFabric.Storage.ClusterBridge
import NanoFabric.Storage.ReplicaEndpoint

/-!
# Re-replication

`ReReplicationService` of `cluster/re_replication_service.py` as `cluster/repair_factory.py` wires
it: a block is copied from a source to a target, the copy is verified, and the target takes a place
in the placement. While a repair runs, the same nodes are up and the same nodes answer, and a read
goes where the URL with the id of the block leads.

* `hasBlock_eq`, `present_eq_holds` — what the answers of nodes say about a block that the URL leads to.
* `copies_copyBlock` — a copy changes the target only, and takes no live row away.
* `copies_copyVerified` — so does all of a repair that precedes the update of the placement.
* `replaceReplica_cases`, `removeExtraReplica_cases` — what is stored, and what changes nothing.
-/

namespace NanoFabric.Repair

open NanoFabric.Found
open NanoFabric.Metadata
open NanoFabric.Node (BlockRecord Row StorageEngine)
open NanoFabric.Storage

/-! ## The state of a repair -/

/-- What a repair raises. -/
inductive RepairError
  | service (e : Placement.ServiceError)
  | jobStore (e : StoreError)
  /-- The `IndexError` of the first node of an empty placement. -/
  | noLocation
  /-- The `ValidationError` of a request. -/
  | invalidRequest
  /-- The `httpx.InvalidURL` of an address or an id. -/
  | invalidUrl
  /-- The `KeyError` of an answer that is no record. -/
  | noRecord
deriving DecidableEq

/-- What a read of a block at a node comes to.
Source: `cluster/node_client.py`, `read_block`. -/
inductive Answer
  | record (record : BlockRecord)
  /-- There is no record: the answer is a 404. -/
  | absent
  /-- The object of another endpoint. -/
  | object
  /-- A `NodeClientError`. -/
  | failed
  /-- An `httpx.InvalidURL`, which no caller catches. -/
  | invalid

namespace Answer

/-- Whether the answer counts as one with the block, where `none` is an exception.
Source: `cluster/node_client.py`, `has_block`. -/
def hasBlock : Answer → Option Bool
  | .record r => some !r.deleted
  | .absent => some false
  | .object => some true
  | .failed => none
  | .invalid => none

/-- The exception that ends a loop over answers that takes their data. -/
def raised : Answer → Option RepairError
  | .object => some .noRecord
  | .invalid => some .invalidUrl
  | _ => none

/-- Two answers have the same data and the same version, as far as they have any.
Source: `cluster/re_replication_service.py`, `verify_copy`. -/
def agrees : Answer → Answer → Bool
  | .record source, .record target => source.data == target.data && source.version == target.version
  | .object, .object => true
  | _, _ => false

end Answer

/-- A cluster and the services that repair it. -/
structure RepairState where
  cluster : Cluster
  /-- The nodes that do not answer. -/
  silent : List String
  policy : RoundRobinPlacementPolicy
  jobs : RepairJobStore
  /-- A registration with an empty node id is rejected. -/
  named : cluster.membership.nodes.get? "" = none

/-- A string that counts as true. -/
def truthy (s : Option String) : Option String := s.filter (· ≠ "")

/-- The policy after a choice of a healthy node that the block is not on, and the node. The policy
raises nothing for one node of a list that has some, so that the sources differ in no case that
occurs.
Source: `cluster/repair_service.py`, `_select_replacement`; `cluster/repair_factory.py`,
`select_replacement`. -/
def pick (policy : RoundRobinPlacementPolicy) (currentNodes healthyNodes : List String) :
    RoundRobinPlacementPolicy × Option String :=
  let available := healthyNodes.filter (· ∉ currentNodes)
  if available = [] then (policy, none)
  else match policy.selectNodes available 1 with
    | .ok (selected, policy) => (policy, selected.head?)
    | .error _ => (policy, available.head?)

/-- Calls that change a repair's state and may raise. -/
abbrev Call (α : Type) := RepairState → RepairState × Except RepairError α

namespace RepairState

/-- The nodes of a block, `none` if it has no placement. -/
def locations (s : RepairState) (blockId : String) : Option (List String) :=
  s.cluster.placement.registry.getBlockLocations blockId

/-- Source: `metadata/placement_service.py`, `get_healthy_nodes`. -/
def healthyNodes (s : RepairState) : List String := s.cluster.membership.healthyNodes

/-- Whether the URL of a read is none that the HTTP client takes. -/
def invalidUrl (s : RepairState) (nodeId blockId : String) : Bool :=
  (s.cluster.address nodeId).any fun address =>
    !s.cluster.urls.takes address || decide (s.cluster.urls.read blockId = .invalid)

/-- What a read at a node comes to.
Source: `cluster/node_client.py`, `read_block`. -/
def readBlock (s : RepairState) (nodeId blockId : String) : Answer :=
  if s.invalidUrl nodeId blockId then .invalid
  else if s.cluster.reaches s.silent nodeId then
    match s.cluster.urls.read blockId with
    | .block blockId =>
        match (s.cluster.nodes nodeId).answer blockId with
        | some record => .record record
        | none => .absent
    | .notFound => .absent
    | .elsewhere => .object
    | .refused => .failed
    | .invalid => .invalid
  else .failed

/-- Source: `cluster/node_client.py`, `has_block`. -/
def hasBlock (s : RepairState) (nodeId blockId : String) : Option Bool :=
  (s.readBlock nodeId blockId).hasBlock

/-- Whether a node is up and counts as one with the block. -/
def present (s : RepairState) (blockId nodeId : String) : Bool :=
  decide (nodeId ∈ s.healthyNodes) && decide (s.hasBlock nodeId blockId = some true)

/-- Whether a node is up, answers and has a live row of the block. -/
def holds (s : RepairState) (blockId nodeId : String) : Bool :=
  decide (nodeId ∈ s.healthyNodes) && s.cluster.reaches s.silent nodeId &&
    ((s.cluster.nodes nodeId).liveRow blockId).isSome

/-- The URL of a read of the block leads to the block. -/
def Carries (s : RepairState) (blockId : String) : Prop := s.cluster.urls.read blockId = .block blockId

/-- The URL of a read of the block leads to no other block. -/
def NoAlias (s : RepairState) (blockId : String) : Prop :=
  ∀ blockId', s.cluster.urls.read blockId = .block blockId' → blockId' = blockId

/-- The state with the engine of a node. -/
def setNode (s : RepairState) (nodeId : String) (node : LocalEngine) : RepairState :=
  { s with cluster := { s.cluster with nodes := Function.update s.cluster.nodes nodeId node } }

/-- The state with other placements. -/
def setPlacement (s : RepairState) (placement : Placement) : RepairState :=
  { s with cluster := { s.cluster with placement } }

/-! ## Placements -/

/-- What a call of the placement service leaves. -/
def placing (s : RepairState) : Except Placement.ServiceError Placement →
    RepairState × Except RepairError Unit
  | .ok placement => (s.setPlacement placement, .ok ())
  | .error e => (s, .error (.service e))

/-- Source: `metadata/placement_service.py`, `replace_replica`. -/
def replaceReplica (blockId oldNode newNode : String) (version : ℤ) : Call Unit := fun s =>
  s.placing (s.cluster.placement.replaceReplica blockId oldNode newNode version)

/-- Source: `metadata/placement_service.py`, `remove_extra_replica`. -/
def removeExtraReplica (blockId extraNode : String) (version : ℤ) : Call Unit := fun s =>
  s.placing (s.cluster.placement.removeExtraReplica blockId extraNode version)

/-- Source: `cluster/repair_service.py`, `_select_replacement`; `cluster/repair_factory.py`,
`select_replacement`. -/
def selectReplacement (s : RepairState) (currentNodes healthyNodes : List String) :
    RepairState × Option String :=
  let (policy, selected) := pick s.policy currentNodes healthyNodes
  ({ s with policy }, selected)

/-! ## The service -/

/-- The bytes of a block go from one node to another. The answer of a read has a version and an LSN,
so that no default is needed.
Source: `cluster/re_replication_service.py`, `copy_block`. -/
def copyBlock (blockId sourceNode targetNode : String) : Call Bool := fun s =>
  match s.readBlock sourceNode blockId with
  | .record record =>
      if record.deleted then (s, .ok false)
      else match s.cluster.address targetNode with
        | none => (s, .ok false)
        | some address =>
            let request : RequestBody :=
              ⟨blockId, some record.data, record.version, some record.originLsn, some sourceNode⟩
            match ReplicateRequest.validate request with
            | none => (s, .error .invalidRequest)
            | some _ =>
                if !s.cluster.urls.takes address then (s, .error .invalidUrl)
                else if targetNode ∈ s.silent then (s, .ok false)
                else
                  let (node, code) := (s.cluster.nodes targetNode).replicate request
                  (s.setNode targetNode node, .ok (decide (code < 400)))
  | .object =>
      match s.cluster.address targetNode with
      | none => (s, .ok false)
      | some _ => (s, .error .noRecord)
  | .absent => (s, .ok false)
  | .failed => (s, .ok false)
  | .invalid => (s, .error .invalidUrl)

/-- The target is read unless the read at the source raises.
Source: `cluster/re_replication_service.py`, `verify_copy`. -/
def verifyCopy (s : RepairState) (blockId sourceNode targetNode : String) :
    Except RepairError Bool :=
  match s.readBlock sourceNode blockId with
  | .invalid => .error .invalidUrl
  | .failed => .ok false
  | source =>
      if s.invalidUrl targetNode blockId then .error .invalidUrl
      else .ok (source.agrees (s.readBlock targetNode blockId))

/-- The first node that is not healthy, or else the first that lacks the block or does not answer.
Source: `cluster/re_replication_service.py`, `_find_missing_node`. -/
def findMissingNode (s : RepairState) (blockId : String) (locations unhealthy : List String) :
    Except RepairError (Option String) :=
  match locations.find? (· ∈ unhealthy) with
  | some nodeId => .ok (some nodeId)
  | none =>
      match locations.find? fun nodeId => s.hasBlock nodeId blockId ≠ some true with
      | some nodeId => if s.invalidUrl nodeId blockId then .error .invalidUrl else .ok (some nodeId)
      | none => .ok none

/-- Source: `cluster/re_replication_service.py`, `_select_source`. -/
def selectSource (s : RepairState) (blockId : String) (locations : List String) :
    Except RepairError (Option String) :=
  match (locations ++ s.cluster.membership.nodes.keys).find? fun nodeId =>
      s.invalidUrl nodeId blockId || decide (s.hasBlock nodeId blockId = some true) with
  | some nodeId => if s.invalidUrl nodeId blockId then .error .invalidUrl else .ok (some nodeId)
  | none => .ok none

/-- The node that `update_metadata` is to replace, if it finds one. -/
def oldNode (s : RepairState) (blockId : String) (locations : List String)
    (missingNode : Option String) : Except RepairError (Option String) :=
  match truthy missingNode with
  | some nodeId => .ok (some nodeId)
  | none => (s.findMissingNode blockId locations []).map truthy

/-- The target takes the place of the node that is missing, or else of the first node.
Source: `cluster/re_replication_service.py`, `update_metadata`. -/
def updateMetadata (blockId targetNode : String) (version : ℤ) (missingNode : Option String) :
    Call Unit := fun s =>
  let locations := (s.locations blockId).getD []
  match s.oldNode blockId locations missingNode with
  | .error e => (s, .error e)
  | .ok old =>
      match old.filter (· ≠ targetNode) with
      | some old => replaceReplica blockId old targetNode version s
      | none =>
          if targetNode ∈ locations then (s, .ok ())
          else match locations with
            | [] => (s, .error .noLocation)
            | first :: _ => replaceReplica blockId first targetNode version s

/-- The source of a repair that names one or none. -/
def chooseSource (s : RepairState) (blockId : String) (locations : List String)
    (sourceNode : Option String) : Except RepairError (Option String) :=
  match truthy sourceNode with
  | some source => .ok (some source)
  | none => (s.selectSource blockId locations).map truthy

/-- The target of a repair that names one or none. -/
def chooseTarget (s : RepairState) (locations : List String) (targetNode : Option String) :
    RepairState × Option String :=
  match truthy targetNode with
  | some target => (s, some target)
  | none => s.selectReplacement locations s.cluster.membership.nodes.keys

/-- The part of `repair_block` before the placement changes: the target, when a verified copy is on
it, or what went wrong.
Source: `cluster/re_replication_service.py`, `repair_block`. -/
def copyVerified (blockId : String) (sourceNode targetNode : Option String) :
    Call (Except String String) := fun s =>
  let locations := (s.locations blockId).getD []
  match s.chooseSource blockId locations sourceNode with
  | .error e => (s, .error e)
  | .ok none => (s, .ok (.error "no source replica found"))
  | .ok (some source) =>
      let (s₁, selected) := s.chooseTarget locations targetNode
      match truthy selected with
      | none => (s₁, .ok (.error "no replacement node available"))
      | some target =>
          match copyBlock blockId source target s₁ with
          | (s₂, .error e) => (s₂, .error e)
          | (s₂, .ok false) => (s₂, .ok (.error "copy failed"))
          | (s₂, .ok true) =>
              match s₂.verifyCopy blockId source target with
              | .error e => (s₂, .error e)
              | .ok true => (s₂, .ok (.ok target))
              | .ok false => (s₂, .ok (.error "verification failed"))

/-- The first node of a placement that is not up, or else the first that lacks the block. -/
def missingNode (s : RepairState) (blockId : String) : Except RepairError (Option String) :=
  let locations := (s.locations blockId).getD []
  s.findMissingNode blockId locations (locations.filter (· ∉ s.healthyNodes))

/-- The part of `repair_block` after the copy is verified.
Source: `cluster/re_replication_service.py`, `repair_block`. -/
def updatePlacement (blockId targetNode : String) (version : ℤ) : Call Unit := fun s =>
  match s.missingNode blockId with
  | .error e => (s, .error e)
  | .ok missing => updateMetadata blockId targetNode version missing s

/-- Source: `cluster/re_replication_service.py`, `repair_block`. -/
def repairBlock (blockId : String) (version : ℤ) (sourceNode targetNode : Option String) :
    Call (Except String Unit) := fun s =>
  match copyVerified blockId sourceNode targetNode s with
  | (s₁, .error e) => (s₁, .error e)
  | (s₁, .ok (.error message)) => (s₁, .ok (.error message))
  | (s₁, .ok (.ok target)) =>
      match updatePlacement blockId target version s₁ with
      | (s₂, .error e) => (s₂, .error e)
      | (s₂, .ok ()) => (s₂, .ok (.ok ()))

/-! ## What the calls leave -/

variable {s s' s₁ s₂ : RepairState} {b n source target : String} {v : ℤ}

/-- The HTTP client takes the address of a node that is reached. -/
theorem invalidUrl_of_reaches (h : s.cluster.reaches s.silent n = true) (b : String) :
    s.invalidUrl n b = decide (s.cluster.urls.read b = .invalid) := by
  unfold Cluster.reaches at h
  rw [Bool.and_eq_true, Option.any_eq_true] at h
  obtain ⟨⟨address, haddress, htakes⟩, -⟩ := h
  unfold invalidUrl
  simp [haddress, htakes]

/-- A node that is reached answers with its live row of a block that the URL leads to. -/
theorem readBlock_of_reaches (hb : s.Carries b) (h : s.cluster.reaches s.silent n = true) :
    s.readBlock n b = (((s.cluster.nodes n).liveRow b).elim .absent fun row =>
      .record (StorageEngine.blockRecord b row)) := by
  unfold Carries at hb
  unfold readBlock
  rw [invalidUrl_of_reaches h, if_pos h, hb, if_neg (by simp)]
  simp only
  rw [LocalEngine.answer_eq]
  rcases (s.cluster.nodes n).liveRow b with _ | row
  · rfl
  · rfl

theorem Carries.noAlias (hb : s.Carries b) : s.NoAlias b := fun b' hb' => by
  unfold Carries at hb
  rw [hb] at hb'
  exact (Node.Route.block.inj hb').symm

/-- No node answers with a record of a block that the URL leads to no block for. -/
theorem readBlock_ne_record (halias : s.NoAlias b) (hb : ¬ s.Carries b) (n : String)
    (record : BlockRecord) : s.readBlock n b ≠ .record record := by
  unfold readBlock
  split
  · nofun
  · split
    · split
      · rename_i b' hroute
        exact absurd (halias b' hroute ▸ hroute) hb
      all_goals nofun
    · nofun

/-- All nodes that are reached answer the same for it. -/
theorem readBlock_congr (halias : s.NoAlias b) (hb : ¬ s.Carries b) {m : String}
    (hn : s.cluster.reaches s.silent n = true) (hm : s.cluster.reaches s.silent m = true) :
    s.readBlock n b = s.readBlock m b := by
  unfold readBlock
  rw [invalidUrl_of_reaches hn, invalidUrl_of_reaches hm, if_pos hn, if_pos hm]
  rcases hroute : s.cluster.urls.read b with b' | _ | _ | _ | _
  · exact absurd (halias b' hroute ▸ hroute) hb
  all_goals rfl

/-- A node that is not reached does not count as one with the block. -/
theorem hasBlock_of_not_reaches (h : s.cluster.reaches s.silent n ≠ true) (b : String) :
    s.hasBlock n b = none := by
  unfold hasBlock readBlock
  rw [if_neg h]
  split
  · rfl
  · rfl

theorem hasBlock_eq (hb : s.Carries b) (n : String) : s.hasBlock n b =
    if s.cluster.reaches s.silent n then some ((s.cluster.nodes n).liveRow b).isSome else none := by
  by_cases h : s.cluster.reaches s.silent n = true
  · unfold hasBlock
    rw [readBlock_of_reaches hb h, if_pos h]
    rcases hrow : (s.cluster.nodes n).liveRow b with _ | row
    · rfl
    · have hlive := (LocalEngine.liveRow_eq_some.mp hrow).2
      simp [Answer.hasBlock, StorageEngine.blockRecord, hlive]
  · rw [hasBlock_of_not_reaches h, if_neg h]

theorem hasBlock_eq_true (hb : s.Carries b) : s.hasBlock n b = some true ↔
    s.cluster.reaches s.silent n = true ∧ ((s.cluster.nodes n).liveRow b).isSome := by
  rw [hasBlock_eq hb]
  split <;> simp_all

/-- A node that counts as one with a block is reached. -/
theorem reaches_of_hasBlock (h : s.hasBlock n b = some true) :
    s.cluster.reaches s.silent n = true := by
  by_contra hno
  rw [hasBlock_of_not_reaches hno] at h
  cases h

theorem holds_iff : s.holds b n = true ↔ n ∈ s.healthyNodes ∧
    s.cluster.reaches s.silent n = true ∧ ((s.cluster.nodes n).liveRow b).isSome := by
  unfold holds
  rw [Bool.and_eq_true, Bool.and_eq_true, decide_eq_true_iff, and_assoc]

/-- The nodes that count as those with a block are those that hold it, if the URL leads to it. -/
theorem present_eq_holds (hb : s.Carries b) (n : String) : s.present b n = s.holds b n := by
  unfold present holds
  rw [Bool.and_assoc, hasBlock_eq hb]
  by_cases h : s.cluster.reaches s.silent n = true
  · simp [h]
  · simp [h]

theorem present_iff (hb : s.Carries b) : s.present b n = true ↔ n ∈ s.healthyNodes ∧
    s.cluster.reaches s.silent n = true ∧ ((s.cluster.nodes n).liveRow b).isSome := by
  rw [present_eq_holds hb, holds_iff]

/-- A node that a request reaches has a name. -/
theorem ne_blank_of_reaches (h : s.cluster.reaches s.silent n = true) : n ≠ "" := by
  rintro rfl
  unfold Cluster.reaches Cluster.address at h
  simp [s.named] at h

/-- The same nodes are up and answer, the URLs lead where they led, and no live row is gone. -/
structure Follows (s s' : RepairState) : Prop where
  membership : s'.cluster.membership = s.cluster.membership
  urls : s'.cluster.urls = s.cluster.urls
  silent : s'.silent = s.silent
  live : ∀ n b, ((s.cluster.nodes n).liveRow b).isSome → ((s'.cluster.nodes n).liveRow b).isSome

theorem Follows.refl (s : RepairState) : Follows s s := ⟨rfl, rfl, rfl, fun _ _ h => h⟩

theorem Follows.trans (h : Follows s s₁) (h' : Follows s₁ s₂) : Follows s s₂ where
  membership := h'.membership.trans h.membership
  urls := h'.urls.trans h.urls
  silent := h'.silent.trans h.silent
  live n b hlive := h'.live n b (h.live n b hlive)

theorem Follows.reaches (h : Follows s s') (n : String) :
    s'.cluster.reaches s'.silent n = s.cluster.reaches s.silent n := by
  unfold Cluster.reaches Cluster.address
  rw [h.membership, h.silent, h.urls]

theorem Follows.carries (h : Follows s s') : s'.Carries b ↔ s.Carries b := by
  unfold Carries
  rw [h.urls]

theorem Follows.healthyNodes (h : Follows s s') : s'.healthyNodes = s.healthyNodes :=
  congrArg MembershipRegistry.healthyNodes h.membership

theorem Follows.holds (h : Follows s s') (hp : s.holds b n = true) : s'.holds b n = true := by
  obtain ⟨hup, hreach, hlive⟩ := holds_iff.mp hp
  exact holds_iff.mpr ⟨h.healthyNodes ▸ hup, (h.reaches n).trans hreach, h.live n b hlive⟩

/-- At most the row of one block at one node, the policy and the jobs differ, and a live row stays
live. -/
structure Copies (s s' : RepairState) (b target : String) : Prop extends Follows s s' where
  placement : s'.cluster.placement = s.cluster.placement
  nodes : ∀ n, n ≠ target → s'.cluster.nodes n = s.cluster.nodes n
  rows : ∀ b', b' ≠ b → (s'.cluster.nodes target).rows b' = (s.cluster.nodes target).rows b'

theorem Copies.of_cluster (b target : String) (hcluster : s'.cluster = s.cluster)
    (hsilent : s'.silent = s.silent) : Copies s s' b target where
  membership := congrArg Cluster.membership hcluster
  urls := congrArg Cluster.urls hcluster
  silent := hsilent
  live n b hlive := by rwa [hcluster]
  placement := congrArg Cluster.placement hcluster
  nodes n _ := by rw [hcluster]
  rows b' _ := by rw [hcluster]

theorem Copies.trans (h : Copies s s₁ b target) (h' : Copies s₁ s₂ b target) :
    Copies s s₂ b target where
  toFollows := h.toFollows.trans h'.toFollows
  placement := h'.placement.trans h.placement
  nodes n hn := (h'.nodes n hn).trans (h.nodes n hn)
  rows b' hb' := (h'.rows b' hb').trans (h.rows b' hb')

theorem Copies.locations (h : Copies s s' b target) : s'.locations = s.locations := by
  unfold RepairState.locations
  rw [h.placement]

/-- A copy changes the target only, and takes no live row away. -/
theorem copies_copyBlock (s : RepairState) (b source target : String) :
    Copies s (copyBlock b source target s).1 b target := by
  have hself : Copies s s b target := .of_cluster _ _ rfl rfl
  unfold copyBlock
  split
  · split
    · exact hself
    · split
      · exact hself
      · dsimp only
        split
        · exact hself
        · split_ifs
          · exact hself
          · exact hself
          · exact {
              membership := rfl
              urls := rfl
              silent := rfl
              placement := rfl
              nodes := fun n hn => Function.update_of_ne hn _ _
              rows := fun b' hb' => by
                simp only [setNode, Function.update_self]
                exact LocalEngine.rows_replicate_of_ne hb'
              live := fun n b' hlive => by
                by_cases hn : n = target
                · subst hn
                  simp only [setNode, Function.update_self]
                  exact LocalEngine.isSome_liveRow_replicate hlive
                · simp only [setNode, Function.update_of_ne hn]
                  exact hlive }
  · split
    · exact hself
    · exact hself
  all_goals exact hself

theorem selectReplacement_cluster (s : RepairState) (current healthy : List String) :
    (s.selectReplacement current healthy).1.cluster = s.cluster ∧
      (s.selectReplacement current healthy).1.silent = s.silent := ⟨rfl, rfl⟩

theorem chooseTarget_cluster (s : RepairState) (current : List String)
    (targetNode : Option String) :
    (s.chooseTarget current targetNode).1.cluster = s.cluster ∧
      (s.chooseTarget current targetNode).1.silent = s.silent := by
  unfold chooseTarget
  split
  · exact ⟨rfl, rfl⟩
  · exact selectReplacement_cluster s _ _

theorem chooseTarget_of_truthy {current : List String} {targetNode : Option String}
    (h : truthy targetNode = some target) : s.chooseTarget current targetNode = (s, some target) := by
  unfold chooseTarget
  rw [h]

theorem truthy_truthy (x : Option String) : truthy (truthy x) = truthy x := by
  unfold truthy
  rw [Option.filter_filter]
  simp

/-- What precedes an update of the placement changes at most the row of the block at the target. -/
theorem copies_copyVerified {sourceNode targetNode : Option String}
    {res : Except RepairError (Except String String)}
    (h : copyVerified b sourceNode targetNode s = (s', res)) :
    ∃ target, Copies s s' b target ∧ (∀ t, res = .ok (.ok t) → t = target) ∧
      ∀ t, truthy targetNode = some t → t = target := by
  have hquiet : ∀ s₁ (res₁ : Except RepairError (Except String String)), s₁.cluster = s.cluster →
      s₁.silent = s.silent → (∀ t, res₁ ≠ .ok (.ok t)) → (s₁, res₁) = (s', res) →
      ∃ target, Copies s s' b target ∧ (∀ t, res = .ok (.ok t) → t = target) ∧
        ∀ t, truthy targetNode = some t → t = target := by
    rintro s₁ res₁ hcluster hsilent hres heq
    obtain ⟨rfl, rfl⟩ := Prod.mk.inj heq
    refine ⟨(truthy targetNode).getD "", .of_cluster _ _ hcluster hsilent, fun t ht => ?_,
      fun t ht => ?_⟩
    · exact absurd ht (hres t)
    · rw [ht, Option.getD_some]
  obtain ⟨hcluster, hsilent⟩ := chooseTarget_cluster s ((s.locations b).getD []) targetNode
  unfold copyVerified at h
  simp only at h
  split at h
  · exact hquiet s _ rfl rfl (fun t ht => by cases ht) h
  · exact hquiet s _ rfl rfl (fun t ht => by cases ht) h
  · rename_i source hsource
    split at h
    · exact hquiet _ _ hcluster hsilent (fun t ht => by cases ht) h
    · rename_i target htarget
      have hnamed : ∀ t, truthy targetNode = some t → t = target := by
        intro t ht
        rw [chooseTarget_of_truthy ht, ← ht, truthy_truthy, ht] at htarget
        exact Option.some.inj htarget
      have hcopy := copies_copyBlock (s.chooseTarget ((s.locations b).getD []) targetNode).1 b source
        target
      have hall := (Copies.of_cluster _ _ hcluster hsilent).trans hcopy
      refine ⟨target, ?_, ?_, hnamed⟩
      · split at h
        all_goals rename_i hres
        all_goals rw [hres] at hall
        · exact (Prod.mk.inj h).1 ▸ hall
        · exact (Prod.mk.inj h).1 ▸ hall
        · split at h
          all_goals exact (Prod.mk.inj h).1 ▸ hall
      · rintro t rfl
        split at h
        · cases (Prod.mk.inj h).2
        · cases (Prod.mk.inj h).2
        · split at h
          · cases (Prod.mk.inj h).2
          · simp only [Prod.mk.injEq, Except.ok.injEq] at h
            exact h.2.symm
          · cases (Prod.mk.inj h).2

/-! ### Placements -/

/-- The block has another placement, and the store has taken it. -/
def Places (s s' : RepairState) (b : String) (v : ℤ) (nodes : List String) : Prop :=
  Placement.Fits v nodes ∧ ∃ placement, s' = s.setPlacement placement ∧
    placement.registry = s.cluster.placement.registry.registerBlock b v nodes

variable {nodes : List String}

theorem Places.follows (h : Places s s' b v nodes) : Follows s s' := by
  obtain ⟨-, placement, rfl, -⟩ := h
  exact ⟨rfl, rfl, rfl, fun _ _ hlive => hlive⟩

theorem Places.locations (h : Places s s' b v nodes) (b' : String) :
    s'.locations b' = if b' = b then some nodes else s.locations b' := by
  obtain ⟨-, placement, rfl, hregistry⟩ := h
  unfold RepairState.locations setPlacement
  simp only
  rw [hregistry, PlacementRegistry.getBlockLocations_registerBlock]

/-- A replacement is stored, or it raises and changes nothing. -/
theorem replaceReplica_cases (s : RepairState) (b oldNode newNode : String) (v : ℤ) :
    ((replaceReplica b oldNode newNode v s).1 = s ∧
        ¬ ∃ L, s.locations b = some L ∧ Placement.Fits v (Placement.replaced L oldNode newNode)) ∨
      ∃ L, s.locations b = some L ∧ (replaceReplica b oldNode newNode v s).2 = .ok () ∧
        Places s (replaceReplica b oldNode newNode v s).1 b v
          (Placement.replaced L oldNode newNode) := by
  unfold replaceReplica
  rcases hL : s.locations b with _ | L
  · rw [Placement.replaceReplica_of_none hL]
    exact Or.inl ⟨rfl, by simp⟩
  · rw [Placement.replaceReplica_of_some hL]
    by_cases hfits : Placement.Fits v (Placement.replaced L oldNode newNode)
    · obtain ⟨placement, hok, hregistry⟩ := Placement.updateBlockPlacement_of_fits
        (Placement.blockExists_of_getBlockLocations hL) hfits
      rw [hok]
      exact Or.inr ⟨L, rfl, rfl, hfits, placement, rfl, hregistry⟩
    · obtain ⟨e, he⟩ := Placement.updateBlockPlacement_of_not_fits
        (p := s.cluster.placement) (b := b) hfits
      rw [he]
      refine Or.inl ⟨rfl, ?_⟩
      rintro ⟨L', hL', hfits'⟩
      exact hfits (Option.some.inj hL' ▸ hfits')

/-- The node is in the placement of the block, which the store takes without it. -/
def Drops (s : RepairState) (b n : String) (v : ℤ) : Prop :=
  ∃ L, s.locations b = some L ∧ n ∈ L ∧ Placement.Fits v (L.filter (· ≠ n))

/-- A removal changes the placement when the node is in it. -/
theorem removeExtraReplica_cases (s : RepairState) (b n : String) (v : ℤ) :
    ((removeExtraReplica b n v s).1 = s ∧ ¬ s.Drops b n v) ∨
      ∃ L, s.locations b = some L ∧ n ∈ L ∧
        Places s (removeExtraReplica b n v s).1 b v (L.filter (· ≠ n)) := by
  unfold removeExtraReplica
  rcases hL : s.locations b with _ | L
  · rw [Placement.removeExtraReplica_of_none hL]
    refine Or.inl ⟨rfl, ?_⟩
    rintro ⟨L, hL', -⟩
    rw [hL] at hL'
    cases hL'
  · by_cases hn : n ∈ L
    · rw [Placement.removeExtraReplica_of_mem hL hn]
      by_cases hfits : Placement.Fits v (L.filter (· ≠ n))
      · obtain ⟨placement, hok, hregistry⟩ := Placement.updateBlockPlacement_of_fits
          (Placement.blockExists_of_getBlockLocations hL) hfits
        rw [hok]
        exact Or.inr ⟨L, rfl, hn, hfits, placement, rfl, hregistry⟩
      · obtain ⟨e, he⟩ := Placement.updateBlockPlacement_of_not_fits
          (p := s.cluster.placement) (b := b) hfits
        rw [he]
        refine Or.inl ⟨rfl, ?_⟩
        rintro ⟨L', hL', -, hfits'⟩
        obtain rfl := Option.some.inj (hL.symm.trans hL')
        exact hfits hfits'
    · rw [Placement.removeExtraReplica_of_notMem hL hn]
      refine Or.inl ⟨rfl, ?_⟩
      rintro ⟨L', hL', hn', -⟩
      exact hn (Option.some.inj (hL.symm.trans hL') ▸ hn')

end RepairState

end NanoFabric.Repair
