import NanoFabric.Found.Dict
import NanoFabric.Replication.ReplicaMessage

/-!
# Replay of hints

A round of `HintedHandoff.replay_pending` (`node/hinted_handoff.py`) over the pending hints of
`node/hint_store.py`. A replica that cannot be reached, or that refuses a hint, is a
`ReplicaClientError` and leaves the hint pending; every other exception ends the round, those of a
request to a malformed address among them.

* `deliverHint_of_answers` — what the delivery of one hint leaves.
* `delivered_iff_passes` — which rounds deliver all hints whose targets answer.
* `drains_iff` — a round retires every hint whose target answers, and decides each hint as if it were
  alone, just when no hint before such a one raises, and its target accepts it, both as it stands and
  with the rows of the hints before.
-/

namespace NanoFabric.Replication

open NanoFabric.Found
open NanoFabric.Node
open NanoFabric.Storage

/-! ## Hints -/

/-- Source: `node/hint_store.py`, `HintStatus`. -/
inductive HintStatus
  | pending
  | delivered
  | failed
deriving DecidableEq, Repr

/-- What the JSON text of a hint carries.
Source: `node/hinted_handoff.py`, `store_hint`. -/
structure HintPayload where
  data : String
  lsn : ℤ
  originNodeId : String
  isDelete : Bool
deriving DecidableEq, Repr

/-- Source: `node/hint_store.py`, `Hint`. -/
structure Hint where
  hintId : String
  targetNode : String
  blockId : String
  version : ℤ
  payload : HintPayload
  status : HintStatus
deriving DecidableEq, Repr

/-- The request of a hint.
Source: `node/hinted_handoff.py`, `deliver_hint`. -/
def Hint.message (hint : Hint) : Option ReplicaMessage :=
  ReplicaMessage.build hint.payload.isDelete ⟨hint.blockId, some hint.payload.data, hint.version,
    some hint.payload.lsn, some hint.payload.originNodeId⟩

/-- Source: `node/hint_store.py`, `HintStore`. -/
abbrev HintStore := Table fun (hintId : String) (hint : Hint) => hint.hintId = hintId

namespace HintStore

/-- Source: `node/hint_store.py`, `get_hint`. -/
def getHint (s : HintStore) (hintId : String) : Option Hint := s.rows.get? hintId

/-- The hints in the order in which they were created.
Source: `node/hint_store.py`, `list_pending`. -/
def listPending (s : HintStore) : List Hint := s.rows.values.filter fun hint => hint.status = .pending

/-- Source: `node/hint_store.py`, `mark_delivered`. -/
def markDelivered (s : HintStore) (hintId : String) : HintStore :=
  match hhint : s.getHint hintId with
  | none => s
  | some hint => Table.set s hintId { hint with status := .delivered } (s.checked hintId hint hhint)

/-- A store with one hint. -/
def only (hint : Hint) : HintStore := Table.set .empty hint.hintId hint rfl

end HintStore

/-! ## A round -/

/-- What becomes of a request to the address of a node: the node answers it, or it ends in an exception.
A timeout or a network error is raised again as a `ReplicaClientError` when the last attempt is over;
`httpx.InvalidURL`, which a malformed address is, and `httpx.RemoteProtocolError` are not caught.
Source: `node/replica_client.py`, `_post_replicate`. -/
inductive Contact
  | answers
  | unreachable
  | raises
deriving DecidableEq, Repr

/-- The nodes that hints are for: the addresses that the metadata service knows, what becomes of a
request to them, and what the nodes hold. -/
structure Fleet where
  addresses : String → Option String
  contact : String → Contact
  nodes : String → LocalEngine

namespace Fleet

/-- An address is known, and is not the empty text; else `resolve_node_url` raises a `KeyError`.
Source: `node/metadata_client.py`, `resolve_node_url`. -/
def registered (f : Fleet) (nodeId : String) : Bool := (f.addresses nodeId).any (· ≠ "")

/-- The node is registered, and can be reached. -/
def answers (f : Fleet) (nodeId : String) : Bool := f.registered nodeId && f.contact nodeId = .answers

/-- The target is registered, the request can be built, and no exception but a `ReplicaClientError`
comes of it. -/
def Tries (f : Fleet) (hint : Hint) : Prop :=
  f.registered hint.targetNode = true ∧ hint.message.isSome ∧ f.contact hint.targetNode ≠ .raises

/-- A node after a request. -/
def withNode (f : Fleet) (nodeId : String) (node : LocalEngine) : Fleet :=
  { f with nodes := Function.update f.nodes nodeId node }

@[simp] theorem withNode_self (f : Fleet) (n : String) (node : LocalEngine) :
    (f.withNode n node).nodes n = node := Function.update_self _ _ _

@[simp] theorem withNode_of_ne {n n' : String} (h : n' ≠ n) (f : Fleet) (node : LocalEngine) :
    (f.withNode n node).nodes n' = f.nodes n' := Function.update_of_ne h _ _

end Fleet

/-- The delivery of a hint, where `none` is an exception that is not caught.
Source: `node/hinted_handoff.py`, `deliver_hint`. -/
def deliverHint (f : Fleet) (s : HintStore) (hint : Hint) : Option (Fleet × HintStore × Bool) :=
  if f.registered hint.targetNode then
    match hint.message with
    | none => none
    | some message =>
        match f.contact hint.targetNode with
        | .answers =>
            let (node, code) := message.deliver (f.nodes hint.targetNode)
            let f' := f.withNode hint.targetNode node
            if code = 200 then some (f', s.markDelivered hint.hintId, true) else some (f', s, false)
        | .unreachable => some (f, s, false)
        | .raises => none
  else none

/-- The loop of a round, with the number of hints that it has delivered.
Source: `node/hinted_handoff.py`, `replay_pending`. -/
def replayHints : List Hint → Fleet → HintStore → ℕ → Fleet × HintStore × Option ℕ
  | [], f, s, delivered => (f, s, some delivered)
  | hint :: hints, f, s, delivered =>
      match deliverHint f s hint with
      | none => (f, s, none)
      | some (f', s', ok) => replayHints hints f' s' (if ok then delivered + 1 else delivered)

/-- Source: `node/hinted_handoff.py`, `replay_pending`. -/
def replayPending (f : Fleet) (s : HintStore) : Fleet × HintStore × Option ℕ :=
  replayHints s.listPending f s 0

/-- What a round decides of a hint. -/
def fate (f : Fleet) (s : HintStore) (hintId : String) : Option HintStatus :=
  ((replayPending f s).2.1.getHint hintId).map Hint.status

/-- A round drains what it can, each hint by itself. -/
structure Drains (f : Fleet) (s : HintStore) : Prop where
  /-- A pending hint whose target answers is retired, and the target has a row that is as new. -/
  retired : ∀ hintId hint, s.getHint hintId = some hint → hint.status = .pending →
    f.answers hint.targetNode = true → fate f s hintId = some .delivered ∧
      ∃ row, ((replayPending f s).1.nodes hint.targetNode).rows hint.blockId = some row ∧
        hint.version ≤ row.version
  /-- A hint ends up as it does when it is the only one. -/
  independent : ∀ hintId hint, s.getHint hintId = some hint →
    fate f s hintId = fate f (.only hint) hintId

/-- The newest row of a block among the one that a node has and those that hints for it carry. -/
def newestRow (f : Fleet) (hints : List Hint) (target blockId : String) : Option Row :=
  (hints.filter fun g => g.targetNode = target ∧ g.blockId = blockId).foldl
    (fun held g => (g.message.map fun message => Register.put Row.key held message.row).getD held)
    ((f.nodes target).rows blockId)

/-- When a round drains what it can: no hint that comes before one whose target answers raises, and
such a target accepts the hint as it stands and after the hints before. -/
def Drainable (f : Fleet) (hints : List Hint) : Prop :=
  ∀ before hint after, hints = before ++ hint :: after → f.answers hint.targetNode = true →
    (∀ g ∈ before, f.Tries g) ∧
      ∃ message, hint.message = some message ∧
        message.Accepted ((f.nodes hint.targetNode).rows hint.blockId) ∧
        message.Accepted (newestRow f before hint.targetNode hint.blockId)

/-! ## One hint -/

variable {f f' : Fleet} {s s' : HintStore} {h g : Hint} {m : ReplicaMessage} {L : List Hint}
  {hintId target b : String} {n : ℕ} {ok : Bool}

namespace HintStore

theorem hintId_of_getHint (hh : s.getHint hintId = some h) : h.hintId = hintId :=
  s.checked hintId h hh

theorem getHint_markDelivered (hintId' : String) : (s.markDelivered hintId).getHint hintId' =
    (s.getHint hintId').map fun h => if hintId' = hintId then { h with status := .delivered } else h := by
  unfold markDelivered
  split
  · rename_i hnone
    by_cases hid : hintId' = hintId
    · rw [hid, hnone]
      rfl
    · simp only [if_neg hid, Option.map_id']
  · rename_i hint hhint
    unfold getHint at hhint ⊢
    simp only [Table.set, Dict.get?_set]
    by_cases hid : hintId' = hintId
    · rw [if_pos hid, hid, hhint, Option.map_some, if_pos rfl]
    · simp only [if_neg hid, Option.map_id']

theorem getHint_markDelivered_self (hh : s.getHint hintId = some h) :
    (s.markDelivered hintId).getHint hintId = some { h with status := .delivered } := by
  rw [getHint_markDelivered, hh, Option.map_some, if_pos rfl]

theorem getHint_markDelivered_of_ne {hintId' : String} (hne : hintId' ≠ hintId) :
    (s.markDelivered hintId).getHint hintId' = s.getHint hintId' := by
  simp only [getHint_markDelivered, if_neg hne, Option.map_id']

theorem mem_listPending :
    h ∈ s.listPending ↔ s.getHint h.hintId = some h ∧ h.status = .pending := by
  unfold listPending
  rw [List.mem_filter, Dict.mem_values, decide_eq_true_iff]
  apply and_congr_left'
  constructor
  · rintro ⟨hintId, hh⟩
    rwa [hintId_of_getHint hh]
  · exact fun hh => ⟨_, hh⟩

/-- The pending hints have different ids. -/
theorem nodup_listPending (s : HintStore) : (s.listPending.map Hint.hintId).Nodup := by
  have hkeys : s.rows.values.map Hint.hintId = s.rows.keys := by
    unfold Dict.values Dict.keys
    rw [List.map_map]
    apply List.map_congr_left
    rintro ⟨hintId, hint⟩ hmem
    exact s.checked hintId hint (Dict.mem_entries.mp hmem)
  exact (hkeys ▸ s.rows.nodup_keys : (s.rows.values.map Hint.hintId).Nodup).sublist
    (List.filter_sublist.map _)

theorem getHint_only (h : Hint) : (only h).getHint h.hintId = some h := Dict.get?_set_self

theorem listPending_only (hh : h.status = .pending) : (only h).listPending = [h] := by
  have hvalues : (only h).rows.values = [h] := rfl
  unfold listPending
  rw [hvalues, List.filter_cons_of_pos (by simp [hh]), List.filter_nil]

end HintStore

theorem Hint.message_fields (hm : h.message = some m) :
    m.base.blockId = h.blockId ∧ m.base.version = h.version := ReplicaMessage.base_of_build hm

/-- A hint raises when its target is not registered, its request cannot be built, or the exception of
the request is not caught. -/
theorem deliverHint_eq_none : deliverHint f s h = none ↔ ¬ f.Tries h := by
  unfold deliverHint Fleet.Tries
  by_cases hreg : f.registered h.targetNode = true
  · rw [if_pos hreg, and_iff_right hreg]
    rcases h.message with _ | m
    · exact iff_of_true rfl nofun
    · cases f.contact h.targetNode with
      | answers =>
          refine iff_of_false ?_ fun hno => hno ⟨rfl, nofun⟩
          simp only
          split_ifs <;> nofun
      | unreachable => exact iff_of_false nofun fun hno => hno ⟨rfl, nofun⟩
      | raises => exact iff_of_true rfl fun hno => hno.2 rfl
  · rw [if_neg hreg]
    exact iff_of_true rfl fun hno => hreg hno.1

theorem tries_of_deliverHint (hd : deliverHint f s h = some (f', s', ok)) : f.Tries h := by
  by_contra hno
  rw [deliverHint_eq_none.mpr hno] at hd
  cases hd

/-- A target that cannot be reached leaves everything as it is, if nothing else is raised. -/
theorem deliverHint_of_unreachable (htries : f.Tries h) (hno : f.answers h.targetNode = false) :
    deliverHint f s h = some (f, s, false) := by
  obtain ⟨hreg, hm, hraises⟩ := htries
  obtain ⟨m, hm⟩ := Option.isSome_iff_exists.mp hm
  have hcontact : f.contact h.targetNode = .unreachable := by
    unfold Fleet.answers at hno
    rw [hreg, Bool.true_and, decide_eq_false_iff_not] at hno
    cases hc : f.contact h.targetNode with
    | answers => exact absurd hc hno
    | unreachable => rfl
    | raises => exact absurd hc hraises
  unfold deliverHint
  rw [if_pos hreg, hm, hcontact]

theorem Fleet.of_answers (h : f.answers target = true) :
    f.registered target = true ∧ f.contact target = .answers := by
  unfold Fleet.answers at h
  rwa [Bool.and_eq_true, decide_eq_true_iff] at h

theorem Fleet.tries_of_answers (hans : f.answers h.targetNode = true) (hm : h.message = some m) :
    f.Tries h := by
  obtain ⟨hreg, hcontact⟩ := Fleet.of_answers hans
  refine ⟨hreg, by rw [hm]; rfl, ?_⟩
  rw [hcontact]
  nofun

/-- What the delivery to a target that answers leaves: an accepted hint is marked, and its row is
offered to the register of the block. -/
theorem deliverHint_of_answers (hans : f.answers h.targetNode = true) (hm : h.message = some m) :
    ∃ node ok, deliverHint f s h =
        some (f.withNode h.targetNode node, if ok then s.markDelivered h.hintId else s, ok) ∧
      (m.Accepted ((f.nodes h.targetNode).rows h.blockId) → ok = true ∧
        node.rows = Registers.put Row.key (f.nodes h.targetNode).rows h.blockId m.row) ∧
      (¬ m.Accepted ((f.nodes h.targetNode).rows h.blockId) → ok = false ∧
        node.rows = (f.nodes h.targetNode).rows) := by
  obtain ⟨hreg, hcontact⟩ := Fleet.of_answers hans
  have hspec := m.deliver_spec (f.nodes h.targetNode)
  obtain ⟨htaken, hrefused⟩ := hspec
  rw [(Hint.message_fields hm).1] at htaken hrefused
  refine ⟨(m.deliver (f.nodes h.targetNode)).1,
    decide ((m.deliver (f.nodes h.targetNode)).2 = 200), ?_, fun hacc => ?_, fun hno => ?_⟩
  · unfold deliverHint
    rw [if_pos hreg, hm, hcontact]
    by_cases hcode : (m.deliver (f.nodes h.targetNode)).2 = 200
    · simp only [hcode, if_true, decide_true]
    · simp only [hcode, if_false, decide_false, Bool.false_eq_true]
  · exact ⟨decide_eq_true (htaken hacc).1, (htaken hacc).2⟩
  · exact ⟨decide_eq_false (hrefused hno).1, (hrefused hno).2⟩

/-- Only the hint that is delivered is marked, and only when its target answers. -/
theorem getHint_deliverHint (hd : deliverHint f s h = some (f', s', ok)) :
    (∀ hintId, hintId ≠ h.hintId → s'.getHint hintId = s.getHint hintId) ∧
      (f.answers h.targetNode = false → s' = s) ∧
      f'.addresses = f.addresses ∧ f'.contact = f.contact := by
  have htries := tries_of_deliverHint hd
  obtain ⟨m, hm⟩ := Option.isSome_iff_exists.mp htries.2.1
  rcases hans : f.answers h.targetNode with _ | _
  · rw [deliverHint_of_unreachable htries hans] at hd
    simp only [Option.some.injEq, Prod.mk.injEq] at hd
    obtain ⟨rfl, rfl, -⟩ := hd
    exact ⟨fun _ _ => rfl, fun _ => rfl, rfl, rfl⟩
  · obtain ⟨node, ok', hd', -, -⟩ := deliverHint_of_answers (s := s) hans hm
    rw [hd'] at hd
    simp only [Option.some.injEq, Prod.mk.injEq] at hd
    obtain ⟨rfl, rfl, -⟩ := hd
    refine ⟨fun hintId hne => ?_, nofun, rfl, rfl⟩
    split
    · exact HintStore.getHint_markDelivered_of_ne hne
    · rfl

/-- The rows of the target only grow. -/
theorem grows_deliverHint (hd : deliverHint f s h = some (f', s', ok)) (target : String) :
    Registers.Grows Row.key (f.nodes target).rows (f'.nodes target).rows := by
  have htries := tries_of_deliverHint hd
  obtain ⟨m, hm⟩ := Option.isSome_iff_exists.mp htries.2.1
  rcases hans : f.answers h.targetNode with _ | _
  · rw [deliverHint_of_unreachable htries hans] at hd
    simp only [Option.some.injEq, Prod.mk.injEq] at hd
    obtain ⟨rfl, -, -⟩ := hd
    exact .refl _ _
  · obtain ⟨node, ok', hd', htaken, hrefused⟩ := deliverHint_of_answers (s := s) hans hm
    rw [hd'] at hd
    simp only [Option.some.injEq, Prod.mk.injEq] at hd
    obtain ⟨rfl, -, -⟩ := hd
    by_cases htarget : target = h.targetNode
    · obtain rfl := htarget
      rw [Fleet.withNode_self]
      by_cases hacc : m.Accepted ((f.nodes h.targetNode).rows h.blockId)
      · rw [(htaken hacc).2]
        exact Registers.grows_put Row.key _ _ _
      · rw [(hrefused hacc).2]
        exact .refl _ _
    · rw [Fleet.withNode_of_ne htarget]
      exact .refl _ _

/-- What a delivery that succeeds leaves at the target; one that fails marks nothing. -/
theorem row_of_deliverHint (hans : f.answers h.targetNode = true)
    (hd : deliverHint f s h = some (f', s', ok)) :
    (ok = true → ∃ row, (f'.nodes h.targetNode).rows h.blockId = some row ∧
      h.version ≤ row.version) ∧ (ok = false → s' = s) := by
  obtain ⟨m, hm⟩ := Option.isSome_iff_exists.mp (tries_of_deliverHint hd).2.1
  obtain ⟨node, ok', hd', htaken, hrefused⟩ := deliverHint_of_answers (s := s) hans hm
  rw [hd'] at hd
  simp only [Option.some.injEq, Prod.mk.injEq] at hd
  obtain ⟨rfl, rfl, rfl⟩ := hd
  refine ⟨fun hok => ?_, fun hok => by rw [hok]; rfl⟩
  by_cases hacc : m.Accepted ((f.nodes h.targetNode).rows h.blockId)
  · rw [Fleet.withNode_self, (htaken hacc).2, Registers.put_same]
    obtain ⟨row, hrow, hle⟩ :=
      Register.absorbs_put Row.key ((f.nodes h.targetNode).rows h.blockId) m.row
    refine ⟨row, hrow, ?_⟩
    rw [← (Hint.message_fields hm).2, ← ReplicaMessage.version_row]
    exact Row.version_le_of_key_le hle
  · exact absurd (hok.symm.trans (hrefused hacc).1) (by decide)

/-! ## All hints -/

/-- The round touches only hints of its list whose targets answer. -/
theorem getHint_replayHints (hh : s.getHint hintId = some h)
    (hkept : ∀ g ∈ L, g.hintId = hintId → f.answers g.targetNode = false) :
    (replayHints L f s n).2.1.getHint hintId = some h := by
  induction L generalizing f s n with
  | nil => exact hh
  | cons g L ih =>
      unfold replayHints
      rcases hd : deliverHint f s g with _ | ⟨f', s', ok⟩
      · exact hh
      · obtain ⟨hother, hsame, haddr, hcontact⟩ := getHint_deliverHint hd
        refine ih ?_ fun g' hg' hid => ?_
        · by_cases hid : hintId = g.hintId
          · rw [hsame (hkept g List.mem_cons_self hid.symm), hh]
          · rw [hother hintId hid, hh]
        · have hans := hkept g' (List.mem_cons_of_mem _ hg') hid
          unfold Fleet.answers Fleet.registered at hans ⊢
          rwa [haddr, hcontact]

/-- Rows only grow during a round. -/
theorem grows_replayHints (target : String) : Registers.Grows Row.key (f.nodes target).rows
    ((replayHints L f s n).1.nodes target).rows := by
  induction L generalizing f s n with
  | nil => exact .refl _ _
  | cons g L ih =>
      unfold replayHints
      rcases hd : deliverHint f s g with _ | ⟨f', s', ok⟩
      · exact .refl _ _
      · exact (grows_deliverHint hd target).trans ih

/-- No hint before one whose target answers raises, and such a target accepts the hint after those
before. -/
def Passes (f : Fleet) (L : List Hint) : Prop :=
  ∀ before h after, L = before ++ h :: after → f.answers h.targetNode = true →
    (∀ g ∈ before, f.Tries g) ∧
      ∃ m, h.message = some m ∧ m.Accepted (newestRow f before h.targetNode h.blockId)

/-- A list passes when its first hint does, and the others do after it. -/
theorem passes_cons (f' : Fleet) (htries : f.Tries h) (hm : h.message = some m)
    (haddr : f'.addresses = f.addresses) (hcontact : f'.contact = f.contact)
    (hnewest : ∀ before target b, f.answers target = true →
      newestRow f (h :: before) target b = newestRow f' before target b) :
    Passes f (h :: L) ↔ (f.answers h.targetNode = true →
      m.Accepted ((f.nodes h.targetNode).rows h.blockId)) ∧ Passes f' L := by
  have hans : ∀ n, f'.answers n = f.answers n := fun n => by
    unfold Fleet.answers Fleet.registered
    rw [haddr, hcontact]
  have hsame : ∀ g, f'.Tries g ↔ f.Tries g := fun g => by
    unfold Fleet.Tries Fleet.registered
    rw [haddr, hcontact]
  constructor
  · intro hpass
    refine ⟨fun hh => ?_, fun before g after hL hg => ?_⟩
    · obtain ⟨-, m', hm', hacc⟩ := hpass [] h L rfl hh
      obtain rfl := Option.some.inj (hm.symm.trans hm')
      exact hacc
    · rw [hans] at hg
      obtain ⟨hbefore, m', hm', hacc⟩ := hpass (h :: before) g after (by rw [hL]; rfl) hg
      rw [hnewest _ _ _ hg] at hacc
      refine ⟨fun g' hg' => ?_, m', hm', hacc⟩
      rw [hsame]
      exact hbefore g' (List.mem_cons_of_mem _ hg')
  · rintro ⟨hfirst, hrest⟩ before g after hL hg
    rcases before with _ | ⟨h', before⟩
    · obtain ⟨rfl, -⟩ := List.cons.inj hL
      exact ⟨nofun, m, hm, hfirst hg⟩
    · obtain ⟨rfl, rfl⟩ := List.cons.inj hL
      obtain ⟨hbefore, m', hm', hacc⟩ := hrest before g after rfl (by rwa [hans])
      rw [← hnewest _ _ _ hg] at hacc
      refine ⟨fun g' hg' => ?_, m', hm', hacc⟩
      rcases List.mem_cons.mp hg' with rfl | hg'
      · exact htries
      · rw [← hsame]
        exact hbefore g' hg'

/-- After the delivery of a hint that is accepted, the newest row of the rest counts from there. -/
theorem newestRow_cons_of_taken {node : LocalEngine} (hm : h.message = some m)
    (hrows : node.rows = Registers.put Row.key (f.nodes h.targetNode).rows h.blockId m.row)
    (before : List Hint) (target b : String) : newestRow f (h :: before) target b =
      newestRow (f.withNode h.targetNode node) before target b := by
  unfold newestRow
  by_cases hsame : h.targetNode = target ∧ h.blockId = b
  · obtain ⟨rfl, rfl⟩ := hsame
    rw [List.filter_cons_of_pos (by simp), List.foldl_cons, hm]
    simp only [Fleet.withNode_self, hrows, Registers.put_same, Option.map_some, Option.getD_some]
  · rw [List.filter_cons_of_neg (by simpa using hsame)]
    congr 1
    by_cases htarget : target = h.targetNode
    · obtain rfl := htarget
      have hb : b ≠ h.blockId := fun hb => hsame ⟨rfl, hb.symm⟩
      simp only [Fleet.withNode_self, hrows, Registers.put_of_ne hb]
    · simp only [Fleet.withNode_of_ne htarget]

theorem newestRow_cons_of_ne (hne : h.targetNode ≠ target) (before : List Hint) :
    newestRow f (h :: before) target b = newestRow f before target b := by
  unfold newestRow
  rw [List.filter_cons_of_neg (by simp [hne])]

/-- A round delivers every hint whose target answers just when the hints pass. -/
theorem delivered_iff_passes (hnodup : (L.map Hint.hintId).Nodup)
    (hpending : ∀ h ∈ L, s.getHint h.hintId = some h ∧ h.status = .pending) :
    (∀ h ∈ L, f.answers h.targetNode = true →
      ((replayHints L f s n).2.1.getHint h.hintId).map Hint.status = some .delivered) ↔
        Passes f L := by
  induction L generalizing f s n with
  | nil =>
      refine iff_of_true nofun fun before h after hL => ?_
      rcases before with _ | _ <;> cases hL
  | cons h L ih =>
      obtain ⟨hstored, hstatus⟩ := hpending h List.mem_cons_self
      obtain ⟨hnotin, hnodup⟩ := List.nodup_cons.mp hnodup
      have hother : ∀ g ∈ L, g.hintId ≠ h.hintId := fun g hg hid =>
        hnotin (List.mem_map.mpr ⟨g, hg, hid⟩)
      by_cases htries : f.Tries h
      · obtain ⟨m, hm⟩ := Option.isSome_iff_exists.mp htries.2.1
        rcases hans : f.answers h.targetNode with _ | _
        · -- the target cannot be reached, and the others go on from the same state
          have hrest := ih (f := f) (n := n) hnodup
            fun g hg => hpending g (List.mem_cons_of_mem _ hg)
          have hround : replayHints (h :: L) f s n = replayHints L f s n := by
            rw [replayHints, deliverHint_of_unreachable htries hans]
            rfl
          rw [passes_cons f htries hm rfl rfl fun before target b ht => newestRow_cons_of_ne
            (fun heq => by rw [← heq, hans] at ht; cases ht) before, ← hrest, hround, hans]
          constructor
          · exact fun hall => ⟨nofun, fun g hg => hall g (List.mem_cons_of_mem _ hg)⟩
          · rintro ⟨-, hall⟩ g hg hg'
            rcases List.mem_cons.mp hg with rfl | hg
            · exact absurd (hans.symm.trans hg') (by decide)
            · exact hall g hg hg'
        · obtain ⟨node, ok, hd, htaken, hrefused⟩ := deliverHint_of_answers (s := s) hans hm
          by_cases hacc : m.Accepted ((f.nodes h.targetNode).rows h.blockId)
          · -- the hint is marked, and its row counts for the others
            obtain ⟨rfl, hrows⟩ := htaken hacc
            have hrest := ih (f := f.withNode h.targetNode node) (s := s.markDelivered h.hintId)
              (n := n + 1) hnodup fun g hg => by
                rw [HintStore.getHint_markDelivered_of_ne (hother g hg)]
                exact hpending g (List.mem_cons_of_mem _ hg)
            have hround : replayHints (h :: L) f s n = replayHints L
                (f.withNode h.targetNode node) (s.markDelivered h.hintId) (n + 1) := by
              rw [replayHints, hd]
              rfl
            rw [passes_cons (f.withNode h.targetNode node) htries hm rfl rfl fun before target b _ =>
              newestRow_cons_of_taken hm hrows before target b, ← hrest, hround]
            constructor
            · exact fun hall => ⟨fun _ => hacc, fun g hg => hall g (List.mem_cons_of_mem _ hg)⟩
            · rintro ⟨-, hall⟩ g hg hg'
              rcases List.mem_cons.mp hg with rfl | hg
              · have hmarked := getHint_replayHints (L := L) (n := n + 1)
                  (f := f.withNode g.targetNode node)
                  (HintStore.getHint_markDelivered_self hstored)
                  fun g' hg' hid => absurd hid (hother g' hg')
                rw [hmarked]
                rfl
              · exact hall g hg hg'
          · -- the hint stays pending
            obtain ⟨rfl, hrows⟩ := hrefused hacc
            refine iff_of_false (fun hall => ?_) fun hpass => ?_
            · have hdone := hall h List.mem_cons_self hans
              have hround : replayHints (h :: L) f s n = replayHints L
                  (f.withNode h.targetNode node) s n := by
                rw [replayHints, hd]
                rfl
              rw [hround, getHint_replayHints hstored fun g hg hid => absurd hid (hother g hg),
                Option.map_some, hstatus] at hdone
              cases hdone
            · obtain ⟨-, m', hm', hacc'⟩ := hpass [] h L rfl hans
              obtain rfl := Option.some.inj (hm.symm.trans hm')
              exact hacc hacc'
      · -- the hint raises, and nothing after it is tried
        have hround : replayHints (h :: L) f s n = (f, s, none) := by
          rw [replayHints, deliverHint_eq_none.mpr htries]
        rw [hround]
        constructor
        · intro hall before g after hL hg
          have hmem : g ∈ h :: L := hL ▸ List.mem_append_right _ List.mem_cons_self
          have hdone := hall g hmem hg
          rw [(hpending g hmem).1, Option.map_some, (hpending g hmem).2] at hdone
          cases hdone
        · intro hpass g hg hg'
          obtain ⟨before, after, hL⟩ := List.append_of_mem hg
          obtain ⟨hbefore, m, hm, -⟩ := hpass before g after hL hg'
          rcases before with _ | ⟨h', before⟩
          · obtain ⟨rfl, -⟩ := List.cons.inj hL
            exact absurd (Fleet.tries_of_answers hg' hm) htries
          · obtain ⟨rfl, -⟩ := List.cons.inj hL
            exact absurd (hbefore h List.mem_cons_self) htries

/-- A hint whose target answers and that is delivered has left a row that is as new. -/
theorem row_of_delivered (hnodup : (L.map Hint.hintId).Nodup)
    (hpending : ∀ h ∈ L, s.getHint h.hintId = some h ∧ h.status = .pending)
    (hmem : h ∈ L) (hans : f.answers h.targetNode = true)
    (hdone : ((replayHints L f s n).2.1.getHint h.hintId).map Hint.status = some .delivered) :
    ∃ row, ((replayHints L f s n).1.nodes h.targetNode).rows h.blockId = some row ∧
      h.version ≤ row.version := by
  induction L generalizing f s n with
  | nil => cases hmem
  | cons g L ih =>
      obtain ⟨hnotin, hnodup⟩ := List.nodup_cons.mp hnodup
      unfold replayHints at hdone ⊢
      rcases hd : deliverHint f s g with _ | ⟨f', s', ok⟩
      · rw [hd, (hpending h hmem).1, Option.map_some, (hpending h hmem).2] at hdone
        cases hdone
      · rw [hd] at hdone
        simp only at hdone ⊢
        obtain ⟨hother, -, haddr, hcontact⟩ := getHint_deliverHint hd
        rcases List.mem_cons.mp hmem with rfl | hmem
        · obtain ⟨hrow, hkept⟩ := row_of_deliverHint hans hd
          cases ok with
          | true =>
              obtain ⟨row, hrow, hle⟩ := hrow rfl
              obtain ⟨row', hrow', hgrown⟩ := grows_replayHints (L := L) (s := s')
                (n := if true then n + 1 else n) h.targetNode h.blockId row hrow
              refine ⟨row', hrow', hle.trans ?_⟩
              rcases hgrown with rfl | hlt
              · exact le_rfl
              · exact Row.version_le_of_key_le hlt.le
          | false =>
              obtain rfl := hkept rfl
              rw [getHint_replayHints (hpending h List.mem_cons_self).1 fun g' hg' hid =>
                absurd (List.mem_map.mpr ⟨g', hg', hid⟩) hnotin, Option.map_some,
                (hpending h List.mem_cons_self).2] at hdone
              cases hdone
        · refine ih hnodup (fun g' hg' => ?_) hmem ?_ hdone
          · rw [hother g'.hintId fun hid => hnotin (List.mem_map.mpr ⟨g', hg', hid⟩)]
            exact hpending g' (List.mem_cons_of_mem _ hg')
          · unfold Fleet.answers Fleet.registered at hans ⊢
            rwa [haddr, hcontact]

/-- A hint that is not pending, or whose target does not answer, stays as it is. -/
theorem fate_of_kept (hh : s.getHint h.hintId = some h)
    (hno : h.status = .pending → f.answers h.targetNode = false) :
    fate f s h.hintId = some h.status := by
  unfold fate replayPending
  rw [getHint_replayHints hh fun g hg hid => ?_, Option.map_some]
  obtain ⟨hg, hpend⟩ := HintStore.mem_listPending.mp hg
  rw [hid, hh] at hg
  obtain rfl := Option.some.inj hg
  exact hno hpend

/-- A round drains what it can just when the pending hints are drainable. -/
theorem drains_iff (f : Fleet) (s : HintStore) : Drains f s ↔ Drainable f s.listPending := by
  have hnodup := s.nodup_listPending
  have hpending : ∀ h ∈ s.listPending, s.getHint h.hintId = some h ∧ h.status = .pending :=
    fun h hh => HintStore.mem_listPending.mp hh
  have hround := delivered_iff_passes (f := f) (n := 0) hnodup hpending
  -- a hint that is alone is delivered when its target accepts it as it stands
  have halone : ∀ h : Hint, h.status = .pending → f.answers h.targetNode = true →
      (fate f (.only h) h.hintId = some .delivered ↔ ∃ m, h.message = some m ∧
        m.Accepted ((f.nodes h.targetNode).rows h.blockId)) := by
    intro h hstatus hans
    have hone := delivered_iff_passes (f := f) (L := [h]) (s := .only h) (n := 0) (by simp)
      fun g hg => by
        obtain rfl := List.mem_singleton.mp hg
        exact ⟨HintStore.getHint_only g, hstatus⟩
    have hfate : fate f (.only h) h.hintId =
        ((replayHints [h] f (.only h) 0).2.1.getHint h.hintId).map Hint.status := by
      unfold fate replayPending
      rw [HintStore.listPending_only hstatus]
    rw [hfate]
    constructor
    · intro hdone
      obtain ⟨-, m, hm, hacc⟩ := hone.mp (fun g hg _ => by
        obtain rfl := List.mem_singleton.mp hg
        exact hdone) [] h [] rfl hans
      exact ⟨m, hm, hacc⟩
    · rintro ⟨m, hm, hacc⟩
      refine hone.mpr ?_ h (List.mem_singleton.mpr rfl) hans
      intro before g after hL hg
      rcases before with _ | ⟨h', before⟩
      · obtain ⟨rfl, -⟩ := List.cons.inj hL
        exact ⟨nofun, m, hm, hacc⟩
      · obtain ⟨-, hL⟩ := List.cons.inj hL
        exact absurd hL.symm (by simp)
  constructor
  · intro hdrains
    have hdone : ∀ h ∈ s.listPending, f.answers h.targetNode = true →
        fate f s h.hintId = some .delivered := fun h hh hans =>
      (hdrains.retired h.hintId h (hpending h hh).1 (hpending h hh).2 hans).1
    intro before h after hL hans
    have hmem : h ∈ s.listPending := hL ▸ List.mem_append_right _ List.mem_cons_self
    obtain ⟨hbefore, m, hm, hacc⟩ := hround.mp hdone before h after hL hans
    have hfate := hdrains.independent h.hintId h (hpending h hmem).1
    rw [hdone h hmem hans] at hfate
    obtain ⟨m', hm', hacc'⟩ := (halone h (hpending h hmem).2 hans).mp hfate.symm
    obtain rfl := Option.some.inj (hm.symm.trans hm')
    exact ⟨hbefore, m, hm, hacc', hacc⟩
  · intro hdrainable
    have hpass : Passes f s.listPending := by
      intro before h after hL hans
      obtain ⟨hbefore, m, hm, -, hacc⟩ := hdrainable before h after hL hans
      exact ⟨hbefore, m, hm, hacc⟩
    have hdone := hround.mpr hpass
    refine ⟨fun hintId h hh hstatus hans => ?_, fun hintId h hh => ?_⟩
    · obtain rfl := HintStore.hintId_of_getHint hh
      have hmem := HintStore.mem_listPending.mpr ⟨hh, hstatus⟩
      exact ⟨hdone h hmem hans, row_of_delivered hnodup hpending hmem hans (hdone h hmem hans)⟩
    · obtain rfl := HintStore.hintId_of_getHint hh
      by_cases hstatus : h.status = .pending
      · have hmem := HintStore.mem_listPending.mpr ⟨hh, hstatus⟩
        rcases hans : f.answers h.targetNode with _ | _
        · rw [fate_of_kept hh fun _ => hans, fate_of_kept (HintStore.getHint_only h) fun _ => hans]
        · obtain ⟨before, after, hL⟩ := List.append_of_mem hmem
          obtain ⟨-, m, hm, hacc, -⟩ := hdrainable before h after hL hans
          rw [(halone h hstatus hans).mpr ⟨m, hm, hacc⟩]
          exact hdone h hmem hans
      · rw [fate_of_kept hh fun hp => absurd hp hstatus,
          fate_of_kept (HintStore.getHint_only h) fun hp => absurd hp hstatus]

/-- A hint for a node that has left the cluster, or has a malformed address, and then one for a node that
answers. -/
def twoHints : HintStore :=
  Table.set (HintStore.only ⟨"h1", "node2", "a", 1, ⟨"x", 1, "node1", false⟩, .pending⟩) "h2"
    ⟨"h2", "node3", "b", 1, ⟨"y", 2, "node1", false⟩, .pending⟩ rfl

/-- The `KeyError` of a target that is not registered ends the round before the hints after it. -/
theorem drains_counterexample : ¬ ∀ (f : Fleet) (s : HintStore), Drains f s := by
  intro h
  have hdrains := h ⟨fun n => if n = "node3" then some "node3:8003" else none, fun _ => .answers,
    fun n => .empty n⟩ twoHints
  have hdone := (hdrains.retired "h2" ⟨"h2", "node3", "b", 1, ⟨"y", 2, "node1", false⟩, .pending⟩ rfl rfl
    (by decide)).1
  revert hdone
  decide +kernel

/-- So does the exception of a request to a malformed address. -/
example : (replayPending ⟨fun n => if n = "node3" then some "node3:8003" else some "node2:abc",
    fun n => if n = "node3" then .answers else .raises, fun n => .empty n⟩ twoHints).2.2 = none := by
  decide +kernel

end NanoFabric.Replication
