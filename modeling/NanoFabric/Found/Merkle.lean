import Mathlib.Algebra.Order.Group.Nat
import Mathlib.Data.List.Basic
import Mathlib.Data.List.Infix
import Mathlib.Data.List.Nodup
import Mathlib.Tactic.Linarith

/-!
# Trees of hashes

A list of leaves is joined level by level, and the last node of an odd level is joined with itself.
What the root of such a tree says of its leaves rests on two facts.

* `HashTree.hash_inj` — trees with the same root hash are the same, if no two texts that are hashed in
  them collide and a leaf is never hashed as a pair.
* `HashTree.eq_of_leaves_eq` — the tree of a list is perfect, and so it is told by its leaves, which are
  the list with its end repeated (`padded`).

The leaves themselves are told only up to these repetitions: `padded_inj` needs lists without
duplicates.
-/

namespace NanoFabric.Found

variable {α β γ η τ : Type}

/-! ## Levels -/

/-- The level above a level: its nodes are joined two by two, the last of an odd number with itself. -/
def pairUp (f : β → β → β) : List β → List β
  | [] => []
  | [x] => [f x x]
  | x :: y :: rest => f x y :: pairUp f rest

theorem length_pairUp (f : β → β → β) : ∀ l : List β, (pairUp f l).length = (l.length + 1) / 2
  | [] => by simp only [pairUp, List.length_nil]
  | [_] => by simp only [pairUp, List.length_singleton]
  | x :: y :: rest => by
      simp only [pairUp, List.length_cons, length_pairUp f rest]
      omega

/-- The top of the levels above a list; the empty list has none. -/
def buildUp (f : β → β → β) : List β → Option β
  | [] => none
  | [x] => some x
  | x :: y :: rest => buildUp f (pairUp f (x :: y :: rest))
termination_by l => l.length
decreasing_by
  rw [length_pairUp]
  simp only [List.length_cons]
  omega

@[simp] theorem buildUp_nil (f : β → β → β) : buildUp f [] = none := by rw [buildUp]

@[simp] theorem buildUp_singleton (f : β → β → β) (x : β) : buildUp f [x] = some x := by rw [buildUp]

theorem buildUp_cons_cons (f : β → β → β) (x y : β) (rest : List β) :
    buildUp f (x :: y :: rest) = buildUp f (pairUp f (x :: y :: rest)) := by
  rw [buildUp]

/-- The levels of a list, up to its top. -/
theorem buildUp_induction {f : β → β → β} {P : List β → Prop} (hnil : P [])
    (hone : ∀ x, P [x]) (hup : ∀ x y rest, P (pairUp f (x :: y :: rest)) → P (x :: y :: rest))
    (l : List β) : P l := by
  induction l using buildUp.induct f with
  | case1 => exact hnil
  | case2 x => exact hone x
  | case3 x y rest ih => exact hup x y rest ih

theorem map_pairUp {f : β → β → β} {g : γ → γ → γ} {h : β → γ}
    (hfg : ∀ x y, h (f x y) = g (h x) (h y)) :
    ∀ l : List β, (pairUp f l).map h = pairUp g (l.map h)
  | [] => rfl
  | [x] => by simp only [pairUp, List.map_cons, List.map_nil, hfg]
  | x :: y :: rest => by simp only [pairUp, List.map_cons, hfg, map_pairUp hfg rest]

/-- What commutes with joining two nodes commutes with building. -/
theorem map_buildUp {f : β → β → β} {g : γ → γ → γ} {h : β → γ}
    (hfg : ∀ x y, h (f x y) = g (h x) (h y)) (l : List β) :
    (buildUp f l).map h = buildUp g (l.map h) := by
  induction l using buildUp_induction (f := f) with
  | hnil => rw [buildUp_nil, List.map_nil, buildUp_nil, Option.map_none]
  | hone x => rw [buildUp_singleton, List.map_singleton, buildUp_singleton, Option.map_some]
  | hup x y rest ih =>
      rw [buildUp_cons_cons, ih, map_pairUp hfg]
      exact (buildUp_cons_cons g (h x) (h y) (rest.map h)).symm

theorem buildUp_isSome {f : β → β → β} {l : List β} (h : l ≠ []) : ∃ x, buildUp f l = some x := by
  induction l using buildUp_induction (f := f) with
  | hnil => exact absurd rfl h
  | hone x => exact ⟨x, buildUp_singleton f x⟩
  | hup x y rest ih =>
      rw [buildUp_cons_cons]
      exact ih (by simp [pairUp])

/-- What holds of all nodes of a level and is kept when two of them are joined holds of the top. -/
theorem buildUp_of_forall {f : β → β → β} {P : ℕ → β → Prop} {l : List β} {t : β}
    (hf : ∀ k x y, P k x → P k y → P (k + 1) (f x y)) (k : ℕ) (hl : ∀ x ∈ l, P k x)
    (ht : buildUp f l = some t) : ∃ m, P m t := by
  induction l using buildUp_induction (f := f) generalizing k with
  | hnil =>
      rw [buildUp_nil] at ht
      cases ht
  | hone x =>
      rw [buildUp_singleton] at ht
      exact ⟨k, Option.some.inj ht ▸ hl x List.mem_cons_self⟩
  | hup x y rest ih =>
      rw [buildUp_cons_cons] at ht
      refine ih (k + 1) ?_ ht
      have hpairs : ∀ l : List β, (∀ x ∈ l, P k x) → ∀ x ∈ pairUp f l, P (k + 1) x := by
        intro l
        induction l using pairUp.induct with
        | case1 => exact fun _ => nofun
        | case2 x =>
            intro hl z hz
            obtain rfl := List.mem_singleton.mp hz
            exact hf k x x (hl x List.mem_cons_self) (hl x List.mem_cons_self)
        | case3 x y rest ih =>
            intro hl z hz
            rcases List.mem_cons.mp hz with rfl | hz
            · exact hf k x y (hl x List.mem_cons_self)
                (hl y (List.mem_cons_of_mem _ List.mem_cons_self))
            · exact ih (fun w hw => hl w (List.mem_cons_of_mem _ (List.mem_cons_of_mem _ hw))) z hz
      exact hpairs _ hl

/-! ## Trees -/

/-- A binary tree with data at its leaves. -/
inductive HashTree (α : Type)
  | leaf (a : α)
  | node (left right : HashTree α)

namespace HashTree

/-- The data of the leaves, from left to right. -/
def leaves : HashTree α → List α
  | leaf a => [a]
  | node l r => l.leaves ++ r.leaves

/-- The hash of a tree, where `H` hashes texts. -/
def hash (H : τ → η) (leafText : α → τ) (pairText : η → η → τ) : HashTree α → η
  | leaf a => H (leafText a)
  | node l r => H (pairText (l.hash H leafText pairText) (r.hash H leafText pairText))

/-- The texts that are hashed in a tree. -/
def texts (H : τ → η) (leafText : α → τ) (pairText : η → η → τ) : HashTree α → List τ
  | leaf a => [leafText a]
  | node l r => pairText (l.hash H leafText pairText) (r.hash H leafText pairText) ::
      (l.texts H leafText pairText ++ r.texts H leafText pairText)

/-- All leaves are at the same depth. -/
inductive Perfect : ℕ → HashTree α → Prop
  | leaf (a : α) : Perfect 0 (leaf a)
  | node {k : ℕ} {l r : HashTree α} (hl : Perfect k l) (hr : Perfect k r) : Perfect (k + 1) (node l r)

variable {H : τ → η} {leafText : α → τ} {pairText : η → η → τ} {t t' : HashTree α} {k k' : ℕ}

theorem Perfect.length_leaves (h : Perfect k t) : t.leaves.length = 2 ^ k := by
  induction h with
  | leaf a => rfl
  | node _ _ ihl ihr => rw [leaves, List.length_append, ihl, ihr, Nat.pow_succ, Nat.mul_two]

/-- A perfect tree is told by its leaves. -/
theorem eq_of_leaves_eq (h : Perfect k t) (h' : Perfect k' t') (heq : t.leaves = t'.leaves) :
    t = t' := by
  have hk : k = k' := by
    have hlength := congrArg List.length heq
    rw [h.length_leaves, h'.length_leaves] at hlength
    exact Nat.pow_right_injective le_rfl hlength
  subst hk
  induction h generalizing t' with
  | leaf a =>
      cases h'
      exact congrArg HashTree.leaf (List.cons.inj heq).1
  | node hl hr ihl ihr =>
      cases h' with
      | node hl' hr' =>
          obtain ⟨hleft, hright⟩ :=
            List.append_inj heq (hl.length_leaves.trans hl'.length_leaves.symm)
          rw [ihl hleft hl', ihr hright hr']

/-- Every root is the hash of a text. -/
theorem exists_hash_eq (H : τ → η) (leafText : α → τ) (pairText : η → η → τ) (t : HashTree α) :
    ∃ x, t.hash H leafText pairText = H x := by
  cases t <;> exact ⟨_, rfl⟩

/-- Trees with the same root hash are the same, if no texts that are hashed in them collide, a leaf is
never hashed as a pair, and a text shows the hashes that it joins. -/
theorem hash_inj (hleaf : Function.Injective leafText)
    (hpair : ∀ x y x' y', pairText (H x) (H y) = pairText (H x') (H y') → H x = H x' ∧ H y = H y')
    (hapart : ∀ a, a ∈ t.leaves ++ t'.leaves → ∀ x y, leafText a ≠ pairText (H x) (H y))
    (hinj : ∀ x ∈ t.texts H leafText pairText, ∀ y ∈ t'.texts H leafText pairText,
      H x = H y → x = y)
    (heq : t.hash H leafText pairText = t'.hash H leafText pairText) : t = t' := by
  have hroot := exists_hash_eq H leafText pairText
  induction t generalizing t' with
  | leaf a =>
      cases t' with
      | leaf a' =>
          have htext := hinj _ List.mem_cons_self _ List.mem_cons_self heq
          exact congrArg HashTree.leaf (hleaf htext)
      | node l' r' =>
          obtain ⟨x, hx⟩ := hroot l'
          obtain ⟨y, hy⟩ := hroot r'
          have htext := hinj _ List.mem_cons_self _ List.mem_cons_self heq
          rw [hx, hy] at htext
          exact absurd htext (hapart a (List.mem_append_left _ List.mem_cons_self) x y)
  | node l r ihl ihr =>
      cases t' with
      | leaf a' =>
          obtain ⟨x, hx⟩ := hroot l
          obtain ⟨y, hy⟩ := hroot r
          have htext := hinj _ List.mem_cons_self _ List.mem_cons_self heq
          rw [hx, hy] at htext
          exact absurd htext.symm (hapart a' (List.mem_append_right _ List.mem_cons_self) x y)
      | node l' r' =>
          obtain ⟨x, hx⟩ := hroot l
          obtain ⟨y, hy⟩ := hroot r
          obtain ⟨x', hx'⟩ := hroot l'
          obtain ⟨y', hy'⟩ := hroot r'
          have htext := hinj _ List.mem_cons_self _ List.mem_cons_self heq
          rw [hx, hy, hx', hy'] at htext
          obtain ⟨hleft, hright⟩ := hpair _ _ _ _ htext
          have hl : l = l' := by
            refine ihl (fun a ha => hapart a ?_) (fun x hx y hy => ?_) ((hx.trans hleft).trans hx'.symm)
            · rcases List.mem_append.mp ha with ha | ha
              · exact List.mem_append_left _ (List.mem_append_left _ ha)
              · exact List.mem_append_right _ (List.mem_append_left _ ha)
            · exact hinj x (List.mem_cons_of_mem _ (List.mem_append_left _ hx)) y
                (List.mem_cons_of_mem _ (List.mem_append_left _ hy))
          have hr : r = r' := by
            refine ihr (fun a ha => hapart a ?_) (fun x hx y hy => ?_) ((hy.trans hright).trans hy'.symm)
            · rcases List.mem_append.mp ha with ha | ha
              · exact List.mem_append_left _ (List.mem_append_right _ ha)
              · exact List.mem_append_right _ (List.mem_append_right _ ha)
            · exact hinj x (List.mem_cons_of_mem _ (List.mem_append_right _ hx)) y
                (List.mem_cons_of_mem _ (List.mem_append_right _ hy))
          rw [hl, hr]

/-- The texts of the leaves are hashed. -/
theorem leafText_mem_texts {a : α} (h : a ∈ t.leaves) : leafText a ∈ t.texts H leafText pairText := by
  induction t with
  | leaf b =>
      obtain rfl := List.mem_singleton.mp h
      exact List.mem_cons_self
  | node l r ihl ihr =>
      rcases List.mem_append.mp h with h | h
      · exact List.mem_cons_of_mem _ (List.mem_append_left _ (ihl h))
      · exact List.mem_cons_of_mem _ (List.mem_append_right _ (ihr h))

/-! ## The tree of a list -/

/-- The tree of a list of leaves. -/
def ofList (l : List α) : Option (HashTree α) := buildUp node (l.map leaf)

/-- The leaves of the tree of a list: the list with its end repeated. -/
def padded (l : List α) : List α := ((ofList l).map leaves).getD []

theorem perfect_ofList {l : List α} (h : ofList l = some t) : ∃ k, Perfect k t := by
  refine buildUp_of_forall (P := Perfect) (fun _ _ _ => .node) 0 (fun x hx => ?_) h
  obtain ⟨a, -, rfl⟩ := List.mem_map.mp hx
  exact .leaf a

/-- The trees of two lists are the same just when the lists are once they are padded. -/
theorem ofList_eq_iff {l l' : List α} : ofList l = ofList l' ↔ padded l = padded l' := by
  constructor
  · intro h
    unfold padded
    rw [h]
  · intro h
    have hne : ∀ {l : List α} {t : HashTree α}, ofList l = some t → t.leaves ≠ [] := by
      intro l t ht hnil
      obtain ⟨k, hk⟩ := perfect_ofList ht
      have hlength := hk.length_leaves
      rw [hnil] at hlength
      exact (Nat.two_pow_pos k).ne hlength
    unfold padded at h
    rcases ht : ofList l with _ | t
    · rcases ht' : ofList l' with _ | t'
      · rfl
      · rw [ht, ht'] at h
        exact absurd h.symm (hne ht')
    · rcases ht' : ofList l' with _ | t'
      · rw [ht, ht'] at h
        exact absurd h (hne ht)
      · rw [ht, ht'] at h
        obtain ⟨k, hk⟩ := perfect_ofList ht
        obtain ⟨k', hk'⟩ := perfect_ofList ht'
        rw [eq_of_leaves_eq hk hk' h]

/-- A level above shows the leaves of the one below, with some of them repeated at the end. -/
theorem flatMap_leaves_pairUp (ts : List (HashTree α)) :
    ∃ extra, (pairUp node ts).flatMap leaves = ts.flatMap leaves ++ extra ∧
      extra ⊆ ts.flatMap leaves := by
  induction ts using pairUp.induct with
  | case1 => exact ⟨[], rfl, List.nil_subset _⟩
  | case2 t =>
      refine ⟨t.leaves, ?_, ?_⟩
      · simp only [pairUp, List.flatMap_cons, List.flatMap_nil, leaves, List.append_nil]
      · simp only [List.flatMap_cons, List.flatMap_nil, List.append_nil, List.Subset.refl]
  | case3 t t' ts ih =>
      obtain ⟨extra, heq, hsub⟩ := ih
      refine ⟨extra, ?_, fun a ha => ?_⟩
      · simp only [pairUp, List.flatMap_cons, leaves, heq, List.append_assoc]
      · rw [List.flatMap_cons, List.flatMap_cons]
        exact List.mem_append_right _ (List.mem_append_right _ (hsub ha))

/-- Padding repeats leaves at the end. -/
theorem padded_spec (l : List α) : ∃ extra, padded l = l ++ extra ∧ extra ⊆ l := by
  have hbuild : ∀ ts : List (HashTree α), ∃ extra, ((buildUp node ts).map leaves).getD [] =
      ts.flatMap leaves ++ extra ∧ extra ⊆ ts.flatMap leaves := by
    intro ts
    induction ts using buildUp_induction (f := node) with
    | hnil => exact ⟨[], by rw [buildUp_nil]; rfl, List.nil_subset _⟩
    | hone t =>
        refine ⟨[], ?_, List.nil_subset _⟩
        rw [buildUp_singleton]
        simp only [Option.map_some, Option.getD_some, List.flatMap_cons, List.flatMap_nil,
          List.append_nil]
    | hup t t' ts ih =>
        obtain ⟨extra, heq, hsub⟩ := ih
        obtain ⟨extra', heq', hsub'⟩ := flatMap_leaves_pairUp (t :: t' :: ts)
        refine ⟨extra' ++ extra, ?_, fun a ha => ?_⟩
        · rw [buildUp_cons_cons, heq, heq', List.append_assoc]
        · rcases List.mem_append.mp ha with ha | ha
          · exact hsub' ha
          · rcases List.mem_append.mp (heq' ▸ hsub ha) with ha | ha
            · exact ha
            · exact hsub' ha
  obtain ⟨extra, heq, hsub⟩ := hbuild (l.map leaf)
  have hl : (l.map leaf).flatMap leaves = l := by
    rw [List.flatMap_map]
    exact List.flatMap_singleton' l
  rw [hl] at heq hsub
  exact ⟨extra, heq, hsub⟩

/-- The leaves of the tree of a list are the elements of the list. -/
theorem mem_leaves_ofList {l : List α} {a : α} (h : ofList l = some t) : a ∈ t.leaves ↔ a ∈ l := by
  obtain ⟨extra, hpad, hsub⟩ := padded_spec l
  have hleaves : t.leaves = l ++ extra := by
    rw [← hpad]
    unfold padded
    rw [h]
    rfl
  rw [hleaves, List.mem_append]
  exact ⟨fun ha => ha.elim id (@hsub a), Or.inl⟩

/-- Lists without duplicates are told by what they are padded to. -/
theorem padded_inj {l l' : List α} (h : l.Nodup) (h' : l'.Nodup) (heq : padded l = padded l') :
    l = l' := by
  have hcut : ∀ {l l' : List α}, l'.Nodup → padded l = padded l' → l <+: l' → l = l' := by
    rintro l _ hnodup heq ⟨c, rfl⟩
    obtain ⟨extra, hpad, hsub⟩ := padded_spec l
    obtain ⟨extra', hpad', -⟩ := padded_spec (l ++ c)
    have hc : c = [] := by
      rw [List.eq_nil_iff_forall_not_mem]
      intro a ha
      -- a leaf after the end of the shorter list repeats one of its leaves
      have hextra : a ∈ extra := by
        rw [hpad, hpad', List.append_assoc] at heq
        rw [List.append_cancel_left heq]
        exact List.mem_append_left _ ha
      exact (List.nodup_append.mp hnodup).2.2 a (hsub hextra) a ha rfl
    rw [hc, List.append_nil]
  obtain ⟨extra, hpad, -⟩ := padded_spec l
  obtain ⟨extra', hpad', -⟩ := padded_spec l'
  have hl : l <+: padded l := ⟨extra, hpad.symm⟩
  have hl' : l' <+: padded l := ⟨extra', (heq.trans hpad').symm⟩
  rcases List.prefix_or_prefix_of_prefix hl hl' with hpre | hpre
  · exact hcut h' heq hpre
  · exact (hcut h heq.symm hpre).symm

/-- The root hash of a list is the hash of its tree. -/
theorem buildUp_hash (H : τ → η) (leafText : α → τ) (pairText : η → η → τ) (l : List α) :
    buildUp (fun x y => H (pairText x y)) (l.map fun a => H (leafText a)) =
      (ofList l).map (hash H leafText pairText) := by
  unfold ofList
  rw [map_buildUp (g := fun x y => H (pairText x y)) (h := hash H leafText pairText)
    fun _ _ => rfl, List.map_map]
  rfl

end HashTree

end NanoFabric.Found
