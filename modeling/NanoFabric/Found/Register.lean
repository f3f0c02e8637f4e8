import Mathlib.Data.Prod.Lex
import Mathlib.Logic.Function.Basic
import Mathlib.Order.Defs.LinearOrder

/-!
# Registers that keep the greatest key

A register holds at most one message; a message replaces the one held exactly if its key is greater
(`Register.put`). What follows is the algebra that replaying and reordering rest on.

* `Absorbs` — a register absorbs a message if putting it changes nothing, now (`Absorbs.put_eq`) and
  after any further messages (`Absorbs.foldl`); a message that was put is absorbed.
* `foldl_put_of_absorbed` — replaying absorbed messages, in any order, changes nothing.
* `Tops.foldl_cons`, `observe_foldl_congr` — registers that receive the same messages, in any orders
  and with any repetitions, agree on what is observed if the messages with the greatest key do, and
  each of those can be what is left.
* `Registers` — a register for every address, and the same facts for it; `Registers.Grows` is what
  puts do to all of them.
-/

namespace NanoFabric.Found

variable {β κ μ ω : Type} [LinearOrder κ]

namespace Register

/-- The register after it is offered a message: the first message, or the one with the greater
key. -/
def put (key : μ → κ) (s : Option μ) (u : μ) : Option μ :=
  match s with
  | none => some u
  | some w => if key w < key u then some u else some w

/-- The register holds a message whose key is not below that of `u`. -/
def Absorbs (key : μ → κ) (s : Option μ) (u : μ) : Prop := ∃ w, s = some w ∧ key u ≤ key w

variable {key : μ → κ} {s : Option μ} {u v w : μ}

@[simp] theorem put_none : put key none u = some u := rfl

theorem absorbs_some : Absorbs key (some w) u ↔ key u ≤ key w := by
  simp [Absorbs]

theorem not_absorbs_none : ¬ Absorbs key none u := by
  simp [Absorbs]

instance (s : Option μ) (u : μ) : Decidable (Absorbs key s u) :=
  match s with
  | none => .isFalse not_absorbs_none
  | some _ => decidable_of_iff _ absorbs_some.symm

/-- A put either stores the message or leaves the register as it is. -/
theorem put_eq_or (key : μ → κ) (s : Option μ) (u : μ) :
    put key s u = some u ∨ (put key s u = s ∧ Absorbs key s u) := by
  cases s with
  | none => exact .inl rfl
  | some w =>
      rcases lt_or_ge (key w) (key u) with h | h
      · exact .inl (if_pos h)
      · exact .inr ⟨if_neg (not_lt.mpr h), absorbs_some.mpr h⟩

theorem Absorbs.put_eq (h : Absorbs key s u) : put key s u = s := by
  obtain ⟨w, rfl, hle⟩ := h
  exact if_neg (not_lt.mpr hle)

theorem absorbs_put (key : μ → κ) (s : Option μ) (u : μ) : Absorbs key (put key s u) u := by
  rcases put_eq_or key s u with h | ⟨h, habs⟩
  · exact h ▸ absorbs_some.mpr le_rfl
  · exact h.symm ▸ habs

theorem Absorbs.of_le (h : Absorbs key s v) (hle : key u ≤ key v) : Absorbs key s u := by
  obtain ⟨w, rfl, hw⟩ := h
  exact absorbs_some.mpr (hle.trans hw)

/-- What a register absorbs it still absorbs after a put. -/
theorem Absorbs.put (h : Absorbs key s u) (v : μ) : Absorbs key (Register.put key s v) u := by
  rcases put_eq_or key s v with hput | ⟨hput, -⟩
  · obtain ⟨w, rfl, hle⟩ := h
    rw [hput]
    by_cases hv : key w < key v
    · exact absorbs_some.mpr (hle.trans hv.le)
    · have : w = v := Option.some.inj ((if_neg hv).symm.trans hput)
      exact absorbs_some.mpr (this ▸ hle)
  · exact hput.symm ▸ h

/-! ## Sequences of puts -/

theorem Absorbs.foldl (h : Absorbs key s u) (L : List μ) :
    Absorbs key (L.foldl (Register.put key) s) u := by
  induction L generalizing s with
  | nil => exact h
  | cons v L ih => exact ih (h.put v)

theorem absorbs_foldl {L : List μ} (hu : u ∈ L) : Absorbs key (L.foldl (put key) s) u := by
  induction L generalizing s with
  | nil => cases hu
  | cons v L ih =>
      rcases List.mem_cons.mp hu with rfl | hu
      · exact Absorbs.foldl (absorbs_put key s _) L
      · exact ih hu

/-- Replaying absorbed messages changes nothing. -/
theorem foldl_put_of_absorbed {L : List μ} (h : ∀ u ∈ L, Absorbs key s u) :
    L.foldl (put key) s = s := by
  induction L with
  | nil => rfl
  | cons v L ih =>
      rw [List.foldl_cons, (h v List.mem_cons_self).put_eq]
      exact ih fun u hu => h u (List.mem_cons_of_mem _ hu)

/-- What the register holds was there or was put. -/
theorem foldl_put_mem {L : List μ} (h : L.foldl (put key) s = some w) : s = some w ∨ w ∈ L := by
  induction L generalizing s with
  | nil => exact .inl h
  | cons v L ih =>
      rcases ih h with hv | hv
      · rcases put_eq_or key s v with hput | ⟨hput, -⟩
        · exact .inr (List.mem_cons.mpr (.inl (Option.some.inj (hv.symm.trans hput))))
        · exact .inl (hput.symm.trans hv)
      · exact .inr (List.mem_cons_of_mem _ hv)

/-! ## The same messages in other orders -/

/-- `w` is one of the messages with the greatest key. -/
def Tops (key : μ → κ) (L : List μ) (w : μ) : Prop := w ∈ L ∧ ∀ u ∈ L, key u ≤ key w

/-- An empty register ends with a message of the greatest key. -/
theorem tops_of_foldl {L : List μ} (h : L.foldl (put key) none = some w) : Tops key L w := by
  refine ⟨(foldl_put_mem h).resolve_left (by simp), fun u hu => ?_⟩
  exact absorbs_some.mp (h ▸ absorbs_foldl hu)

theorem foldl_put_eq_none {L : List μ} (h : L.foldl (put key) none = none) : L = [] := by
  cases L with
  | nil => rfl
  | cons u L =>
      exact absurd (h ▸ absorbs_foldl (s := none) (List.mem_cons_self (a := u) (l := L)))
        not_absorbs_none

/-- A message of the greatest key that comes first stays. -/
theorem Tops.foldl_cons {L : List μ} (h : Tops key L w) :
    (w :: L).foldl (put key) none = some w :=
  foldl_put_of_absorbed fun u hu => absorbs_some.mpr (h.2 u hu)

theorem Tops.congr {L M : List μ} (hLM : ∀ u, u ∈ L ↔ u ∈ M) (h : Tops key L w) : Tops key M w :=
  ⟨(hLM w).mp h.1, fun u hu => h.2 u ((hLM u).mpr hu)⟩

/-- If `observe` shows the same of all messages with the greatest key, then registers that receive
the same messages, in any orders and with any repetitions, show the same. -/
theorem observe_foldl_congr {observe : μ → ω} {L L₁ L₂ : List μ}
    (h : ∀ u v, Tops key L u → Tops key L v → observe u = observe v)
    (h₁ : ∀ u, u ∈ L₁ ↔ u ∈ L) (h₂ : ∀ u, u ∈ L₂ ↔ u ∈ L) :
    (L₁.foldl (put key) none).map observe = (L₂.foldl (put key) none).map observe := by
  rcases hw₁ : L₁.foldl (put key) none with _ | w₁
  · have hnil : L₂ = [] := by
      refine List.eq_nil_iff_forall_not_mem.mpr fun u hu => ?_
      have hu' := (h₁ u).mpr ((h₂ u).mp hu)
      rw [foldl_put_eq_none hw₁] at hu'
      cases hu'
    rw [hnil]
    rfl
  · rcases hw₂ : L₂.foldl (put key) none with _ | w₂
    · have hmem := (h₂ w₁).mpr ((h₁ w₁).mp (tops_of_foldl hw₁).1)
      rw [foldl_put_eq_none hw₂] at hmem
      cases hmem
    · exact congrArg some
        (h w₁ w₂ ((tops_of_foldl hw₁).congr h₁) ((tops_of_foldl hw₂).congr h₂))

/-- A loop that keeps the newest message seen is a loop of puts. -/
theorem foldl_put_some {newer : μ → μ → Prop} [DecidableRel newer]
    (h : ∀ u w, newer u w ↔ key w < key u) (L : List μ) (w : μ) :
    L.foldl (put key) (some w) = some (L.foldl (fun w u => if newer u w then u else w) w) := by
  induction L generalizing w with
  | nil => rfl
  | cons u L ih =>
      rw [List.foldl_cons, List.foldl_cons, ← ih, put]
      congr 1
      simp only [h]
      split <;> rfl

/-- Putting images is the image of putting. -/
theorem foldl_put_map (f : ω → μ) (L : List ω) (s : Option ω) :
    (L.map f).foldl (put key) (s.map f) = (L.foldl (put fun x => key (f x)) s).map f := by
  induction L generalizing s with
  | nil => rfl
  | cons x L ih =>
      rw [List.map_cons, List.foldl_cons, List.foldl_cons, ← ih]
      congr 1
      cases s with
      | none => rfl
      | some w =>
          simp only [put, Option.map_some]
          split <;> rfl

end Register

/-! ## A register for every address -/

namespace Registers

open Register (Absorbs)

variable [DecidableEq β]

/-- Offers the message `u` to the register at `b`. -/
def put (key : μ → κ) (s : β → Option μ) (b : β) (u : μ) : β → Option μ :=
  Function.update s b (Register.put key (s b) u)

variable {key : μ → κ} {s : β → Option μ} {b c : β} {u v : μ}

@[simp] theorem put_same : put key s b u b = Register.put key (s b) u :=
  Function.update_self ..

theorem put_of_ne (h : c ≠ b) : put key s b u c = s c :=
  Function.update_of_ne h ..

/-- What a register holds after a put it held before, or it is what was put. -/
theorem put_eq_some {w : μ} (h : put key s b u c = some w) : s c = some w ∨ (c = b ∧ w = u) := by
  by_cases hc : c = b
  · subst hc
    rw [put_same] at h
    rcases Register.put_eq_or key (s c) u with hput | ⟨hput, -⟩
    · exact .inr ⟨rfl, Option.some.inj (h.symm.trans hput)⟩
    · exact .inl (hput.symm.trans h)
  · exact .inl ((put_of_ne hc).symm.trans h)

theorem put_eq_of_absorbs (h : Absorbs key (s b) u) : put key s b u = s := by
  unfold put
  rw [h.put_eq, Function.update_eq_self]

theorem absorbs_put (h : Absorbs key (s c) v) : Absorbs key (put key s b u c) v := by
  by_cases hcb : c = b
  · subst hcb
    rw [put_same]
    exact h.put u
  · rwa [put_of_ne hcb]

/-- What a sequence of addressed messages leaves at `b` is what those for `b` leave there. -/
theorem foldl_put_apply (addr : ω → β) (msg : ω → μ) (L : List ω) (s : β → Option μ) (b : β) :
    L.foldl (fun s m => put key s (addr m) (msg m)) s b =
      ((L.filter fun m => addr m = b).map msg).foldl (Register.put key) (s b) := by
  induction L generalizing s with
  | nil => rfl
  | cons m L ih =>
      rw [List.foldl_cons, ih]
      by_cases hm : addr m = b
      · simp [hm]
      · simp [hm, put_of_ne (Ne.symm hm)]

/-- Every message is kept, or has given way to one with a greater key. -/
def Grows (key : μ → κ) (s s' : β → Option μ) : Prop :=
  ∀ b w, s b = some w → ∃ w', s' b = some w' ∧ (w' = w ∨ key w < key w')

omit [DecidableEq β] in
theorem Grows.refl (key : μ → κ) (s : β → Option μ) : Grows key s s :=
  fun _ w hw => ⟨w, hw, .inl rfl⟩

omit [DecidableEq β] in
theorem Grows.trans {s₁ s₂ s₃ : β → Option μ} (h : Grows key s₁ s₂) (h' : Grows key s₂ s₃) :
    Grows key s₁ s₃ := by
  intro b w hw
  obtain ⟨w', hw', hle⟩ := h b w hw
  obtain ⟨w'', hw'', hle'⟩ := h' b w' hw'
  refine ⟨w'', hw'', ?_⟩
  rcases hle with rfl | hlt
  · exact hle'
  · rcases hle' with rfl | hlt'
    · exact .inr hlt
    · exact .inr (hlt.trans hlt')

theorem grows_put (key : μ → κ) (s : β → Option μ) (b : β) (u : μ) :
    Grows key s (put key s b u) := by
  intro c w hw
  by_cases hc : c = b
  · subst hc
    rw [put_same, hw]
    by_cases hlt : key w < key u
    · exact ⟨u, if_pos hlt, .inr hlt⟩
    · exact ⟨w, if_neg hlt, .inl rfl⟩
  · exact ⟨w, (put_of_ne hc).trans hw, .inl rfl⟩

end Registers

end NanoFabric.Found
