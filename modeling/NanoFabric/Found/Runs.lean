import Mathlib.Data.Nat.Notation
import Mathlib.Data.Option.Basic
import Mathlib.Data.Option.Defs

/-!
# Runs under a condition

A machine is a partial step function. `runWhile` is a run all of whose steps can happen and meet a
condition on the state before them, and `Reaches` relates the two ends of such a run;
`runWhile_induction` and `Reaches.induction` are their invariant rules. `throughout_iff_stepsMeet`,
`stepsMeet_iff_of_run` and `eachStep_iff_stepsMeet` move a condition on steps to the states of a run,
to the last of them and to its steps, and `Ends` says where a machine comes to on a stream of events.
Two machines that simulate each other show the same (`outputs_congr`).
-/

namespace NanoFabric.Found

variable {σ ε : Type}

/-- The state that a run reaches when every step can happen and meets `C`. -/
def runWhile (step : σ → ε → Option σ) (C : σ → ε → Bool) (s : σ) : List ε → Option σ
  | [] => some s
  | ev :: evs => if C s ev then (step s ev).bind fun s' => runWhile step C s' evs else none

/-- The state that a run reaches when every step can happen. -/
def run (step : σ → ε → Option σ) (s : σ) (evs : List ε) : Option σ :=
  runWhile step (fun _ _ => true) s evs

variable {step : σ → ε → Option σ} {C : σ → ε → Bool} {s s' : σ} {ev : ε} {evs : List ε}

theorem runWhile_cons : runWhile step C s (ev :: evs) = some s' ↔
    C s ev = true ∧ ∃ s₁, step s ev = some s₁ ∧ runWhile step C s₁ evs = some s' := by
  simp only [runWhile, Option.ite_none_right_eq_some, Option.bind_eq_some_iff]

/-- A run of one list of events after another. -/
theorem run_append {evs' : List ε} :
    run step s (evs ++ evs') = (run step s evs).bind fun s' => run step s' evs' := by
  unfold run
  induction evs generalizing s with
  | nil => rfl
  | cons ev evs ih =>
      simp only [List.cons_append, runWhile, if_true, Option.bind_assoc, ih]

/-- What holds at the start and is kept by every step that meets the condition holds at the end. -/
theorem runWhile_induction {I : σ → Prop}
    (hstep : ∀ s ev s', I s → C s ev = true → step s ev = some s' → I s') (hs : I s)
    (h : runWhile step C s evs = some s') : I s' := by
  induction evs generalizing s with
  | nil => exact Option.some.inj h ▸ hs
  | cons ev evs ih =>
      obtain ⟨hC, s₁, hs₁, h⟩ := runWhile_cons.mp h
      exact ih (hstep s ev s₁ hs hC hs₁) h

/-- `t` is reached from `s` by a run all of whose steps can happen and meet `C`, where the condition
need not be decided. -/
inductive Reaches (step : σ → ε → Option σ) (C : σ → ε → Prop) : σ → List ε → σ → Prop
  | nil (s : σ) : Reaches step C s [] s
  | cons {s s' t : σ} {ev : ε} {evs : List ε} (hC : C s ev) (hstep : step s ev = some s')
      (htail : Reaches step C s' evs t) : Reaches step C s (ev :: evs) t

/-- What holds at the start and is kept by every step that meets the condition holds at the end. -/
theorem Reaches.induction {C : σ → ε → Prop} {I : σ → Prop}
    (hstep : ∀ s ev s', I s → C s ev → step s ev = some s' → I s') (h : Reaches step C s evs s')
    (hs : I s) : I s' := by
  induction h with
  | nil => exact hs
  | cons hC hev htail ih => exact ih (hstep _ _ _ hs hC hev)

/-- A run of steps that meet the condition in every state. -/
theorem Reaches.of_run {C : σ → ε → Prop} (hC : ∀ s, ∀ ev ∈ evs, C s ev)
    (h : run step s evs = some s') : Reaches step C s evs s' := by
  induction evs generalizing s with
  | nil => exact Option.some.inj h ▸ .nil s
  | cons ev evs ih =>
      obtain ⟨-, s₁, hs₁, h⟩ := runWhile_cons.mp h
      exact .cons (hC s ev List.mem_cons_self) hs₁
        (ih (fun s ev' hev' => hC s ev' (List.mem_cons_of_mem ev hev')) h)

/-- A run whose condition has been decided. -/
theorem Reaches.of_runWhile {C : σ → ε → Prop} [∀ s ev, Decidable (C s ev)]
    (h : runWhile step (fun s ev => C s ev) s evs = some s') : Reaches step C s evs s' := by
  induction evs generalizing s with
  | nil => exact Option.some.inj h ▸ .nil s
  | cons ev evs ih =>
      obtain ⟨hC, s₁, hs₁, h⟩ := runWhile_cons.mp h
      exact .cons (of_decide_eq_true hC) hs₁ (ih h)

theorem Reaches.run_eq {C : σ → ε → Prop} (h : Reaches step C s evs s') :
    run step s evs = some s' := by
  induction h with
  | nil => rfl
  | cons hC hstep htail ih => exact runWhile_cons.mpr ⟨rfl, _, hstep, ih⟩

/-! ## Properties of all states of a run -/

/-- `P` holds in every state that the run visits. -/
def Throughout (step : σ → ε → Option σ) (P : σ → Prop) (s : σ) : List ε → Prop
  | [] => P s
  | ev :: evs => P s ∧ ∀ s', step s ev = some s' → Throughout step P s' evs

/-- Every step that the run takes meets `C`. -/
def StepsMeet (step : σ → ε → Option σ) (C : σ → ε → Prop) (s : σ) : List ε → Prop
  | [] => True
  | ev :: evs => ∀ s', step s ev = some s' → C s ev ∧ StepsMeet step C s' evs

/-- What holds throughout a run holds where it starts. -/
theorem Throughout.start {P : σ → Prop} (h : Throughout step P s evs) : P s := by
  cases evs with
  | nil => exact h
  | cons ev evs => exact h.1

/-- What holds throughout a run holds where it ends. -/
theorem Throughout.of_run {P : σ → Prop} (h : Throughout step P s evs)
    (hrun : run step s evs = some s') : P s' := by
  induction evs generalizing s with
  | nil => exact Option.some.inj hrun ▸ h
  | cons ev evs ih =>
      obtain ⟨-, s₁, hs₁, hrun⟩ := runWhile_cons.mp hrun
      exact ih (h.2 s₁ hs₁) hrun

theorem Throughout.mono {P Q : σ → Prop} (hPQ : ∀ s, P s → Q s) (h : Throughout step P s evs) :
    Throughout step Q s evs := by
  induction evs generalizing s with
  | nil => exact hPQ s h
  | cons ev evs ih => exact ⟨hPQ s h.1, fun s' hs' => ih (h.2 s' hs')⟩

/-- The steps of a run under a condition meet it. -/
theorem stepsMeet_of_runWhile {C : σ → ε → Prop} [∀ s ev, Decidable (C s ev)]
    (h : runWhile step (fun s ev => C s ev) s evs = some s') : StepsMeet step C s evs := by
  induction evs generalizing s with
  | nil => trivial
  | cons ev evs ih =>
      obtain ⟨hC, s₁, hs₁, h⟩ := runWhile_cons.mp h
      intro s₂ hs₂
      obtain rfl : s₁ = s₂ := Option.some.inj (hs₁.symm.trans hs₂)
      exact ⟨of_decide_eq_true hC, ih h⟩

/-- What holds at the start and is kept by every step holds throughout. -/
theorem throughout_of_invariant {I : σ → Prop} (hstep : ∀ s ev s', I s → step s ev = some s' → I s')
    (hs : I s) : Throughout step I s evs := by
  induction evs generalizing s with
  | nil => exact hs
  | cons ev evs ih => exact ⟨hs, fun s' hs' => ih (hstep s ev s' hs hs')⟩

/-- The steps of a run meet what an invariant gives. -/
theorem stepsMeet_of_invariant {C : σ → ε → Prop} {I : σ → Prop} (hC : ∀ s ev, I s → C s ev)
    (hstep : ∀ s ev s', I s → step s ev = some s' → I s') (hs : I s) : StepsMeet step C s evs := by
  induction evs generalizing s with
  | nil => trivial
  | cons ev evs ih => exact fun s' hs' => ⟨hC s ev hs, ih (hstep s ev s' hs hs')⟩

/-- A property holds throughout a run whose steps meet a condition, if an invariant that gives the
property is kept by the steps that meet it. -/
theorem StepsMeet.throughout {C : σ → ε → Prop} {P I : σ → Prop} (hP : ∀ s, I s → P s)
    (hgood : ∀ s ev s', I s → C s ev → step s ev = some s' → I s') (hs : I s)
    (h : StepsMeet step C s evs) : Throughout step P s evs := by
  induction evs generalizing s with
  | nil => exact hP s hs
  | cons ev evs ih =>
      refine ⟨hP s hs, fun s' hstep => ?_⟩
      obtain ⟨hC, hrest⟩ := h s' hstep
      exact ih (hgood s ev s' hs hC hstep) hrest

/-- The steps of a run meet a condition if a property holds throughout that every other step breaks,
among the steps that meet `D`. -/
theorem Throughout.stepsMeet {C D : σ → ε → Prop} {P I : σ → Prop}
    (hgood : ∀ s ev s', I s → C s ev → step s ev = some s' → I s')
    (hbad : ∀ s ev s', I s → D s ev → ¬ C s ev → step s ev = some s' → ¬ P s') (hs : I s)
    (hD : StepsMeet step D s evs) (h : Throughout step P s evs) : StepsMeet step C s evs := by
  induction evs generalizing s with
  | nil => trivial
  | cons ev evs ih =>
      intro s' hstep
      obtain ⟨hDev, hDrest⟩ := hD s' hstep
      have hrest := h.2 s' hstep
      have hC : C s ev := by
        by_contra hC
        exact hbad s ev s' hs hDev hC hstep hrest.start
      exact ⟨hC, ih (hgood s ev s' hs hC hstep) hDrest hrest⟩

/-- A property holds throughout a run just when its steps meet a condition, if an invariant that
gives the property is kept by the steps that meet it, and any other step breaks the property. -/
theorem throughout_iff_stepsMeet {C : σ → ε → Prop} {P I : σ → Prop} (hP : ∀ s, I s → P s)
    (hgood : ∀ s ev s', I s → C s ev → step s ev = some s' → I s')
    (hbad : ∀ s ev s', I s → ¬ C s ev → step s ev = some s' → ¬ P s') (hs : I s) :
    Throughout step P s evs ↔ StepsMeet step C s evs := by
  refine ⟨fun h => ?_, fun h => h.throughout hP hgood hs⟩
  have hall : StepsMeet step (fun _ _ => True) s evs :=
    stepsMeet_of_invariant (I := fun _ => True) (fun _ _ _ => trivial) (fun _ _ _ _ _ => trivial)
      trivial
  exact h.stepsMeet hgood (fun s ev s' hI _ => hbad s ev s' hI) hs hall

/-- Where a run ends, a property that only a step that misses a condition brings about, and that stays
from then on, fails just when the steps of the run meet the condition. -/
theorem stepsMeet_iff_of_run {C : σ → ε → Prop} {P I : σ → Prop} (hP : ∀ s, I s → ¬ P s)
    (hgood : ∀ s ev s', I s → C s ev → step s ev = some s' → I s')
    (hbad : ∀ s ev s', I s → ¬ C s ev → step s ev = some s' → P s')
    (hstays : ∀ s ev s', P s → step s ev = some s' → P s') (hs : I s)
    (hrun : run step s evs = some s') : StepsMeet step C s evs ↔ ¬ P s' := by
  induction evs generalizing s with
  | nil => exact ⟨fun _ => Option.some.inj hrun ▸ hP s hs, fun _ => trivial⟩
  | cons ev evs ih =>
      obtain ⟨-, s₁, hs₁, hrun⟩ := runWhile_cons.mp hrun
      by_cases hC : C s ev
      · rw [← ih (hgood s ev s₁ hs hC hs₁) hrun]
        refine ⟨fun h => (h s₁ hs₁).2, fun h s₂ hs₂ => ?_⟩
        obtain rfl : s₁ = s₂ := Option.some.inj (hs₁.symm.trans hs₂)
        exact ⟨hC, h⟩
      · refine ⟨fun h => absurd (h s₁ hs₁).1 hC, fun h => absurd ?_ h⟩
        exact runWhile_induction (fun s ev s' hPs _ hstep => hstays s ev s' hPs hstep)
          (hbad s ev s₁ hs hC hs₁) hrun

/-! ## Properties of all steps of a run -/

/-- `R` relates the two ends of every step that the run takes. -/
def EachStep (step : σ → ε → Option σ) (R : σ → σ → Prop) (s : σ) : List ε → Prop
  | [] => True
  | ev :: evs => ∀ s', step s ev = some s' → R s s' ∧ EachStep step R s' evs

/-- The steps of a run are as wanted just when they meet a condition, if one step is just when it
does. -/
theorem eachStep_iff_stepsMeet {C : σ → ε → Prop} {R : σ → σ → Prop}
    (h : ∀ s ev s', step s ev = some s' → (R s s' ↔ C s ev)) :
    EachStep step R s evs ↔ StepsMeet step C s evs := by
  induction evs generalizing s with
  | nil => exact Iff.rfl
  | cons ev evs ih =>
      apply forall_congr'
      intro s'
      apply imp_congr_right
      intro hstep
      exact and_congr (h s ev s' hstep) ih

/-- The steps of a run are as wanted just when they meet a condition, if one step is just when it
does as long as an invariant holds that the steps that meet it keep. -/
theorem eachStep_iff_stepsMeet_of_invariant {C : σ → ε → Prop} {R : σ → σ → Prop} {I : σ → Prop}
    (hgood : ∀ s ev s', I s → C s ev → step s ev = some s' → I s' ∧ R s s')
    (hbad : ∀ s ev s', I s → ¬ C s ev → step s ev = some s' → ¬ R s s') (hs : I s) :
    EachStep step R s evs ↔ StepsMeet step C s evs := by
  induction evs generalizing s with
  | nil => exact Iff.rfl
  | cons ev evs ih =>
      apply forall_congr'
      intro s'
      apply imp_congr_right
      intro hstep
      by_cases hC : C s ev
      · obtain ⟨hI, hR⟩ := hgood s ev s' hs hC hstep
        exact and_congr (iff_of_true hR hC) (ih hI)
      · have hR := hbad s ev s' hs hC hstep
        exact iff_of_false (fun h => hR h.1) fun h => hC h.1

/-- The steps of a run are as wanted if they meet a condition that is enough for one. -/
theorem StepsMeet.eachStep {C : σ → ε → Prop} {R : σ → σ → Prop}
    (h : ∀ s ev s', C s ev → step s ev = some s' → R s s') (hmeet : StepsMeet step C s evs) :
    EachStep step R s evs := by
  induction evs generalizing s with
  | nil => trivial
  | cons ev evs ih =>
      intro s' hs'
      obtain ⟨hC, hrest⟩ := hmeet s' hs'
      exact ⟨h s ev s' hC hs', ih hrest⟩

/-- A step of a run is as wanted if each is. -/
theorem EachStep.of_run {R : σ → σ → Prop} (h : EachStep step R s (evs ++ [ev])) {s₁ s₂ : σ}
    (hrun : run step s evs = some s₁) (hstep : step s₁ ev = some s₂) : R s₁ s₂ := by
  induction evs generalizing s with
  | nil =>
      obtain rfl := Option.some.inj hrun
      exact (h s₂ hstep).1
  | cons ev' evs ih =>
      obtain ⟨-, s', hs', hrun⟩ := runWhile_cons.mp hrun
      exact ih (h s' hs').2 hrun

/-- What the steps of a run are, their sequence is. -/
theorem EachStep.run {R : σ → σ → Prop} (hrefl : ∀ s, R s s)
    (htrans : ∀ s₁ s₂ s₃, R s₁ s₂ → R s₂ s₃ → R s₁ s₃) (heach : EachStep step R s evs)
    (h : run step s evs = some s') : R s s' := by
  induction evs generalizing s with
  | nil => exact Option.some.inj h ▸ hrefl s
  | cons ev evs ih =>
      obtain ⟨-, s₁, hs₁, h⟩ := runWhile_cons.mp h
      obtain ⟨hfirst, hrest⟩ := heach s₁ hs₁
      exact htrans _ _ _ hfirst (ih hrest h)

/-! ## Runs on a stream of events -/

/-- On a stream of events the machine comes to a state that meets `P`. -/
def Ends (step : σ → ε → Option σ) (P : σ → Prop) (s : σ) (evs : ℕ → ε) : Prop :=
  ∃ k s', run step s ((List.range k).map evs) = some s' ∧ P s'

theorem Ends.now {P : σ → Prop} {evs : ℕ → ε} (h : P s) : Ends step P s evs := ⟨0, s, rfl, h⟩

theorem Ends.next {P : σ → Prop} {evs : ℕ → ε} (hstep : step s (evs 0) = some s')
    (h : Ends step P s' fun i => evs (i + 1)) : Ends step P s evs := by
  obtain ⟨k, t, hrun, ht⟩ := h
  refine ⟨k + 1, t, ?_, ht⟩
  rw [List.range_succ_eq_map, List.map_cons, List.map_map]
  exact runWhile_cons.mpr ⟨rfl, s', hstep, hrun⟩

theorem Ends.mono {P Q : σ → Prop} {evs : ℕ → ε} (hPQ : ∀ s, P s → Q s) (h : Ends step P s evs) :
    Ends step Q s evs := by
  obtain ⟨k, t, hrun, ht⟩ := h
  exact ⟨k, t, hrun, hPQ t ht⟩

/-! ## What a run shows -/

/-- What the events of a run show, up to the first that cannot happen. -/
def outputs {ω : Type} (step : σ → ε → Option σ) (out : σ → ε → List ω) (s : σ) :
    List ε → List ω
  | [] => []
  | ev :: evs => out s ev ++
      match step s ev with
      | some s' => outputs step out s' evs
      | none => []

/-- Machines whose steps keep a relation, and that show the same in related states, show the same. -/
theorem outputs_congr {τ ω : Type} {step' : τ → ε → Option τ} {out : σ → ε → List ω}
    {out' : τ → ε → List ω} {R : σ → τ → Prop} (hout : ∀ s t ev, R s t → out s ev = out' t ev)
    (hstep : ∀ s t ev, R s t → Option.Rel R (step s ev) (step' t ev)) {t : τ} (h : R s t) :
    outputs step out s evs = outputs step' out' t evs := by
  induction evs generalizing s t with
  | nil => rfl
  | cons ev evs ih =>
      unfold outputs
      rw [hout s t ev h]
      have hrel := hstep s t ev h
      generalize step s ev = next at hrel
      generalize step' t ev = next' at hrel
      cases hrel with
      | none => rfl
      | some hR => exact congrArg _ (ih hR)

end NanoFabric.Found
