import Mathlib.Data.List.Infix

/-!
# Runs of a guarded step function

A system is a function `step : σ → α → Option σ`: `step s a = none` says that the action `a` is
not enabled in `s`. Interleavings of several parties are the lists of actions.

* `run` executes a list of actions
* `EachStep` states a property of every transition a run makes
* `EachState` states a property of every state a run passes
* `run_inv_of_eachStep`, `run_inv_of_remaining`, `eachStep_of_inv` and `eachState_of_inv` are the
  invariant rules
* `eachStep_iff` and `eachState_iff` exchange a property of the transitions, or of the states, for a
  condition on the states before the steps; `eachState_iff_of_step` does so from one equivalence
  about a step
* `countSteps` counts the transitions of a run that have a property
-/

namespace Lib

variable {σ α : Type*} {step : σ → α → Option σ}

/-- Executes the actions from left to right; `none` when one of them is not enabled. -/
def run (step : σ → α → Option σ) : σ → List α → Option σ
  | s, [] => some s
  | s, a :: as => (step s a).bind fun s' => run step s' as

@[simp] theorem run_nil (s : σ) : run step s [] = some s := rfl

theorem run_cons (s : σ) (a : α) (as : List α) :
    run step s (a :: as) = (step s a).bind fun s' => run step s' as := rfl

theorem run_cons_eq_some {s s'' : σ} {a : α} {as : List α} :
    run step s (a :: as) = some s'' ↔ ∃ s', step s a = some s' ∧ run step s' as = some s'' := by
  rw [run_cons, Option.bind_eq_some_iff]

theorem run_append (s : σ) (as bs : List α) :
    run step s (as ++ bs) = (run step s as).bind fun s' => run step s' bs := by
  induction as generalizing s with
  | nil => rfl
  | cons a as ih =>
    rw [List.cons_append, run_cons, run_cons]
    cases step s a with
    | none => rfl
    | some s' => exact ih s'

/-! ## Properties of every transition -/

/--
`Q` holds of every transition that the run of `as` from `s` makes. Nothing is said about the
actions after one that is not enabled.
-/
def EachStep (step : σ → α → Option σ) (Q : σ → α → σ → Prop) : σ → List α → Prop
  | _, [] => True
  | s, a :: as => ∀ s', step s a = some s' → Q s a s' ∧ EachStep step Q s' as

@[simp] theorem eachStep_nil (Q : σ → α → σ → Prop) (s : σ) : EachStep step Q s [] := trivial

theorem eachStep_cons_iff {Q : σ → α → σ → Prop} {s s' : σ} {a : α} {as : List α}
    (hs : step s a = some s') :
    EachStep step Q s (a :: as) ↔ Q s a s' ∧ EachStep step Q s' as := by
  constructor
  · exact fun h => h s' hs
  · intro h s'' hs''
    cases hs.symm.trans hs''
    exact h

/-- Whether a property holds of every transition of a run is decided by executing the run. -/
instance EachStep.decidable {Q : σ → α → σ → Prop} [∀ s a s', Decidable (Q s a s')] :
    ∀ (s : σ) (as : List α), Decidable (EachStep step Q s as)
  | _, [] => isTrue trivial
  | s, a :: as =>
    match h : step s a with
    | none => isTrue fun s' hs' => by rw [h] at hs'; cases hs'
    | some s' =>
      have := EachStep.decidable (Q := Q) s' as
      decidable_of_iff (Q s a s' ∧ EachStep step Q s' as)
        ⟨fun hq s'' hs'' => by rw [h] at hs''; cases hs''; exact hq, fun hq => hq s' h⟩

/-! ## Counting transitions -/

/--
How many transitions of the run of `as` from `s` have the property. Nothing is counted from an
action on that is not enabled.
-/
def countSteps (step : σ → α → Option σ) (Q : σ → σ → Prop) [∀ s s', Decidable (Q s s')] :
    σ → List α → Nat
  | _, [] => 0
  | s, a :: as =>
    match step s a with
    | none => 0
    | some s' => (if Q s s' then 1 else 0) + countSteps step Q s' as

section Count

variable {Q : σ → σ → Prop} [∀ s s', Decidable (Q s s')] {s s' : σ} {a : α} {as : List α}

theorem countSteps_cons_of_pos (hs : step s a = some s') (hQ : Q s s') :
    countSteps step Q s (a :: as) = countSteps step Q s' as + 1 := by
  simp [countSteps, hs, hQ, Nat.add_comm]

theorem countSteps_cons_of_neg (hs : step s a = some s') (hQ : ¬Q s s') :
    countSteps step Q s (a :: as) = countSteps step Q s' as := by
  simp [countSteps, hs, hQ]

end Count

/-! ## Invariants -/

/-- **What every step keeps, every run keeps, as long as its steps meet the condition.** -/
theorem run_inv_of_eachStep {I : σ → Prop} {C : σ → α → Prop}
    (hstep : ∀ s a s', I s → C s a → step s a = some s' → I s') {s s' : σ} {as : List α}
    (h₀ : I s) (hC : EachStep step (fun s a _ => C s a) s as) (hrun : run step s as = some s') :
    I s' := by
  induction as generalizing s with
  | nil => cases hrun; exact h₀
  | cons a as ih =>
    obtain ⟨s₁, hs₁, hrest⟩ := run_cons_eq_some.mp hrun
    obtain ⟨hc, hC'⟩ := hC s₁ hs₁
    exact ih (hstep s a s₁ h₀ hc hs₁) hC' hrest

/-- **What every step keeps holds at the end.** It may speak about the actions that are to come. -/
theorem run_inv_of_remaining {I : σ → List α → Prop}
    (hstep : ∀ s a s' as, I s (a :: as) → step s a = some s' → I s' as) {s s' : σ} {as : List α}
    (h₀ : I s as) (hrun : run step s as = some s') : I s' [] := by
  induction as generalizing s with
  | nil => cases hrun; exact h₀
  | cons a as ih =>
    obtain ⟨s₁, hs₁, hrest⟩ := run_cons_eq_some.mp hrun
    exact ih (hstep s a s₁ as h₀ hs₁) hrest

/-- **An invariant under which every step has the property gives it to every transition.** -/
theorem eachStep_of_inv {I : σ → Prop} {Q : σ → α → σ → Prop}
    (hstep : ∀ s a s', I s → step s a = some s' → Q s a s' ∧ I s') {s : σ} {as : List α}
    (h₀ : I s) : EachStep step Q s as := by
  induction as generalizing s with
  | nil => trivial
  | cons a as ih =>
    intro s' hs'
    obtain ⟨hq, hi⟩ := hstep s a s' h₀ hs'
    exact ⟨hq, ih hi⟩

/--
An invariant that the condition `C` preserves, and that makes `C` necessary for `Q`, turns the
property `Q` of the transitions into the condition `C` on the states before them. The invariant
may speak about the actions that are still to come.
-/
theorem eachStep_iff {I : σ → List α → Prop} {Q : σ → α → σ → Prop} {C : σ → α → Prop}
    (hpos : ∀ s a s' as, I s (a :: as) → step s a = some s' → C s a → Q s a s' ∧ I s' as)
    (hneg : ∀ s a s' as, I s (a :: as) → step s a = some s' → Q s a s' → C s a) {s : σ}
    {as : List α} (h₀ : I s as) :
    EachStep step Q s as ↔ EachStep step (fun s a _ => C s a) s as := by
  induction as generalizing s with
  | nil => simp
  | cons a as ih =>
    constructor
    · intro h s' hs'
      obtain ⟨hq, hrest⟩ := h s' hs'
      have hc := hneg s a s' as h₀ hs' hq
      exact ⟨hc, (ih (hpos s a s' as h₀ hs' hc).2).mp hrest⟩
    · intro h s' hs'
      obtain ⟨hc, hrest⟩ := h s' hs'
      obtain ⟨hq, hi⟩ := hpos s a s' as h₀ hs' hc
      exact ⟨hq, (ih hi).mpr hrest⟩

/-- `P` holds in every state that the run of `as` from `s` passes, the first one included. -/
def EachState (step : σ → α → Option σ) (P : σ → Prop) (s : σ) (as : List α) : Prop :=
  P s ∧ EachStep step (fun _ _ s' => P s') s as

/-- The last state of a run is one of its states. -/
theorem EachState.of_run {P : σ → Prop} {s s' : σ} {as : List α} (h : EachState step P s as)
    (hrun : run step s as = some s') : P s' := by
  induction as generalizing s with
  | nil =>
    cases hrun
    exact h.1
  | cons a as ih =>
    obtain ⟨s₁, hs₁, hrest⟩ := run_cons_eq_some.mp hrun
    exact ih (h.2 s₁ hs₁) hrest

/-- `eachStep_iff` for a property of the states. -/
theorem eachState_iff {I : σ → List α → Prop} {P : σ → Prop} {C : σ → α → Prop}
    (hpos : ∀ s a s' as, I s (a :: as) → step s a = some s' → C s a → P s' ∧ I s' as)
    (hneg : ∀ s a s' as, I s (a :: as) → step s a = some s' → P s' → C s a) {s : σ}
    {as : List α} (h₀ : I s as) (hP : P s) :
    EachState step P s as ↔ EachStep step (fun s a _ => C s a) s as := by
  have hiff := eachStep_iff (Q := fun _ _ s' => P s') hpos hneg h₀
  exact ⟨fun h => hiff.mp h.2, fun h => ⟨hP, hiff.mpr h⟩⟩

/--
**When a step keeps `P` exactly under the condition, so does a run.** The invariant is one that
every step keeps.
-/
theorem eachState_iff_of_step {I : σ → List α → Prop} {P : σ → Prop} {C : σ → α → Prop}
    (hinv : ∀ s a s' as, I s (a :: as) → step s a = some s' → I s' as)
    (hiff : ∀ s a s' as, I s (a :: as) → P s → step s a = some s' → (P s' ↔ C s a)) {s : σ}
    {as : List α} (h₀ : I s as) (hP : P s) :
    EachState step P s as ↔ EachStep step (fun s a _ => C s a) s as := by
  refine eachState_iff (I := fun s as => I s as ∧ P s) ?_ ?_ ⟨h₀, hP⟩ hP
  · rintro s a s' as ⟨hi, hp⟩ hs hc
    have hp' := (hiff s a s' as hi hp hs).mpr hc
    exact ⟨hp', hinv s a s' as hi hs, hp'⟩
  · rintro s a s' as ⟨hi, hp⟩ hs hp'
    exact (hiff s a s' as hi hp hs).mp hp'

/--
**Every state of a run has what the invariant gives.** The invariant may speak about the actions
that are still to come.
-/
theorem eachState_of_remaining {I : σ → List α → Prop} {P : σ → Prop}
    (hstep : ∀ s a s' as, I s (a :: as) → step s a = some s' → I s' as)
    (hP : ∀ s as, I s as → P s) {s : σ} {as : List α} (h₀ : I s as) : EachState step P s as := by
  refine ⟨hP s as h₀, ?_⟩
  induction as generalizing s with
  | nil => trivial
  | cons a as ih =>
    intro s' hs'
    have hi := hstep s a s' as h₀ hs'
    exact ⟨hP s' as hi, ih hi⟩

/-- **In a run whose steps meet the condition, every state has what the invariant gives.** -/
theorem eachState_of_inv {I P : σ → Prop} {C : σ → α → Prop}
    (hstep : ∀ s a s', I s → C s a → step s a = some s' → I s') (hP : ∀ s, I s → P s) {s : σ}
    {as : List α} (h₀ : I s) (hC : EachStep step (fun s a _ => C s a) s as) :
    EachState step P s as := by
  -- what is still to come meets the condition
  refine eachState_of_remaining (I := fun s as => I s ∧ EachStep step (fun s a _ => C s a) s as)
    ?_ (fun s _ h => hP s h.1) ⟨h₀, hC⟩
  intro s a s' as ⟨hi, hcs⟩ hs'
  obtain ⟨hc, hrest⟩ := hcs s' hs'
  exact ⟨hstep s a s' hi hc hs', hrest⟩

end Lib
