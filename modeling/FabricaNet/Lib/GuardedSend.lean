import Mathlib.Logic.Function.Basic
import FabricaNet.Lib.Run

/-!
# Check, then send

Senders look at a stop flag and send when it is not set. The stopper sets the flag and then closes
the channel. Looking and sending are two steps, so a sender may have looked before the flag was
set and send after the channel was closed.

A system is seen through a `View`: the flag, whether the channel is closed, and the phase of every
sender. If each step of the system is a `GuardStep` of the view, then no sender ever sends on the
closed channel exactly when no sender is between its look and the end of its send at the moment
of the close (`eachState_safe_iff`).
-/

namespace Lib

/-- Where a sender is: outside, between its look at the flag and the end of its send, or dead. -/
inductive Phase where
  | outside
  | sending
  | panicked
deriving DecidableEq

structure View (ι : Type*) where
  stopping : Bool
  closed : Bool
  phase : ι → Phase

/-- A step as far as the view is concerned. -/
inductive GuardStep {ι : Type*} [DecidableEq ι] (v v' : View ι) : Prop where
  | stay (eq : v' = v)
  /-- a sender has seen that the flag is not set -/
  | enter (i : ι) (flag : v.stopping = false)
      (eq : v' = { v with phase := Function.update v.phase i .sending })
  /-- a send is complete -/
  | leave (i : ι) (eq : v' = { v with phase := Function.update v.phase i .outside })
  /-- a send on the closed channel -/
  | panic (i : ι) (sending : v.phase i = .sending) (closed : v.closed = true)
      (eq : v' = { v with phase := Function.update v.phase i .panicked })
  | stop (eq : v' = { v with stopping := true })
  | close (flag : v.stopping = true) (eq : v' = { v with closed := true })

namespace View

variable {ι : Type*}

/-- No sender is between its look at the flag and the end of its send. -/
def Quiet (v : View ι) : Prop := ∀ i, v.phase i ≠ .sending

/-- No send is made, or waits to be made, on a closed channel. -/
def Safe (v : View ι) : Prop := (∀ i, v.phase i ≠ .panicked) ∧ (v.closed = true → v.Quiet)

theorem phase_update_ne [DecidableEq ι] {v : View ι} {i j : ι} {x y : Phase}
    (h : v.phase j ≠ y) (hx : x ≠ y) : Function.update v.phase i x j ≠ y := by
  by_cases hj : j = i
  · subst hj; rwa [Function.update_self]
  · rwa [Function.update_of_ne hj]

end View

namespace GuardStep

variable {ι : Type*} [DecidableEq ι] {v v' : View ι}

/-- The flag is set before the channel is closed. -/
theorem stopping (hstep : GuardStep v v') (h : v.closed = true → v.stopping = true) :
    v'.closed = true → v'.stopping = true := by
  cases hstep with
  | stay eq | leave i eq | panic i _ _ eq | enter i _ eq => subst eq; exact h
  | stop eq => subst eq; exact fun _ => rfl
  | close flag eq => subst eq; exact fun _ => flag

/-- A close finds the view safe exactly when it finds it quiet; other steps keep it safe. -/
theorem safe_iff (hstep : GuardStep v v') (hsafe : v.Safe)
    (hflag : v.closed = true → v.stopping = true) :
    v'.Safe ↔ (v.closed = false ∧ v'.closed = true → v.Quiet) := by
  cases hstep with
  | stay eq | stop eq =>
    subst eq
    exact ⟨fun _ hc => absurd (hc.1.symm.trans hc.2) Bool.false_ne_true, fun _ => hsafe⟩
  | enter i flag eq =>
    -- the flag is not set, so the channel is open
    subst eq
    have hopen : v.closed ≠ true := fun hc => by rw [hflag hc] at flag; cases flag
    exact ⟨fun _ hc => absurd hc.2 hopen,
      fun _ => ⟨fun j => View.phase_update_ne (hsafe.1 j) (by decide), fun hc => absurd hc hopen⟩⟩
  | leave i eq =>
    subst eq
    refine ⟨fun _ hc => absurd (hc.1.symm.trans hc.2) Bool.false_ne_true,
      fun _ => ⟨fun j => View.phase_update_ne (hsafe.1 j) (by decide), fun hc j => ?_⟩⟩
    exact View.phase_update_ne (hsafe.2 hc j) (by decide)
  | panic i sending closed eq => exact absurd sending (hsafe.2 closed i)
  | close flag eq =>
    subst eq
    refine ⟨fun h _ => h.2 rfl, fun h => ⟨hsafe.1, fun _ => ?_⟩⟩
    cases hc : v.closed with
    | false => exact h ⟨hc, rfl⟩
    | true => exact hsafe.2 hc

end GuardStep

variable {σ α ι : Type*} [DecidableEq ι] {step : σ → α → Option σ}

/--
**No send on a closed channel in any state of a run, exactly when every close of the run finds no
sender between its look at the flag and the end of its send.**
-/
theorem eachState_safe_iff {view : σ → View ι} {I : σ → Prop} {Closes : σ → α → Prop}
    (hstep : ∀ s a s', I s → step s a = some s' → GuardStep (view s) (view s') ∧ I s')
    (hcloses : ∀ s a s', I s → step s a = some s' →
      (Closes s a ↔ (view s).closed = false ∧ (view s').closed = true))
    {s : σ} {as : List α} (h₀ : I s) (hopen : (view s).closed = false)
    (halive : ∀ i, (view s).phase i ≠ .panicked) :
    EachState step (fun s => (view s).Safe) s as ↔
      EachStep step (fun s a _ => Closes s a → (view s).Quiet) s as := by
  have hsafe : (view s).Safe := ⟨halive, fun hc => by rw [hopen] at hc; cases hc⟩
  have hflag : (view s).closed = true → (view s).stopping = true := fun hc => by
    rw [hopen] at hc; cases hc
  refine eachState_iff_of_step
    (I := fun s _ => I s ∧ ((view s).closed = true → (view s).stopping = true)) ?_ ?_
    ⟨h₀, hflag⟩ hsafe
  · rintro s a s' as ⟨hi, hf⟩ hs'
    obtain ⟨hg, hi'⟩ := hstep s a s' hi hs'
    exact ⟨hi', hg.stopping hf⟩
  · rintro s a s' as ⟨hi, hf⟩ hs hs'
    obtain ⟨hg, -⟩ := hstep s a s' hi hs'
    rw [hg.safe_iff hs hf, hcloses s a s' hi hs']

end Lib
