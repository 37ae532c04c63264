import Mathlib.Algebra.Order.BigOperators.Group.Finset
import Mathlib.Algebra.GroupWithZero.Nat
import FabricaNet.Lib.Run

/-!
# Tallies and potentials

A party `k` is in state `f k`, and a state weighs `w` units. `tally S w f` is the weight of all
parties in the finite set `S`. When one party moves, the tally changes by what its weight changes.
`sum_map_set` says the same of parties in a list.

`run_cost_le` bounds what a run costs: when every step pays its cost from a potential and from the
credit of its action, the run costs at most the potential at its start and the credits together.
-/

namespace Lib

variable {ι β : Type*}

/-- The total weight of the parties in `S`. -/
def tally (S : Finset ι) (w : β → Nat) (f : ι → β) : Nat := ∑ k ∈ S, w (f k)

/-- Only the weights of the states count. -/
theorem tally_congr {S : Finset ι} {w : β → Nat} {f f' : ι → β} (h : ∀ k, w (f' k) = w (f k)) :
    tally S w f' = tally S w f := Finset.sum_congr rfl fun k _ => h k

theorem tally_eq_zero {S : Finset ι} {w : β → Nat} {f : ι → β} (h : ∀ k, w (f k) = 0) :
    tally S w f = 0 := Finset.sum_eq_zero fun k _ => h k

/-- **One party moves.** -/
theorem tally_update [DecidableEq ι] {S : Finset ι} {i : ι} (hi : i ∈ S) (w : β → Nat)
    (f : ι → β) (x : β) : tally S w (Function.update f i x) + w (f i) = tally S w f + w x := by
  have hrest : ∑ k ∈ S.erase i, w (Function.update f i x k) = ∑ k ∈ S.erase i, w (f k) := by
    refine Finset.sum_congr rfl fun k hk => ?_
    rw [Function.update_of_ne (Finset.ne_of_mem_erase hk)]
  unfold tally
  rw [← Finset.add_sum_erase S _ hi, ← Finset.add_sum_erase S (fun k => w (f k)) hi, hrest,
    Function.update_self]
  omega

/-- Every party gains at most `c`. -/
theorem tally_le_add {S : Finset ι} {w w' : β → Nat} {f f' : ι → β} {c : Nat}
    (h : ∀ k, w' (f' k) ≤ w (f k) + c) : tally S w' f' ≤ tally S w f + S.card * c :=
  calc tally S w' f' ≤ ∑ k ∈ S, (w (f k) + c) := Finset.sum_le_sum fun k _ => h k
    _ = tally S w f + S.card * c := by
      rw [Finset.sum_add_distrib, Finset.sum_const]
      rfl

/-- One entry of a list is replaced. -/
theorem sum_map_set (w : β → Nat) {xs : List β} {i : Nat} {x : β} (h : xs[i]? = some x) (y : β) :
    ((xs.set i y).map w).sum + w x = (xs.map w).sum + w y := by
  induction xs generalizing i with
  | nil => cases h
  | cons z xs ih =>
    cases i with
    | zero =>
      cases h
      simp only [List.set_cons_zero, List.map_cons, List.sum_cons]
      omega
    | succ i =>
      have hrest := ih h
      simp only [List.set_cons_succ, List.map_cons, List.sum_cons]
      omega

/-! ## What a run costs -/

/--
**A run costs at most its potential and its credit.** The invariant may speak about the actions
that are still to come.
-/
theorem run_cost_le {σ α : Type*} {step : σ → α → Option σ} {I : σ → List α → Prop}
    {potential : σ → Nat} {cost credit : α → Nat}
    (hinv : ∀ s a s' as, I s (a :: as) → step s a = some s' → I s' as)
    (hpay : ∀ s a s' as, I s (a :: as) → step s a = some s' →
      cost a + potential s' ≤ potential s + credit a)
    {s s' : σ} {as : List α} (h₀ : I s as) (hrun : run step s as = some s') :
    (as.map cost).sum + potential s' ≤ potential s + (as.map credit).sum := by
  induction as generalizing s with
  | nil =>
    cases hrun
    simp
  | cons a as ih =>
    obtain ⟨s₁, hs₁, hrest⟩ := run_cons_eq_some.mp hrun
    have hfirst := hpay s a s₁ as h₀ hs₁
    have hlater := ih (hinv s a s₁ as h₀ hs₁) hrest
    simp only [List.map_cons, List.sum_cons]
    omega

end Lib
