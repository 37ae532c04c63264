import Mathlib.Data.List.Nodup
import Mathlib.Logic.Function.Basic

/-!
# Linearization points

Calls of an object that is described by a sequential specification `spec : σ → Op → Res × σ`. Calls
overlap; each takes effect at one point between its beginning and its return. `History` lists the
points in their order and remembers of each call how many points came before it began and before it
returned, so the order of real time can be read off: a call that returned before another began has
its point before the other's.

`Linear spec s₀ h s` says that the history `h` leads from `s₀` to `s` with the results that the
specification gives. It is kept by the beginning of a call, by a point at which the state changes as
the specification says, and by a return.
-/

namespace Lib

variable {ι Op Res σ : Type*}

/-- Where a call is, with the number of points before its beginning and before its return. -/
inductive Status (Op Res : Type*) where
  | idle
  | invoked (op : Op) (began : Nat)
  | decided (op : Op) (res : Res) (began : Nat)
  | returned (op : Op) (res : Res) (began ended : Nat)

structure History (ι Op Res : Type*) where
  points : List (ι × Op × Res)
  status : ι → Status Op Res

namespace History

def init : History ι Op Res := { points := [], status := fun _ => .idle }

variable [DecidableEq ι]

/-- The call `i` begins. -/
def invoke (h : History ι Op Res) (i : ι) (op : Op) : History ι Op Res :=
  { h with status := Function.update h.status i (.invoked op h.points.length) }

/-- The call `i` takes effect. -/
def point (h : History ι Op Res) (i : ι) (res : Res) : History ι Op Res :=
  match h.status i with
  | .invoked op began =>
    { points := h.points ++ [(i, op, res)]
      status := Function.update h.status i (.decided op res began) }
  | _ => h

/-- The call `i` returns. -/
def respond (h : History ι Op Res) (i : ι) : History ι Op Res :=
  match h.status i with
  | .decided op res began =>
    { h with status := Function.update h.status i (.returned op res began h.points.length) }
  | _ => h

variable {h : History ι Op Res} {i : ι} {op : Op} {res : Res} {began : Nat}

theorem point_of_invoked (hi : h.status i = .invoked op began) :
    h.point i res =
      { points := h.points ++ [(i, op, res)]
        status := Function.update h.status i (.decided op res began) } := by
  rw [point, hi]

theorem respond_of_decided (hi : h.status i = .decided op res began) :
    h.respond i =
      { h with status := Function.update h.status i (.returned op res began h.points.length) } := by
  rw [respond, hi]

end History

/-- The operations, one after the other, have these results and lead from `s` to `s'`. -/
def Replays (spec : σ → Op → Res × σ) : σ → List (ι × Op × Res) → σ → Prop
  | s, [], s' => s = s'
  | s, (_, op, res) :: ps, s' => (spec s op).1 = res ∧ Replays spec (spec s op).2 ps s'

theorem Replays.concat {spec : σ → Op → Res × σ} {s s' : σ} {ps : List (ι × Op × Res)}
    (h : Replays spec s ps s') (i : ι) (op : Op) :
    Replays spec s (ps ++ [(i, op, (spec s' op).1)]) (spec s' op).2 := by
  induction ps generalizing s with
  | nil =>
    cases h
    exact ⟨rfl, rfl⟩
  | cons p ps ih => exact ⟨h.1, ih h.2⟩

/-- The point of a call is one of the first `ended`, and not one of the first `began`. -/
def Between (ps : List (ι × Op × Res)) (i : ι) (op : Op) (res : Res) (began ended : Nat) : Prop :=
  ∃ n, began ≤ n ∧ n < ended ∧ ps[n]? = some (i, op, res)

theorem Between.append {ps : List (ι × Op × Res)} {i : ι} {op : Op} {res : Res}
    {began ended : Nat} (h : Between ps i op res began ended) (qs : List (ι × Op × Res)) :
    Between (ps ++ qs) i op res began ended := by
  obtain ⟨n, hle, hlt, hn⟩ := h
  have hlength := (List.getElem?_eq_some_iff.mp hn).1
  exact ⟨n, hle, hlt, by rw [List.getElem?_append_left hlength]; exact hn⟩

/-- What the status of a call says about the points. -/
def Status.Fits (ps : List (ι × Op × Res)) (i : ι) : Status Op Res → Prop
  | .idle => ∀ p ∈ ps, p.1 ≠ i
  | .invoked _ began => (∀ p ∈ ps, p.1 ≠ i) ∧ began ≤ ps.length
  | .decided op res began => Between ps i op res began ps.length
  | .returned op res began ended => Between ps i op res began ended

/-- The point of one call says nothing about the others. -/
theorem Status.Fits.concat {ps : List (ι × Op × Res)} {j : ι} {st : Status Op Res}
    (h : st.Fits ps j) {p : ι × Op × Res} (hp : p.1 ≠ j) : st.Fits (ps ++ [p]) j := by
  have hother : (∀ q ∈ ps, q.1 ≠ j) → ∀ q ∈ ps ++ [p], q.1 ≠ j := by
    intro hold q hq
    rcases List.mem_append.mp hq with hq | hq
    · exact hold q hq
    · rwa [List.mem_singleton.mp hq]
  cases st with
  | idle => exact hother h
  | invoked op began => exact ⟨hother h.1, Nat.le_trans h.2 (by simp)⟩
  | decided op res began =>
    obtain ⟨n, hle, hlt, hn⟩ := Between.append h [p]
    exact ⟨n, hle, Nat.lt_of_lt_of_le hlt (by simp), hn⟩
  | returned op res began ended => exact Between.append h [p]

/-- The history explains the state. -/
structure Linear (spec : σ → Op → Res × σ) (s₀ : σ) (h : History ι Op Res) (s : σ) : Prop where
  replays : Replays spec s₀ h.points s
  nodup : (h.points.map Prod.fst).Nodup
  fits : ∀ i, (h.status i).Fits h.points i

namespace Linear

variable {spec : σ → Op → Res × σ} {s₀ s : σ} {h : History ι Op Res} {i : ι}

theorem init : Linear spec s₀ (History.init : History ι Op Res) s₀ where
  replays := rfl
  nodup := List.nodup_nil
  fits _ := List.forall_mem_nil _

/-- The order of real time is the order of the points. -/
theorem before {op op' : Op} {res res' : Res} {b e b' e' : Nat} {j : ι}
    (hi : Between h.points i op res b e) (hj : Between h.points j op' res' b' e') (hle : e ≤ b') :
    ∃ m n : Nat, m < n ∧ h.points[m]? = some (i, op, res) ∧ h.points[n]? = some (j, op', res') := by
  obtain ⟨m, _, hm, hpm⟩ := hi
  obtain ⟨n, hn, _, hpn⟩ := hj
  exact ⟨m, n, by omega, hpm, hpn⟩

variable [DecidableEq ι]

theorem fits_update (hl : Linear spec s₀ h s) {st : Status Op Res} (hst : st.Fits h.points i)
    (j : ι) : (Function.update h.status i st j).Fits h.points j := by
  by_cases hj : j = i
  · subst hj
    rwa [Function.update_self]
  · rw [Function.update_of_ne hj]
    exact hl.fits j

theorem invoke (hl : Linear spec s₀ h s) (hi : h.status i = .idle) (op : Op) :
    Linear spec s₀ (h.invoke i op) s where
  replays := hl.replays
  nodup := hl.nodup
  fits := hl.fits_update ⟨by have := hl.fits i; rwa [hi] at this, Nat.le_refl _⟩

/-- **The state changes as the specification says.** -/
theorem point (hl : Linear spec s₀ h s) {op : Op} {began : Nat}
    (hi : h.status i = .invoked op began) :
    Linear spec s₀ (h.point i (spec s op).1) (spec s op).2 := by
  have hfits := hl.fits i
  rw [hi] at hfits
  obtain ⟨hnew, hbegan⟩ := hfits
  rw [History.point_of_invoked hi]
  refine ⟨hl.replays.concat i op, ?_, fun j => ?_⟩
  · rw [List.map_append]
    refine List.nodup_append'.mpr ⟨hl.nodup, List.nodup_singleton i, ?_⟩
    rintro j hj hji
    obtain ⟨p, hp, rfl⟩ := List.mem_map.mp hj
    exact hnew p hp (List.mem_singleton.mp hji)
  · by_cases hj : j = i
    · subst hj
      change (Function.update h.status j _ j).Fits _ j
      rw [Function.update_self]
      exact ⟨h.points.length, hbegan, by simp, by simp⟩
    · change (Function.update h.status i _ j).Fits _ j
      rw [Function.update_of_ne hj]
      exact (hl.fits j).concat (Ne.symm hj)

theorem respond (hl : Linear spec s₀ h s) {op : Op} {res : Res} {began : Nat}
    (hi : h.status i = .decided op res began) : Linear spec s₀ (h.respond i) s := by
  rw [History.respond_of_decided hi]
  refine ⟨hl.replays, hl.nodup, hl.fits_update ?_⟩
  have hfits := hl.fits i
  rwa [hi] at hfits

end Linear

end Lib
