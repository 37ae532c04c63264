import Mathlib.Algebra.Group.Nat.Defs

/-!
# Times and durations

A `time.Time` is a number of nanoseconds since the zero value of the type, the first of January of
the year 1. A `time.Duration` is an `int64` of nanoseconds. `Sub` of two times that are too far
apart for a duration gives the longest one.
-/

namespace Go

/-- `time.Time`. -/
structure Time where
  ns : Int
deriving DecidableEq, Repr

/-- `time.Time{}`. -/
def Time.zero : Time := ⟨0⟩

/-- `time.Duration`. -/
abbrev Duration := Int64

/-- `time.Millisecond`. -/
def millisecond : Duration := 1000000

/-- `time.Second`. -/
def second : Duration := 1000000000

/-- `t.Sub(u)`. -/
def Time.sub (t u : Time) : Duration :=
  if t.ns - u.ns < Int64.minValue.toInt then Int64.minValue
  else if Int64.maxValue.toInt < t.ns - u.ns then Int64.maxValue
  else Int64.ofInt (t.ns - u.ns)

/-- A comparison of a difference with a duration is not disturbed by the limits. -/
theorem Time.lt_sub_iff {t u : Time} {d : Duration} (hd : d < Int64.maxValue) :
    d < t.sub u ↔ d.toInt < t.ns - u.ns := by
  have hmin : Int64.minValue.toInt = -2 ^ 63 := rfl
  have hmax : Int64.maxValue.toInt = 2 ^ 63 - 1 := rfl
  have hle := Int64.le_toInt d
  rw [Int64.lt_iff_toInt_lt] at hd ⊢
  unfold Time.sub
  split
  · omega
  · split
    · omega
    · rw [Int64.toInt_ofInt_of_le (by omega) (by omega)]

end Go
