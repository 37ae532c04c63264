import Mathlib.Data.Int.CardIntervalMod
import Mathlib.Data.Nat.Bitwise
import Mathlib.SetTheory.Cardinal.Finite

/-!
# Words

Machine words are numbers below a power of two, and what wraps at that power is arithmetic modulo
it.

* `xorShift_xorShift` — a word that is folded onto its lower half can be unfolded
* `and_sub_one_eq_mod` — the mask of a power of two takes the remainder
* `existsUnique_position` — consecutive positions, wrapping at a multiple of the ring's size, meet
  every place of the ring once
* `card_mod_eq` — all places of the ring are met equally often
-/

namespace Lib

/-! ## Folding a word -/

/-- The word with its bits from `n` on laid over the lower ones. -/
def xorShift (n x : Nat) : Nat := x ^^^ x >>> n

/-- **Twice the fold is the word**, when it has at most `2 * n` bits. -/
theorem xorShift_xorShift {n x : Nat} (hx : x < 2 ^ (n + n)) :
    xorShift n (xorShift n x) = x := by
  have hgone : x >>> n >>> n = 0 := by
    rw [← Nat.shiftRight_add, Nat.shiftRight_eq_div_pow]
    exact Nat.div_eq_of_lt hx
  calc xorShift n (xorShift n x)
      = (x ^^^ x >>> n) ^^^ (x >>> n ^^^ x >>> n >>> n) := by
        unfold xorShift
        rw [Nat.shiftRight_xor_distrib]
    _ = x := by rw [hgone, Nat.xor_zero, Nat.xor_assoc, Nat.xor_self, Nat.xor_zero]

/-- A word whose lower half is empty gets a copy of its upper half there. -/
theorem xorShift_two_pow_mul {n x : Nat} (hx : x < 2 ^ n) :
    xorShift n (2 ^ n * x) = 2 ^ n * x + x := by
  have hup : (2 ^ n * x) >>> n = x := by
    rw [Nat.shiftRight_eq_div_pow, Nat.mul_div_cancel_left _ (Nat.two_pow_pos n)]
  unfold xorShift
  rw [hup]
  refine Nat.eq_of_testBit_eq fun i => ?_
  rw [Nat.testBit_xor, Nat.testBit_two_pow_mul, Nat.testBit_two_pow_mul_add _ hx]
  by_cases hi : i < n
  · simp [hi, Nat.not_le_of_lt hi]
  · have hge : n ≤ i := Nat.le_of_not_lt hi
    have hzero : x.testBit i = false :=
      Nat.testBit_lt_two_pow (Nat.lt_of_lt_of_le hx (Nat.pow_le_pow_right (by decide) hge))
    simp [hi, hge, hzero]

theorem xorShift_mod_two_pow (n k x : Nat) :
    xorShift n x % 2 ^ k = x % 2 ^ k ^^^ x / 2 ^ n % 2 ^ k := by
  unfold xorShift
  rw [Nat.xor_mod_two_pow, Nat.shiftRight_eq_div_pow]

/-! ## Masks -/

theorem and_sub_one_eq_mod {c : Nat} (hc : c.isPowerOfTwo) (x : Nat) : x &&& (c - 1) = x % c := by
  obtain ⟨k, rfl⟩ := hc
  exact Nat.and_two_pow_sub_one_eq_mod x k

theorem dvd_two_pow {c w : Nat} (hc : c.isPowerOfTwo) (hle : c ≤ 2 ^ w) : c ∣ 2 ^ w := by
  obtain ⟨k, rfl⟩ := hc
  exact Nat.pow_dvd_pow 2 ((Nat.pow_le_pow_iff_right (by decide)).mp hle)

theorem toNat_and_sub_one {c : UInt64} (hc : c.toNat.isPowerOfTwo) (x : UInt64) :
    (x &&& (c - 1)).toNat = x.toNat % c.toNat := by
  have hone : (1 : UInt64) ≤ c := UInt64.le_iff_toNat_le.mpr (Nat.pos_of_isPowerOfTwo hc)
  rw [UInt64.toNat_and, UInt64.toNat_sub_of_le _ _ hone]
  exact and_sub_one_eq_mod hc x.toNat

/-! ## Places of a ring -/

section Ring

variable {c M k : Nat}

/-- **Every place once.** -/
theorem existsUnique_position (hdvd : c ∣ M) (start : Nat) (hk : k < c) :
    ∃! i, i < c ∧ (start + i) % M % c = k := by
  have hc : 0 < c := Nat.zero_lt_of_lt hk
  have hmod (i : Nat) : (start + i) % M % c = k ↔ start + i ≡ k [MOD c] := by
    rw [Nat.mod_mod_of_dvd _ hdvd, Nat.ModEq, Nat.mod_eq_of_lt hk]
  have hle : start % c ≤ c := (Nat.mod_lt start hc).le
  have hback : start + (k + (c - start % c)) ≡ k [MOD c] := by
    calc start + (k + (c - start % c))
        ≡ start % c + (k + (c - start % c)) [MOD c] := (Nat.mod_modEq start c).symm.add_right _
      _ = k + c := by omega
      _ ≡ k [MOD c] := Nat.add_modEq_right
  refine ⟨(k + (c - start % c)) % c, ⟨Nat.mod_lt _ hc, (hmod _).mpr ?_⟩, ?_⟩
  · exact ((Nat.mod_modEq _ c).add_left start).trans hback
  · rintro i ⟨hi, hik⟩
    have heq : i ≡ k + (c - start % c) [MOD c] :=
      Nat.ModEq.add_left_cancel' start (((hmod i).mp hik).trans hback.symm)
    rw [← Nat.mod_eq_of_lt hi]
    exact heq

/-- **Every place equally often.** -/
theorem card_mod_eq (hdvd : c ∣ M) (hk : k < c) :
    Nat.card { n // n < M ∧ n % c = k } = M / c := by
  have hcount := Nat.count_modEq_card M (Nat.zero_lt_of_lt hk) k
  rw [Nat.mod_eq_zero_of_dvd hdvd, if_neg (Nat.not_lt_zero _), Nat.add_zero,
    Nat.count_eq_card_filter_range] at hcount
  rw [← hcount]
  refine Nat.subtype_card _ fun n => ?_
  rw [Finset.mem_filter, Finset.mem_range, Nat.ModEq, Nat.mod_eq_of_lt hk]

/--
**Steps no longer than an interval do not jump over it.** On a ring of `c` intervals of length `L`,
a walk that goes back by `s` at every step is in the interval `r` before it has gone round.
-/
theorem exists_step_mem {L K s r : Nat} (hback : c * L ∣ K + s) (hs : 0 < s) (hle : s ≤ L)
    (hr : r < c) (start : Nat) : ∃ m ≤ c * L / s, (start + K * m) / L % c = r := by
  have hpos : 0 < c * L := Nat.mul_pos (Nat.zero_lt_of_lt hr) (Nat.lt_of_lt_of_le hs hle)
  have hlow : r * L ≤ c * L := Nat.mul_le_mul_right L hr.le
  -- the way from the lower end of the interval to the start, and what is left of it in the end
  let d := (start + (c * L - r * L)) % (c * L)
  have hd : d < c * L := Nat.mod_lt _ hpos
  have he : d % s < L := Nat.lt_of_lt_of_le (Nat.mod_lt _ hs) hle
  have hend : start + K * (d / s) ≡ r * L + d % s [MOD c * L] := by
    refine Nat.ModEq.add_right_cancel' (s * (d / s)) ?_
    calc start + K * (d / s) + s * (d / s)
        = start + (K + s) * (d / s) := by ring
      _ ≡ start + 0 [MOD c * L] :=
          Nat.ModEq.add_left _ (Nat.modEq_zero_iff_dvd.mpr (hback.mul_right _))
      _ ≡ start + c * L [MOD c * L] := (Nat.add_modEq_right).symm
      _ = r * L + (start + (c * L - r * L)) := by omega
      _ ≡ r * L + d [MOD c * L] := (Nat.mod_modEq _ _).symm.add_left _
      _ = r * L + d % s + s * (d / s) := by rw [Nat.add_assoc, Nat.mod_add_div]
  have hlt : r * L + d % s < L * c := by
    calc r * L + d % s < r * L + L := Nat.add_lt_add_left he _
      _ = L * (r + 1) := by ring
      _ ≤ L * c := Nat.mul_le_mul_left L hr
  refine ⟨d / s, Nat.div_le_div_right hd.le, ?_⟩
  rw [Nat.mul_comm c L] at hend
  rw [← Nat.mod_mul_right_div_self, hend, Nat.mod_eq_of_lt hlt, Nat.mul_comm r L,
    Nat.mul_add_div (by omega), Nat.div_eq_of_lt he, Nat.add_zero]

end Ring

/-- A property of words is a property of the numbers below `2 ^ 64`. -/
theorem card_uint64 (P : Nat → Prop) :
    Nat.card { x : UInt64 // P x.toNat } = Nat.card { n // n < 2 ^ 64 ∧ P n } := by
  refine Nat.card_congr
    { toFun := fun x => ⟨x.1.toNat, UInt64.toNat_lt x.1, x.2⟩
      invFun := fun n => ⟨UInt64.ofNat n.1, ?_⟩
      left_inv := fun x => Subtype.ext UInt64.ofNat_toNat
      right_inv := fun n => Subtype.ext (UInt64.toNat_ofNat_of_lt' n.2.1) }
  rw [UInt64.toNat_ofNat_of_lt' n.2.1]
  exact n.2.2

end Lib
