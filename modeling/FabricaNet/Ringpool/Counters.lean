import Mathlib.Data.Fintype.Basic
import FabricaNet.Lib.Count
import FabricaNet.Ringpool.Ownership

/-!
# The counters of the ring

`head` and `tail` under concurrency, as numbers. `Alloc` compares two values that it has loaded at
different times, and only `head` is checked again by the compare-and-swap. What keeps `head` from
passing `tail + capacity` is that `tail` only grows: a ring that was not full when `tail` was
loaded is not full as long as `head` has not moved.

That `tail` never passes `head` is a matter of counting. Every step of `head` is accounted for: it
was lost on a busy slot, or a goroutine is about to take the slot, or the slot is busy, or a
goroutine has released the slot and is about to advance `tail`, or `tail` has been advanced.

The same account against the number of calls bounds `tail` by half of it, so that with less than
`2 ^ 64` calls `tail + capacity` does not wrap.
-/

namespace FabricaNet.Ringpool

open Go Lib

/-- A goroutine that has advanced `head` for a slot, or has released a slot. -/
def Pc.passed : Pc → Nat
  | .allocSlot _ _ | .freeTail => 1
  | _ => 0

/-- The calls that a goroutine has made and that no busy slot and no step of `tail` stands for. -/
def Pc.owed : Pc → Nat
  | .allocHead _ | .allocTail _ _ | .allocCas _ _ | .allocSlot _ _ => 1
  | .freeClear _ | .freeStore _ => 1
  -- the call of `Alloc` that took the slot, and the call of `Free`
  | .freeTail => 2
  | _ => 0

/-- What a goroutine knows of the pool from its earlier steps. -/
def Pc.Knows (p : RingBufferPool) : Pc → Prop
  | .allocTail _ head => head.toNat ≤ p.head.toNat
  | .allocCas _ head => head.toNat ≤ p.head.toNat ∧
      (head.toNat = p.head.toNat → head.toNat < p.tail.toNat + p.capacity.toNat)
  | .freeClear buf | .freeStore buf => p.isRingBuffer buf = true
  | _ => True

/-- One for a slot whose buffer is taken. -/
def busyState (state : UInt32) : Nat := if state = 0 then 0 else 1

/-- The number of slots whose buffer is taken. -/
def RingBufferPool.busy (p : RingBufferPool) : Nat :=
  tally Finset.univ busyState p.slotStates.get

/-- The goroutine that acts. -/
def Act.goroutine : Act → Nat
  | .alloc g _ | .free g _ | .tick g | .give g _ _ | .write g _ _ => g

/-- Whether an action is a call of `Alloc` or `Free`. -/
def Act.isCall : Act → Bool
  | .alloc _ _ | .free _ _ => true
  | _ => false

/-- The number of calls of `Alloc` and `Free` in a run. -/
def calls (acts : List Act) : Nat := acts.countP Act.isCall

theorem calls_cons (a : Act) (acts : List Act) : calls (a :: acts) = calls acts + calls [a] := by
  show List.countP _ ([a] ++ acts) = _
  rw [List.countP_append, Nat.add_comm]
  rfl

/-- `tail <= head <= tail + capacity`. -/
def Machine.CountersInOrder (s : Machine) : Prop :=
  s.pool.tail.toNat ≤ s.pool.head.toNat ∧
    s.pool.head.toNat ≤ s.pool.tail.toNat + s.pool.capacity.toNat

/-! ## The pool -/

theorem UInt64.toNat_add_one {x : UInt64} {n : Nat} (h : x.toNat < n) (hn : n < 2 ^ 64) :
    (x + 1).toNat = x.toNat + 1 := by
  rw [UInt64.toNat_add]
  exact Nat.mod_eq_of_lt (by show x.toNat + 1 < 2 ^ 64; omega)

/-- The largest power of two that a capacity can be. -/
theorem Ring.capacity_le (r : Ring) : r.capacity.toNat ≤ 2 ^ 63 := by
  have hpos : 0 < r.capacity.toNat := UInt64.lt_iff_toNat_lt.mp r.capacity_pos
  have hlt : r.capacity.toNat < 2 ^ 64 := UInt64.toNat_lt r.capacity
  have hsub : (r.capacity - 1).toNat = r.capacity.toNat - 1 :=
    UInt64.toNat_sub_of_le _ _ (UInt64.le_iff_toNat_le.mpr hpos)
  by_contra hgt
  -- otherwise the capacity and its predecessor both have the highest bit
  have hbit : ∀ n : Nat, 2 ^ 63 ≤ n → n < 2 ^ 64 → n.testBit 63 = true := fun n hle hn =>
    Nat.testBit_of_two_pow_le_and_two_pow_add_one_gt hle hn
  have hand := congrArg (fun x => Nat.testBit (UInt64.toNat x) 63) r.capacity_pow
  simp only [UInt64.toNat_and, Nat.testBit_and, hsub] at hand
  rw [hbit _ (by omega) hlt, hbit _ (by omega) (by omega)] at hand
  exact absurd hand (by decide)

namespace RingBufferPool

variable {p : RingBufferPool}

theorem get_setSlot (i j : Fin p.capacity.toNat) (x : UInt32) :
    (p.setSlot i x).slotStates.get j = Function.update p.slotStates.get i x j := by
  by_cases hj : j = i
  · subst hj
    rw [Function.update_self]
    exact Vector.getElem_set_self ..
  · rw [Function.update_of_ne hj]
    exact Vector.getElem_set_ne i.isLt j.isLt fun h => hj (Fin.ext h.symm)

theorem busy_setSlot (i : Fin p.capacity.toNat) (x : UInt32) :
    (p.setSlot i x).busy + busyState (p.slotStates.get i) = p.busy + busyState x := by
  refine Eq.trans ?_ (tally_update (Finset.mem_univ i) busyState p.slotStates.get x)
  exact congrArg (· + _) (tally_congr fun j => congrArg busyState (get_setSlot i j x))

theorem busy_take {i : Fin p.capacity.toNat} (h : p.slotStates.get i = 0) :
    (p.setSlot i 1).busy = p.busy + 1 := by
  have hset := busy_setSlot i 1
  rw [h] at hset
  exact hset

theorem busy_release {i : Fin p.capacity.toNat} (h : p.slotStates.get i ≠ 0) :
    (p.setSlot i 0).busy + 1 = p.busy := by
  have hset := busy_setSlot i 0
  rw [busyState, if_neg h] at hset
  exact hset

end RingBufferPool

/-- What a goroutine knows stays true while `head` and `tail` grow. -/
theorem Pc.Knows.mono {p p' : RingBufferPool} {pc : Pc} (h : pc.Knows p)
    (hring : p'.toRing = p.toRing) (hhead : p.head.toNat ≤ p'.head.toNat)
    (htail : p.tail.toNat ≤ p'.tail.toNat) : pc.Knows p' := by
  have hcap : p'.capacity = p.capacity := congrArg Ring.capacity hring
  cases pc with
  | allocTail size head => exact Nat.le_trans h hhead
  | allocCas size head =>
    obtain ⟨hle, hroom⟩ := h
    refine ⟨Nat.le_trans hle hhead, fun heq => ?_⟩
    have := hroom (by omega)
    rw [hcap]
    omega
  | freeClear buf | freeStore buf =>
    show Ring.isRingBuffer p'.toRing buf = true
    rw [hring]
    exact h
  | _ => trivial

namespace Machine

variable {s s' : Machine} {g : Nat} {S : Finset Nat} {ops : Nat}

/-! ## The account -/

/-- The account after `ops` calls, all made by goroutines in `S`. -/
structure Counted (S : Finset Nat) (ops : Nat) (s : Machine) : Prop where
  exclusive : Exclusive s.live s.own
  knows : ∀ g, (s.gs g).pc.Knows s.pool
  /-- every step of `head` is accounted for -/
  issued : s.pool.tail.toNat + s.pool.busy + tally S (fun g => Pc.passed g.pc) s.gs ≤
    s.pool.head.toNat
  /-- a step of `tail` stands for a call of `Alloc` and a call of `Free` -/
  paid : 2 * s.pool.tail.toNat + s.pool.busy + tally S (fun g => Pc.owed g.pc) s.gs ≤ ops
  room : s.pool.head.toNat ≤ s.pool.tail.toNat + s.pool.capacity.toNat

theorem Counted.inOrder (h : Counted S ops s) : s.CountersInOrder := by
  have hissued := h.issued
  exact ⟨by omega, h.room⟩

/-- With less than `2 ^ 64` calls `tail + capacity` does not wrap. -/
theorem Counted.noWrap (h : Counted S ops s) (hops : ops < 2 ^ 64) :
    s.pool.tail.toNat + s.pool.capacity.toNat < 2 ^ 64 := by
  have hpaid := h.paid
  have hcap := s.pool.capacity_le
  omega

theorem counted_init {pool : RingBufferPool} {heap : Heap} (hnew : pool.New heap) :
    Counted S 0 (init pool heap) := by
  have hbusy : pool.busy = 0 := tally_eq_zero fun i => if_pos (hnew.slot_free i)
  have hzero : ∀ w : Pc → Nat, w .idle = 0 →
      tally S (fun g => w g.pc) (init pool heap).gs = 0 := fun w hw => tally_eq_zero fun _ => hw
  refine ⟨exclusive_init hnew, fun _ => trivial, ?_, ?_, ?_⟩
  · rw [hzero _ rfl]
    show pool.tail.toNat + pool.busy + 0 ≤ _
    rw [hbusy, hnew.tail_eq]
    exact Nat.zero_le _
  · rw [hzero _ rfl]
    show 2 * pool.tail.toNat + pool.busy + 0 ≤ 0
    rw [hbusy, hnew.tail_eq]
    exact Nat.le_refl _
  · show pool.head.toNat ≤ _
    rw [hnew.head_eq]
    exact Nat.zero_le _

/-- A step that moves one goroutine, whatever it does to the counters, if the books balance. -/
theorem Counted.move (h : Counted S ops s) (hg : g ∈ S) {x : Goroutine} {p : RingBufferPool}
    {heap : Heap} {ops' : Nat}
    (hex : Exclusive (Machine.live ⟨p, heap, Function.update s.gs g x⟩)
      (Machine.own ⟨p, heap, Function.update s.gs g x⟩))
    (hring : p.toRing = s.pool.toRing) (hhead : s.pool.head.toNat ≤ p.head.toNat)
    (htail : s.pool.tail.toNat ≤ p.tail.toNat) (hknows : x.pc.Knows p)
    (hissued : p.tail.toNat + p.busy + x.pc.passed + s.pool.head.toNat ≤
      s.pool.tail.toNat + s.pool.busy + (s.gs g).pc.passed + p.head.toNat)
    (hpaid : 2 * p.tail.toNat + p.busy + x.pc.owed + ops ≤
      2 * s.pool.tail.toNat + s.pool.busy + (s.gs g).pc.owed + ops')
    (hroom : p.head.toNat ≤ p.tail.toNat + p.capacity.toNat) :
    Counted S ops' ⟨p, heap, Function.update s.gs g x⟩ := by
  have hpassed := tally_update hg (fun g => Pc.passed g.pc) s.gs x
  have howed := tally_update hg (fun g => Pc.owed g.pc) s.gs x
  have h₁ := h.issued
  have h₂ := h.paid
  refine ⟨hex, fun k => ?_, ?_, ?_, hroom⟩
  · by_cases hk : k = g
    · subst hk
      simpa only [Function.update_self] using hknows
    · simpa only [Function.update_of_ne hk] using (h.knows k).mono hring hhead htail
  · show p.tail.toNat + p.busy + tally S _ (Function.update s.gs g x) ≤ p.head.toNat
    omega
  · show 2 * p.tail.toNat + p.busy + tally S _ (Function.update s.gs g x) ≤ ops'
    omega

/-- A step that leaves the ring as it is. -/
theorem Counted.quiet (h : Counted S ops s) (hg : g ∈ S) {x : Goroutine} {p : RingBufferPool}
    {heap : Heap} {ops' : Nat}
    (hex : Exclusive (Machine.live ⟨p, heap, Function.update s.gs g x⟩)
      (Machine.own ⟨p, heap, Function.update s.gs g x⟩))
    (hring : p.toRing = s.pool.toRing) (hhead : p.head = s.pool.head)
    (htail : p.tail = s.pool.tail) (hbusy : p.busy = s.pool.busy) (hknows : x.pc.Knows p)
    (hpassed : x.pc.passed ≤ (s.gs g).pc.passed)
    (howed : x.pc.owed + ops ≤ (s.gs g).pc.owed + ops') :
    Counted S ops' ⟨p, heap, Function.update s.gs g x⟩ := by
  have hcap : p.capacity = s.pool.capacity := congrArg Ring.capacity hring
  refine h.move hg hex hring (by rw [hhead]) (by rw [htail]) hknows ?_ ?_ ?_
  · rw [hhead, htail, hbusy]
    omega
  · rw [htail, hbusy]
    omega
  · rw [hhead, htail, hcap]
    exact h.room

/-- A step in which nobody moves. -/
theorem Counted.stay (h : Counted S ops s) (hex : Exclusive s'.live s'.own)
    (hpool : s'.pool = s.pool) (hpc : ∀ k, (s'.gs k).pc = (s.gs k).pc) : Counted S ops s' := by
  obtain ⟨p, heap, gs⟩ := s'
  subst hpool
  have htally : ∀ w : Pc → Nat, tally S (fun g => w g.pc) gs = tally S (fun g => w g.pc) s.gs :=
    fun w => tally_congr fun k => congrArg w (hpc k)
  refine ⟨hex, fun k => ?_, ?_, ?_, h.room⟩
  · show (gs k).pc.Knows _
    rw [hpc k]
    exact h.knows k
  · show _ + tally S (fun g => Pc.passed g.pc) gs ≤ _
    rw [htally]
    exact h.issued
  · show _ + tally S (fun g => Pc.owed g.pc) gs ≤ _
    rw [htally]
    exact h.paid

/-! ## One step -/

/-- The test for a full ring, on the values that were loaded. -/
theorem Counted.notFull (h : Counted S ops s) (hops : ops < 2 ^ 64) {head : UInt64}
    (hne : head ≠ s.pool.tail + s.pool.capacity) (heq : head.toNat = s.pool.head.toNat) :
    head.toNat < s.pool.tail.toNat + s.pool.capacity.toNat := by
  have hwrap := h.noWrap hops
  have hroom := h.room
  have hsum : (s.pool.tail + s.pool.capacity).toNat =
      s.pool.tail.toNat + s.pool.capacity.toNat := by
    rw [UInt64.toNat_add]
    exact Nat.mod_eq_of_lt hwrap
  have hne' : head.toNat ≠ (s.pool.tail + s.pool.capacity).toNat := fun he =>
    hne (UInt64.toNat_inj.mp he)
  omega

theorem counted_allocCas (h : Counted S ops s) (hops : ops < 2 ^ 64) (hg : g ∈ S) {size : Nat}
    {head : UInt64} (hpc : (s.gs g).pc = .allocCas size head) {o : Outcome}
    (hnext : (s.gs g).pc.next s.pool s.heap = some o)
    (hex : Exclusive (s.apply g o).live (s.apply g o).own) : Counted S ops (s.apply g o) := by
  have hknows := h.knows g
  rw [hpc] at hnext hknows
  simp only [Pc.next] at hnext
  split at hnext
  · next heq =>
    -- `head` has not moved since it was loaded, so the ring is not full
    cases hnext
    have hlt := hknows.2 (congrArg UInt64.toNat heq.symm)
    have hadd : (head + 1).toNat = s.pool.head.toNat + 1 := by
      rw [UInt64.toNat_add_one hlt (h.noWrap hops), heq]
    refine h.move hg hex rfl ?_ (Nat.le_refl _) trivial ?_ ?_ ?_
    · show _ ≤ (head + 1).toNat
      omega
    · show s.pool.tail.toNat + s.pool.busy + 1 + s.pool.head.toNat ≤ _ + (head + 1).toNat
      rw [hadd, hpc]
      show _ ≤ _ + 0 + _
      omega
    · rw [hpc]
      exact Nat.le_refl _
    · show (head + 1).toNat ≤ s.pool.tail.toNat + s.pool.capacity.toNat
      rw [← heq] at hlt
      omega
  · cases hnext
    exact h.quiet hg hex rfl rfl rfl rfl trivial (Nat.zero_le _) (by rw [hpc]; exact Nat.le_refl _)

theorem counted_allocSlot (h : Counted S ops s) (hg : g ∈ S) {size : Nat} {head : UInt64}
    (hpc : (s.gs g).pc = .allocSlot size head) {o : Outcome}
    (hnext : (s.gs g).pc.next s.pool s.heap = some o)
    (hex : Exclusive (s.apply g o).live (s.apply g o).own) : Counted S ops (s.apply g o) := by
  rw [hpc] at hnext
  simp only [Pc.next] at hnext
  split at hnext
  · next hfree =>
    cases hnext
    have hbusy := RingBufferPool.busy_take (i := s.pool.slotOf head) hfree
    refine h.move hg hex rfl (Nat.le_refl _) (Nat.le_refl _) trivial ?_ ?_ h.room
    · rw [hbusy, hpc]
      exact Nat.le_refl _
    · rw [hbusy, hpc]
      exact Nat.le_refl _
  · cases hnext
    exact h.quiet hg hex rfl rfl rfl rfl trivial (Nat.zero_le _) (by rw [hpc]; exact Nat.le_refl _)

theorem counted_freeStore (h : Counted S ops s) (hg : g ∈ S) {buf : Slice}
    (hpc : (s.gs g).pc = .freeStore buf) {o : Outcome}
    (hnext : (s.gs g).pc.next s.pool s.heap = some o)
    (hex : Exclusive (s.apply g o).live (s.apply g o).own) : Counted S ops (s.apply g o) := by
  have hknows := h.knows g
  rw [hpc] at hnext hknows
  cases hnext
  obtain ⟨i, hptr, heq⟩ := RingBufferPool.releaseSlot_of_ring hknows
  have hcarried : buf.ptr ∈ (s.gs g).pc.carried := by
    rw [hpc]
    exact Multiset.mem_singleton_self _
  have hbusy : (s.pool.setSlot i 0).busy + 1 = s.pool.busy :=
    RingBufferPool.busy_release (slot_busy_of_carried h.exclusive hcarried hptr)
  rw [heq] at hex ⊢
  refine h.move hg hex rfl (Nat.le_refl _) (Nat.le_refl _) trivial ?_ ?_ h.room
  · show s.pool.tail.toNat + (s.pool.setSlot i 0).busy + 1 + s.pool.head.toNat ≤
      _ + _ + _ + s.pool.head.toNat
    omega
  · rw [hpc]
    show 2 * s.pool.tail.toNat + (s.pool.setSlot i 0).busy + 2 + ops ≤
      2 * s.pool.tail.toNat + s.pool.busy + 1 + ops
    omega

theorem counted_freeTail (h : Counted S ops s) (hops : ops < 2 ^ 64) (hg : g ∈ S)
    (hpc : (s.gs g).pc = .freeTail) {o : Outcome}
    (hnext : (s.gs g).pc.next s.pool s.heap = some o)
    (hex : Exclusive (s.apply g o).live (s.apply g o).own) : Counted S ops (s.apply g o) := by
  rw [hpc] at hnext
  cases hnext
  have hcap : 0 < s.pool.capacity.toNat := UInt64.lt_iff_toNat_lt.mp s.pool.capacity_pos
  have hadd : (s.pool.tail + 1).toNat = s.pool.tail.toNat + 1 :=
    UInt64.toNat_add_one (Nat.lt_add_of_pos_right hcap) (h.noWrap hops)
  have hroom := h.room
  refine h.move hg hex rfl (Nat.le_refl _) ?_ trivial ?_ ?_ ?_
  · show _ ≤ (s.pool.tail + 1).toNat
    omega
  · rw [hpc]
    show (s.pool.tail + 1).toNat + s.pool.busy + 0 + s.pool.head.toNat ≤
      s.pool.tail.toNat + s.pool.busy + 1 + s.pool.head.toNat
    omega
  · rw [hpc]
    show 2 * (s.pool.tail + 1).toNat + s.pool.busy + 0 + ops ≤
      2 * s.pool.tail.toNat + s.pool.busy + 2 + ops
    omega
  · show s.pool.head.toNat ≤ (s.pool.tail + 1).toNat + s.pool.capacity.toNat
    omega

theorem counted_tick (h : Counted S ops s) (hops : ops < 2 ^ 64) (hg : g ∈ S) {o : Outcome}
    (hnext : (s.gs g).pc.next s.pool s.heap = some o)
    (hex : Exclusive (s.apply g o).live (s.apply g o).own) : Counted S ops (s.apply g o) := by
  have hknows := h.knows g
  cases hpc : (s.gs g).pc with
  | idle => rw [hpc] at hnext; cases hnext
  | allocCas size head => exact counted_allocCas h hops hg hpc hnext hex
  | allocSlot size head => exact counted_allocSlot h hg hpc hnext hex
  | freeStore buf => exact counted_freeStore h hg hpc hnext hex
  | freeTail => exact counted_freeTail h hops hg hpc hnext hex
  | allocTail size head =>
    rw [hpc] at hnext hknows
    simp only [Pc.next] at hnext
    split at hnext
    · cases hnext
      refine h.quiet hg hex rfl rfl rfl rfl trivial (Nat.zero_le _) ?_
      rw [hpc]
      show 0 + ops ≤ 1 + ops
      omega
    · next hne =>
      cases hnext
      exact h.quiet hg hex rfl rfl rfl rfl ⟨hknows, h.notFull hops hne⟩ (Nat.zero_le _)
        (by rw [hpc]; exact Nat.le_refl _)
  | allocGet size =>
    rw [hpc] at hnext
    unfold Pc.next at hnext
    rcases s.pool.getFallback_cases s.heap with ⟨i, buf, pool, -, -, heq⟩ | ⟨pool, -, heq⟩
    all_goals
      simp only [heq, Option.some.injEq] at hnext
      subst hnext
      exact h.quiet hg hex rfl rfl rfl rfl trivial (Nat.zero_le _)
        (by rw [hpc]; exact Nat.le_refl _)
  | freeClear buf =>
    rw [hpc] at hnext hknows
    cases hnext
    exact h.quiet hg hex rfl rfl rfl rfl hknows (Nat.zero_le _) (by rw [hpc]; exact Nat.le_refl _)
  | allocHead size | allocFallback size | putClear buf | putFallback buf =>
    rw [hpc] at hnext
    cases hnext
    refine h.quiet hg hex rfl rfl rfl rfl ?_ (Nat.zero_le _) (by rw [hpc]; exact Nat.le_refl _)
    first | exact Nat.le_refl _ | trivial

theorem counted_callAlloc (h : Counted S ops s) (hg : g ∈ S) (hpc : (s.gs g).pc = .idle)
    {size : Int} (hex : Exclusive (s.callAlloc g size).live (s.callAlloc g size).own) :
    Counted S (ops + 1) (s.callAlloc g size) := by
  unfold callAlloc at hex ⊢
  simp only at hex ⊢
  split at hex
  · next hsize =>
    rw [if_pos hsize]
    exact h.quiet hg hex rfl rfl rfl rfl trivial (Nat.zero_le _) (by rw [hpc]; exact Nat.le_succ _)
  · next hsize =>
    rw [if_neg hsize]
    split at hex
    · next hbig =>
      rw [if_pos hbig]
      exact h.quiet hg hex rfl rfl rfl rfl trivial (Nat.zero_le _)
        (by rw [hpc]; exact Nat.le_succ _)
    · next hbig =>
      rw [if_neg hbig]
      refine h.quiet hg hex rfl rfl rfl rfl trivial (Nat.zero_le _) ?_
      rw [hpc]
      show 1 + ops ≤ 0 + (ops + 1)
      omega

theorem counted_callFree (h : Counted S ops s) (hg : g ∈ S) (hpc : (s.gs g).pc = .idle) {i : Nat}
    {buf : Slice} (hex : Exclusive (s.callFree g i buf).live (s.callFree g i buf).own) :
    Counted S (ops + 1) (s.callFree g i buf) := by
  refine h.quiet hg hex rfl rfl rfl rfl ?_ ?_ ?_
  · show (freePc s.pool.toRing buf).Knows _
    unfold freePc
    split
    · next hring => exact hring
    · split <;> trivial
  · show (freePc s.pool.toRing buf).passed ≤ _
    unfold freePc
    split
    · exact Nat.zero_le _
    · split <;> exact Nat.zero_le _
  · rw [hpc]
    show (freePc s.pool.toRing buf).owed + ops ≤ 0 + (ops + 1)
    unfold freePc
    split
    · show 1 + ops ≤ _
      omega
    · split
      · show 0 + ops ≤ _
        omega
      · show 0 + ops ≤ _
        omega

theorem handOver_pc {i g' : Nat} {buf : Slice} (k : Nat) :
    ((s.handOver g i g' buf).gs k).pc = (s.gs k).pc := by
  unfold handOver setG
  by_cases hk' : k = g'
  · subst hk'
    simp only [Function.update_self]
    by_cases hk : k = g
    · subst hk; simp only [Function.update_self]
    · simp only [Function.update_of_ne hk]
  · simp only [Function.update_of_ne hk']
    by_cases hk : k = g
    · subst hk; simp only [Function.update_self]
    · simp only [Function.update_of_ne hk]

/-- **Every step keeps the account.** -/
theorem counted_step {act : Act} (h : Counted S ops s) (hops : ops < 2 ^ 64)
    (hg : act.goroutine ∈ S) (hstep : s.step act = some s') :
    Counted S (ops + calls [act]) s' := by
  have hex := exclusive_step h.exclusive hstep
  cases act with
  | alloc g size =>
    obtain ⟨hpc, rfl⟩ := step_alloc hstep
    exact counted_callAlloc h hg hpc hex
  | free g i =>
    obtain ⟨hpc, buf, -, rfl⟩ := step_free hstep
    exact counted_callFree h hg hpc hex
  | tick g =>
    obtain ⟨o, hnext, rfl⟩ := Option.map_eq_some_iff.mp hstep
    exact counted_tick h hops hg hnext hex
  | give g i g' =>
    obtain ⟨buf, -, rfl⟩ := Option.map_eq_some_iff.mp hstep
    exact h.stay hex rfl handOver_pc
  | write g i bytes =>
    obtain ⟨buf, -, hwrite⟩ := Option.bind_eq_some_iff.mp hstep
    split at hwrite
    · cases hwrite
      exact h.stay hex rfl fun _ => rfl
    · cases hwrite

/-! ## Whole runs -/

/-- The account, with room for the calls of the actions that are still to come. -/
structure CountedFor (s : Machine) (S : Finset Nat) (acts : List Act) : Prop where
  mem : ∀ a ∈ acts, a.goroutine ∈ S
  counted : ∃ ops, Counted S ops s ∧ ops + calls acts < 2 ^ 64

theorem countedFor_init {pool : RingBufferPool} {heap : Heap} (hnew : pool.New heap)
    {acts : List Act} (hcalls : calls acts < 2 ^ 64) :
    (init pool heap).CountedFor (acts.map Act.goroutine).toFinset acts := by
  refine ⟨fun a ha => List.mem_toFinset.mpr (List.mem_map_of_mem ha), 0, counted_init hnew, ?_⟩
  rwa [Nat.zero_add]

theorem countedFor_step {act : Act} {acts : List Act} (h : s.CountedFor S (act :: acts))
    (hstep : s.step act = some s') : s'.CountedFor S acts := by
  obtain ⟨ops, hcounted, hops⟩ := h.counted
  rw [calls_cons] at hops
  exact ⟨fun b hb => h.mem b (List.mem_cons_of_mem act hb), ops + calls [act],
    counted_step hcounted (by omega) (h.mem act List.mem_cons_self) hstep, by omega⟩

/--
**In every run of any number of goroutines with less than `2 ^ 64` calls, `tail` is at most `head`
and `head` at most `tail + capacity`, in every state.**
-/
theorem counters_in_order {bufferSize : Int} {capacity : UInt64} {pick : Nat → Option Nat}
    {h heap : Heap} {pool : RingBufferPool}
    (hnew : newRingBufferPool bufferSize capacity pick h = .ok (pool, heap)) {acts : List Act}
    (hcalls : calls acts < 2 ^ 64) :
    EachState step CountersInOrder (init pool heap) acts := by
  refine eachState_of_remaining
    (I := fun s as => s.CountedFor (acts.map Act.goroutine).toFinset as)
    (fun _ _ _ _ hs hstep => countedFor_step hs hstep) (fun _ _ hs => ?_)
    (countedFor_init (newRingBufferPool_new hnew) hcalls)
  obtain ⟨ops, hcounted, -⟩ := hs.counted
  exact hcounted.inOrder

/--
Three goroutines on a ring of two buffers: the second loads `tail` before the first takes a slot,
the third loses the race for `head` and finds the ring full.
-/
theorem counters_three_goroutines :
    ∃ pool heap, newRingBufferPool 8 2 (fun _ => none) ⟨0, fun _ => []⟩ = .ok (pool, heap) ∧
      EachState step CountersInOrder (init pool heap)
        ([.alloc 0 8, .alloc 1 8, .alloc 2 8] ++
          [0, 1, 0, 1, 2, 2, 0, 1, 0, 1, 2, 2, 2, 2].map .tick ++
          [.free 0 0] ++ [0, 0, 0].map .tick) := by
  have hnew : newRingBufferPool 8 2 (fun _ => none) ⟨0, fun _ => []⟩ = .ok (_, _) := rfl
  exact ⟨_, _, hnew, counters_in_order hnew (by decide)⟩

end Machine

end FabricaNet.Ringpool
