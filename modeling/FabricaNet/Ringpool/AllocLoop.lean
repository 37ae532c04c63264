import FabricaNet.Lib.Word
import FabricaNet.Ringpool.Config
import FabricaNet.Ringpool.Counters

/-!
# The retry loop of `Alloc`

`Alloc` goes from one position of `head` to the next until it meets an available slot or the ring
counts as full.

* `mask_indexing` — the slot of a position is its remainder by the capacity, and as many
  consecutive positions as there are slots meet every slot once, also where `head` wraps
* `alloc_returns` — from any slot states, the loop ends before `head` passes `tail + capacity`;
  `ticks_allocLoop` has counted its steps
-/

namespace FabricaNet.Ringpool

open Go Lib

/-! ## Slots of positions -/

namespace Ring

variable (r : Ring)

theorem capacity_isPowerOfTwo : r.capacity.toNat.isPowerOfTwo := by
  rw [isPowerOfTwo_iff]
  rintro (h0 | hne)
  · exact absurd h0 (UInt64.pos_iff_ne_zero.mp r.capacity_pos)
  · exact hne r.capacity_pow

theorem and_mask_eq_mod (head : UInt64) : head &&& r.mask = head % r.capacity := by
  refine UInt64.toNat_inj.mp ?_
  rw [r.mask_eq, toNat_and_sub_one r.capacity_isPowerOfTwo, UInt64.toNat_mod]

/-- **As many consecutive positions as there are slots meet every slot once.** -/
theorem existsUnique_slotOf (start : UInt64) (slot : Fin r.capacity.toNat) :
    ∃! i, i < r.capacity.toNat ∧ r.slotOf (start + UInt64.ofNat i) = slot := by
  have hdvd := dvd_two_pow r.capacity_isPowerOfTwo (UInt64.toNat_lt r.capacity).le
  have hslot (i : Nat) : r.slotOf (start + UInt64.ofNat i) = slot ↔
      (start.toNat + i) % 2 ^ 64 % r.capacity.toNat = slot := by
    rw [Fin.ext_iff]
    show ((start + UInt64.ofNat i) &&& r.mask).toNat = _ ↔ _
    rw [and_mask_eq_mod, UInt64.toNat_mod, UInt64.toNat_add, UInt64.toNat_ofNat', Nat.add_mod_mod]
  simp only [hslot]
  exact existsUnique_position hdvd start.toNat slot.isLt

end Ring

/--
**Exactly the powers of two are accepted as capacities. Then `head & mask` is `head` modulo the
capacity, an index of `buffers` and of `slotStates`, and any `capacity` consecutive values of `head`
visit every slot exactly once.** The values `start + i` wrap at `2 ^ 64`.
-/
theorem mask_indexing (bufferSize : Int) (capacity : UInt64) (pick : Nat → Option Nat)
    (h : Heap) :
    ((∃ pool heap, newRingBufferPool bufferSize capacity pick h = .ok (pool, heap)) ↔
      0 < bufferSize ∧ capacity.toNat.isPowerOfTwo) ∧
    ∀ pool heap, newRingBufferPool bufferSize capacity pick h = .ok (pool, heap) →
      (∀ head, head &&& pool.mask = head % capacity ∧
        (head &&& pool.mask).toNat < pool.buffers.toList.length ∧
        (head &&& pool.mask).toNat < pool.slotStates.toList.length) ∧
      ∀ start : UInt64, ∀ slot < capacity.toNat,
        ∃! i, i < capacity.toNat ∧ ((start + UInt64.ofNat i) &&& pool.mask).toNat = slot := by
  refine ⟨newRingBufferPool_ok_iff bufferSize capacity pick h, fun pool heap hok => ?_⟩
  obtain rfl : pool.capacity = capacity := newRingBufferPool_capacity hok
  refine ⟨fun head => ⟨pool.and_mask_eq_mod head, ?_, ?_⟩, fun start slot hslot => ?_⟩
  · rw [Vector.length_toList]
    exact pool.and_mask_lt head
  · rw [Vector.length_toList]
    exact pool.and_mask_lt head
  · obtain ⟨i, ⟨hi, heq⟩, huniq⟩ := pool.existsUnique_slotOf start ⟨slot, hslot⟩
    exact ⟨i, ⟨hi, congrArg Fin.val heq⟩, fun j hj => huniq j ⟨hj.1, Fin.ext hj.2⟩⟩

/-- Four slots, from the last but one value of `head` over the wrap to 0 and 1. -/
theorem mask_indexing_wraps :
    ∃ pool heap, newRingBufferPool 8 4 (fun _ => none) ⟨0, fun _ => []⟩ = .ok (pool, heap) ∧
      (0xfffffffffffffffe + UInt64.ofNat 3 : UInt64) = 1 ∧
      ∀ slot < 4, ∃! i, i < 4 ∧
        ((0xfffffffffffffffe + UInt64.ofNat i) &&& pool.mask).toNat = slot := by
  have hnew : newRingBufferPool 8 4 (fun _ => none) ⟨0, fun _ => []⟩ = .ok (_, _) := rfl
  have hslots := ((mask_indexing 8 4 (fun _ => none) ⟨0, fun _ => []⟩).2 _ _ hnew).2
  exact ⟨_, _, hnew, by decide, hslots 0xfffffffffffffffe⟩

/-! ## What the loop returns -/

namespace RingBufferPool

/-- From `p` to `p'` a slot has been taken: its state was 0 and is 1, and `buf` is its buffer. -/
def TookSlot (p p' : RingBufferPool) (size : Nat) (buf : Slice) : Prop :=
  ∃ i : Fin p.capacity.toNat, p.slotStates.get i = 0 ∧
    p'.slotStates.toList = p.slotStates.toList.set i 1 ∧
    buf = { p.buffers.get i with len := size }

/-- From `p` to `p'` no slot has changed, and `buf` is from the fallback pool or new. -/
def TookFallback (p p' : RingBufferPool) (h : Heap) (size : Nat) (buf : Slice) : Prop :=
  p'.slotStates.toList = p.slotStates.toList ∧
    ((∃ x ∈ p.fallbackPool.items, buf = { x with len := size }) ∨
      buf = { (h.make p.bufferSize).1 with len := size })

theorem allocLoop_took (size : Nat) (p : RingBufferPool) (h : Heap) :
    p.TookSlot (allocLoop size p h).2.1 size (allocLoop size p h).1 ∨
      p.TookFallback (allocLoop size p h).2.1 h size (allocLoop size p h).1 := by
  rcases allocLoop_cases size p h with ⟨j, -, -, hfree, heq⟩ | ⟨-, heq⟩
  · left
    rw [heq]
    exact ⟨p.slotOf (p.head + UInt64.ofNat j), hfree, Vector.toList_set (Ring.slotOf ..).isLt, rfl⟩
  · right
    rw [heq]
    unfold allocFallback
    rcases getFallback_cases { p.advance p.room with
        fallbackCount := (p.advance p.room).fallbackCount + 1 } h with
      ⟨i, buf, pool, hbuf, -, hget⟩ | ⟨pool, -, hget⟩
    · rw [hget]
      exact ⟨rfl, Or.inl ⟨buf, List.mem_of_getElem? hbuf, rfl⟩⟩
    · rw [hget]
      exact ⟨rfl, Or.inr rfl⟩

theorem allocLoop_tail (size : Nat) (p : RingBufferPool) (h : Heap) :
    (allocLoop size p h).2.1.tail = p.tail := by
  rcases allocLoop_cases size p h with ⟨j, -, -, -, heq⟩ | ⟨-, heq⟩
  · rw [heq]
    rfl
  · rw [heq]
    exact (getFallback_counters ..).2

end RingBufferPool

/-! ## A call of `Alloc` -/

namespace Machine

variable {s : Machine} {g : Nat} {size : Int}

/-- The room in the ring as a number. -/
theorem CountersInOrder.room_eq (h : s.CountersInOrder) :
    s.pool.room = s.pool.tail.toNat + s.pool.capacity.toNat - s.pool.head.toNat := by
  have hcap := s.pool.capacity_le
  have hhead := UInt64.toNat_lt s.pool.head
  have htail := UInt64.toNat_lt s.pool.tail
  obtain ⟨hle, hge⟩ := h
  unfold RingBufferPool.room
  rw [UInt64.toNat_sub, UInt64.toNat_add]
  omega

/-- Moving `head` within the room keeps it at most `capacity` ahead of `tail`. -/
theorem CountersInOrder.head_le (h : s.CountersInOrder) {p : RingBufferPool} {k : Nat}
    (hk : k ≤ s.pool.room) (hring : p.toRing = s.pool.toRing) (htail : p.tail = s.pool.tail)
    (hhead : p.head = s.pool.head + UInt64.ofNat k) :
    p.head.toNat ≤ p.tail.toNat + p.capacity.toNat ∧ p.head - p.tail ≤ p.capacity := by
  have hcap := s.pool.capacity_le
  have hlt := UInt64.toNat_lt s.pool.head
  have hlt' := UInt64.toNat_lt s.pool.tail
  rw [h.room_eq] at hk
  obtain ⟨hle, hge⟩ := h
  rw [hring, htail, hhead, UInt64.le_iff_toNat_le, UInt64.toNat_sub, UInt64.toNat_add,
    UInt64.toNat_ofNat']
  omega

/--
**From counters in order and any slot states, `Alloc` without interference returns after moving
`head` at most `tail + capacity - head` times: with a slot whose state was 0 and is 1 now, or with a
fallback buffer. `head` is then at most `tail + capacity`, and no other slot has changed.**
-/
theorem alloc_returns (hidle : (s.gs g).pc = .idle) (horder : s.CountersInOrder)
    (hpos : 0 < size) (hsize : size ≤ s.pool.bufferSize) :
    ∃ n s' buf,
      run step s (.alloc g size :: List.replicate n (.tick g)) = some s' ∧
      s'.gs = Function.update s.gs g { pc := .idle, held := buf :: (s.gs g).held } ∧
      s.headAdvances (.alloc g size :: List.replicate n (.tick g)) ≤
        s.pool.tail.toNat + s.pool.capacity.toNat - s.pool.head.toNat ∧
      n ≤ 4 * s.headAdvances (.alloc g size :: List.replicate n (.tick g)) + 4 ∧
      s'.pool.toRing = s.pool.toRing ∧ s'.pool.tail = s.pool.tail ∧
      s'.pool.head.toNat ≤ s'.pool.tail.toNat + s'.pool.capacity.toNat ∧
      s'.pool.head - s'.pool.tail ≤ s'.pool.capacity ∧
      (s.pool.TookSlot s'.pool size.toNat buf ∨
        s.pool.TookFallback s'.pool s.heap size.toNat buf) := by
  -- the pool that the loop starts from
  let p : RingBufferPool := { s.pool with allocCount := s.pool.allocCount + 1 }
  have hcall : s.step (.alloc g size) =
      some (focus s.gs g p s.heap (.allocHead size.toNat) (s.gs g).held) := by
    simp only [step, hidle, callAlloc]
    rw [if_neg (by omega), if_neg (by show ¬size > s.pool.bufferSize; omega)]
    rfl
  obtain ⟨n, k, hticks, hn, hk, hhead⟩ :=
    ticks_allocLoop s.gs g (s.gs g).held size.toNat p s.heap
  have hadv : s.headAdvances (.alloc g size :: List.replicate n (.tick g)) = k := by
    rw [← hticks.advances_eq]
    exact countSteps_cons_of_neg hcall (not_not.mpr rfl)
  have hring := RingBufferPool.allocLoop_toRing size.toNat p s.heap
  have htail := RingBufferPool.allocLoop_tail size.toNat p s.heap
  have htook := RingBufferPool.allocLoop_took size.toNat p s.heap
  generalize RingBufferPool.allocLoop size.toNat p s.heap = r at *
  obtain ⟨buf, pool, heap⟩ := r
  obtain ⟨hle, hdist⟩ := horder.head_le hk hring htail hhead
  refine ⟨n, focus s.gs g pool heap .idle (buf :: (s.gs g).held), buf, ?_, rfl, ?_, ?_, hring,
    htail, hle, hdist, htook⟩
  · rw [run_cons, hcall]
    exact hticks.run_eq
  · rw [hadv, ← horder.room_eq]
    exact hk
  · rw [hadv]
    exact hn

/-- A ring of two buffers whose first slot is busy, and `head` at that slot. -/
theorem alloc_returns_first_slot_busy :
    ∃ s : Machine, (s.gs 0).pc = .idle ∧ s.CountersInOrder ∧ (8 : Int) ≤ s.pool.bufferSize ∧
      s.pool.slotStates.toList = [1, 0] ∧
      ∃ n s' buf, run step s (.alloc 0 8 :: List.replicate n (.tick 0)) = some s' ∧
        s.headAdvances (.alloc 0 8 :: List.replicate n (.tick 0)) ≤ 2 ∧
        (s.pool.TookSlot s'.pool 8 buf ∨ s.pool.TookFallback s'.pool s.heap 8 buf) := by
  let heap : Heap := ⟨0, fun _ => []⟩
  let pool := buildPool 8 2 (fun _ => none) heap (by decide) (by decide) (by decide)
  let s := init (pool.setSlot ⟨0, by decide⟩ 1) heap
  have horder : s.CountersInOrder := ⟨by decide, by decide⟩
  obtain ⟨n, s', buf, hrun, -, hadv, -, -, -, -, -, htook⟩ :=
    alloc_returns (g := 0) rfl horder (show (0 : Int) < 8 by decide) (by decide)
  exact ⟨s, rfl, horder, by decide, by decide, n, s', buf, hrun, hadv, htook⟩

end Machine

end FabricaNet.Ringpool
