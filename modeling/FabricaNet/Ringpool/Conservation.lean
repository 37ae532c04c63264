import Mathlib.Data.List.Perm.Basic
import FabricaNet.Lib.Run
import FabricaNet.Ringpool.Pool

/-!
# Conservation of ring buffers

Runs of `Alloc` and `Free` by one caller at a time, where a buffer is freed at most once for each
time it was allocated. `available` counts from `head` and `tail`, the callers count buffers.

The two counts agree as long as `Alloc` never meets a busy slot while buffers are left. When it
does, it moves `head` past that slot without taking a buffer, and no later `Free` undoes this:
each `Free` moves `tail` by one for one buffer.

`EachStep` over a run gives the exact condition (`conserved_iff`).
-/

namespace FabricaNet.Ringpool

open Go Lib

/-! ## Runs -/

/-- A pool, the heap, and the buffers that have been allocated and not freed. -/
structure Use where
  pool : RingBufferPool
  heap : Heap
  held : List Slice

inductive UseOp where
  | alloc (size : Int)
  /-- frees the `i`-th of the held buffers -/
  | free (i : Nat)

namespace Use

/-- One call. Only a held buffer can be freed. -/
def step (s : Use) : UseOp → Option Use
  | .alloc size =>
    let (buf, pool, heap) := s.pool.alloc s.heap size
    some { pool := pool, heap := heap, held := buf :: s.held }
  | .free i =>
    s.held[i]?.map fun buf =>
      let (pool, heap) := s.pool.free s.heap buf
      { pool := pool, heap := heap, held := s.held.eraseIdx i }

/-- The number of ring buffers that are handed out. -/
def handedOut (s : Use) : Nat := s.held.countP s.pool.isRingBuffer

/-- What `available` reports is the capacity without the ring buffers that are handed out. -/
def Conserved (s : Use) : Prop := s.pool.available.toNat + s.handedOut = s.pool.capacity.toNat

/-- The sizes that a ring buffer holds. -/
def InRange (s : Use) (size : Int) : Prop := 1 ≤ size ∧ size ≤ s.pool.bufferSize

/-- `Alloc` of a size in range resorts to the fallback pool only when no ring buffer is left. -/
def FallbackOnlyWhenFull (s : Use) (op : UseOp) (s' : Use) : Prop :=
  ∀ size, op = .alloc size → s.InRange size →
    s'.pool.fallbackCount ≠ s.pool.fallbackCount → s.handedOut = s.pool.capacity.toNat

/-- `Alloc` finds the slot at `head` available, unless every ring buffer is handed out. -/
def HeadSlotFree (s : Use) (op : UseOp) : Prop :=
  ∀ size, op = .alloc size → s.InRange size → s.handedOut < s.pool.capacity.toNat →
    s.pool.stateAt s.pool.head = 0

instance (s : Use) (size : Int) : Decidable (s.InRange size) := instDecidableAnd

instance (s : Use) : ∀ op, Decidable (s.HeadSlotFree op)
  | .free _ => isTrue fun _ hop => nomatch hop
  | .alloc size =>
    decidable_of_iff
      (s.InRange size → s.handedOut < s.pool.capacity.toNat → s.pool.stateAt s.pool.head = 0)
      ⟨fun h size' hop => by cases hop; exact h, fun h => h size rfl⟩

end Use

namespace RingBufferPool

/-! ## The distance between `head` and `tail` -/

/-- How far `head` is ahead of `tail`. -/
def spent (p : RingBufferPool) : Nat := (p.head - p.tail).toNat

theorem spent_new {p : RingBufferPool} {h : Heap} (hnew : p.New h) : p.spent = 0 := by
  unfold spent
  rw [hnew.head_eq, hnew.tail_eq]
  decide

theorem spent_le_iff {p : RingBufferPool} :
    p.spent ≤ p.capacity.toNat ↔ p.head - p.tail ≤ p.capacity := UInt64.le_iff_toNat_le.symm

theorem available_toNat {p : RingBufferPool} (h : p.spent ≤ p.capacity.toNat) :
    p.available.toNat = p.capacity.toNat - p.spent :=
  UInt64.toNat_sub_of_le _ _ (spent_le_iff.mp h)

theorem room_eq {p : RingBufferPool} (h : p.spent ≤ p.capacity.toNat) :
    p.room = p.capacity.toNat - p.spent := by
  have : p.tail + p.capacity - p.head = p.capacity - (p.head - p.tail) := by
    simp only [UInt64.sub_eq_add_neg, UInt64.neg_add, UInt64.neg_neg]
    rw [UInt64.add_comm p.tail, UInt64.add_assoc, UInt64.add_comm p.tail]
  unfold room
  rw [this]
  exact available_toNat h

theorem spent_advance {p : RingBufferPool} {n : Nat} (h : p.spent + n ≤ p.capacity.toNat) :
    (p.advance n).spent = p.spent + n := by
  have hlt : p.spent + n < 2 ^ 64 := Nat.lt_of_le_of_lt h (UInt64.toNat_lt _)
  have hsub : (p.advance n).head - (p.advance n).tail = (p.head - p.tail) + UInt64.ofNat n := by
    show p.head + UInt64.ofNat n - p.tail = _
    simp only [UInt64.sub_eq_add_neg]
    rw [UInt64.add_assoc, UInt64.add_assoc, UInt64.add_comm (UInt64.ofNat n)]
  have hn : (UInt64.ofNat n).toNat = n :=
    UInt64.toNat_ofNat_of_lt' (Nat.lt_of_le_of_lt (Nat.le_add_left n _) hlt)
  unfold spent at hlt ⊢
  rw [hsub, UInt64.toNat_add, hn, Nat.mod_eq_of_lt hlt]

/-- `tail.Add(1)` brings `tail` one step closer to `head`. -/
theorem spent_tail {p : RingBufferPool} (h : 0 < p.spent) :
    { p with tail := p.tail + 1 }.spent + 1 = p.spent := by
  refine toNat_sub_succ fun he => ?_
  unfold spent at h
  rw [he, UInt64.sub_self] at h
  exact absurd h (by decide)

/-! ## The outcomes of the calls -/

theorem alloc_of_out_of_range {p : RingBufferPool} (h : Heap) {size : Int}
    (hsize : ¬(1 ≤ size ∧ size ≤ p.bufferSize)) :
    ∃ n ≠ p.bufferSize, p.alloc h size =
      ((h.make n).1, { p with allocCount := p.allocCount + 1 }, (h.make n).2) := by
  have hpos := p.bufferSize_pos
  unfold alloc
  simp only
  split
  · exact ⟨0, by omega, rfl⟩
  · split
    · exact ⟨size.toNat, by omega, rfl⟩
    · omega

theorem alloc_of_in_range {p : RingBufferPool} (h : Heap) {size : Int}
    (hsize : 1 ≤ size ∧ size ≤ p.bufferSize) :
    p.alloc h size = allocLoop size.toNat { p with allocCount := p.allocCount + 1 } h := by
  unfold alloc
  simp only
  rw [if_neg (by omega), if_neg (by omega)]

/-- A fallback buffer was pooled or is new; nothing else enters the fallback pool. -/
theorem allocFallback_spec (size : Nat) (p : RingBufferPool) (h : Heap) :
    ∃ buf pool heap,
      allocFallback size p h = ({ buf with len := size },
        { p with fallbackPool := pool, fallbackCount := p.fallbackCount + 1 }, heap) ∧
      h.next ≤ heap.next ∧ (∀ b ∈ pool.items, b ∈ p.fallbackPool.items) ∧
      (buf ∈ p.fallbackPool.items ∨ buf.ptr = h.next) := by
  unfold allocFallback
  rcases getFallback_cases { p with fallbackCount := p.fallbackCount + 1 } h with
    ⟨i, buf, pool, hbuf, hitems, heq⟩ | ⟨pool, hitems, heq⟩
  · refine ⟨buf, pool, h, by rw [heq], Nat.le_refl _, fun b hb => ?_,
      Or.inl (List.mem_of_getElem? hbuf)⟩
    rw [hitems] at hb
    exact List.mem_of_mem_eraseIdx hb
  · refine ⟨(h.make p.bufferSize).1, pool, (h.make p.bufferSize).2, by rw [heq], Nat.le_succ _,
      fun b hb => ?_, Or.inr rfl⟩
    rwa [hitems] at hb

theorem free_ring {p : RingBufferPool} (h : Heap) {buf : Slice} (hbuf : p.isRingBuffer buf = true) :
    ∃ states, p.free h buf =
      ({ p with freeCount := p.freeCount + 1, slotStates := states, tail := p.tail + 1 },
        h.clear buf) := by
  unfold free
  simp only
  rw [if_pos hbuf]
  unfold releaseSlot
  split <;> exact ⟨_, rfl⟩

theorem free_other {p : RingBufferPool} (h : Heap) {buf : Slice}
    (hbuf : p.isRingBuffer buf = false) :
    ∃ items heap, p.free h buf =
      ({ p with freeCount := p.freeCount + 1, fallbackPool := { p.fallbackPool with items } },
        heap) ∧
      heap.next = h.next ∧
      ∀ b ∈ items, b ∈ p.fallbackPool.items ∨ b = { buf with len := p.bufferSize } := by
  unfold free
  simp only
  rw [if_neg (by rw [hbuf]; decide)]
  split
  · refine ⟨_, _, rfl, rfl, fun b hb => ?_⟩
    rcases List.mem_cons.mp hb with rfl | hb
    · exact Or.inr rfl
    · exact Or.inl hb
  · exact ⟨p.fallbackPool.items, h, rfl, rfl, fun b hb => Or.inl hb⟩

end RingBufferPool

namespace Use

variable {s s' : Use}

/-! ## The invariant -/

/-- Fallback buffers are never ring buffers. -/
structure Separate (s : Use) : Prop where
  fallback_not_ring : ∀ buf ∈ s.pool.fallbackPool.items, s.pool.isRingBuffer buf = false
  ring_lt_next : ∀ buf, s.pool.isRingBuffer buf = true → buf.ptr < s.heap.next

/-- `head` is ahead of `tail` by the number of ring buffers that are handed out. -/
structure Inv (s : Use) : Prop extends Separate s where
  spent_eq : s.pool.spent = s.handedOut
  spent_le : s.pool.spent ≤ s.pool.capacity.toNat

theorem conserved_iff_spent (h : s.pool.spent ≤ s.pool.capacity.toNat) :
    s.Conserved ↔ s.pool.spent = s.handedOut := by
  unfold Conserved
  rw [RingBufferPool.available_toNat h]
  omega

theorem Inv.conserved (h : Inv s) : s.Conserved := (conserved_iff_spent h.spent_le).mpr h.spent_eq

theorem inv_new {pool : RingBufferPool} {heap : Heap} (hnew : pool.New heap) :
    Inv ⟨pool, heap, []⟩ := by
  have hspent := RingBufferPool.spent_new hnew
  refine ⟨⟨fun buf hbuf => ?_, fun buf hbuf => ?_⟩, hspent, hspent.trans_le (Nat.zero_le _)⟩
  · rw [show Use.pool _ = pool from rfl, hnew.fallback_empty] at hbuf
    exact absurd hbuf List.not_mem_nil
  · obtain ⟨-, i, hi⟩ := Ring.isRingBuffer_iff.mp hbuf
    exact hi.symm.trans_lt (hnew.ring_lt_next i)

/-! ## One call -/

theorem handedOut_cons_ring {pool : RingBufferPool} {heap : Heap} {held : List Slice} {buf : Slice}
    (h : pool.isRingBuffer buf = true) :
    (Use.mk pool heap (buf :: held)).handedOut = (Use.mk pool heap held).handedOut + 1 :=
  List.countP_cons_of_pos h

theorem handedOut_cons_other {pool : RingBufferPool} {heap : Heap} {held : List Slice}
    {buf : Slice} (h : pool.isRingBuffer buf = false) :
    (Use.mk pool heap (buf :: held)).handedOut = (Use.mk pool heap held).handedOut :=
  List.countP_cons_of_neg (by rw [h]; decide)

/-- A call that moves neither `head` nor `tail` and hands out no ring buffer. -/
structure LeavesRing (s s' : Use) : Prop where
  separate : Separate s'
  ring : s'.pool.toRing = s.pool.toRing
  spent : s'.pool.spent = s.pool.spent
  handedOut : s'.handedOut = s.handedOut

theorem LeavesRing.inv (h : LeavesRing s s') (hinv : Inv s) : Inv s' where
  toSeparate := h.separate
  spent_eq := by rw [h.spent, h.handedOut, hinv.spent_eq]
  spent_le := by rw [h.spent, h.ring]; exact hinv.spent_le

/-- An allocation out of range touches neither the ring nor the fallback pool. -/
theorem step_alloc_out_of_range {size : Int} (hsep : Separate s) (hsize : ¬s.InRange size)
    (hstep : s.step (.alloc size) = some s') : LeavesRing s s' := by
  obtain ⟨n, hn, halloc⟩ := RingBufferPool.alloc_of_out_of_range s.heap hsize
  unfold step at hstep
  simp only [halloc] at hstep
  cases hstep
  refine ⟨⟨hsep.fallback_not_ring, fun buf hbuf => ?_⟩, rfl, rfl, ?_⟩
  · exact Nat.lt_succ_of_lt (hsep.ring_lt_next buf hbuf)
  · exact handedOut_cons_other (Ring.isRingBuffer_of_cap hn)

/-- The outcome of an allocation in range: a slot after `j` busy ones, or a fallback buffer. -/
inductive AllocOutcome (s s' : Use) : Prop where
  | slot (j : Nat) (room : s.pool.spent + j < s.pool.capacity.toNat)
      (before : ∀ i < j, s.pool.stateAfter i ≠ 0) (free : s.pool.stateAfter j = 0)
      (spent : s'.pool.spent = s.pool.spent + (j + 1))
      (handedOut : s'.handedOut = s.handedOut + 1)
      (fallbackCount : s'.pool.fallbackCount = s.pool.fallbackCount)
  | fallback (busy : ∀ i, s.pool.spent + i < s.pool.capacity.toNat → s.pool.stateAfter i ≠ 0)
      (spent : s'.pool.spent = s.pool.capacity.toNat)
      (handedOut : s'.handedOut = s.handedOut)
      (fallbackCount : s'.pool.fallbackCount = s.pool.fallbackCount + 1)

theorem step_alloc_in_range {size : Int} (hsep : Separate s)
    (hle : s.pool.spent ≤ s.pool.capacity.toNat) (hsize : s.InRange size)
    (hstep : s.step (.alloc size) = some s') :
    Separate s' ∧ s'.pool.toRing = s.pool.toRing ∧ s'.pool.spent ≤ s.pool.capacity.toNat ∧
      AllocOutcome s s' := by
  have halloc := RingBufferPool.alloc_of_in_range s.heap hsize
  unfold step at hstep
  simp only [halloc] at hstep
  have hroom : RingBufferPool.room { s.pool with allocCount := s.pool.allocCount + 1 } =
      s.pool.capacity.toNat - s.pool.spent := RingBufferPool.room_eq hle
  rcases RingBufferPool.allocLoop_cases size.toNat
    { s.pool with allocCount := s.pool.allocCount + 1 } s.heap with
    ⟨j, hj, hbefore, hfree, heq⟩ | ⟨hbusy, heq⟩
  · rw [hroom] at hj
    have hspent := RingBufferPool.spent_advance (p := s.pool) (n := j + 1) (by omega)
    rw [← RingBufferPool.advance_advance] at hspent
    have hle' : ((s.pool.advance j).advance 1).spent ≤ s.pool.capacity.toNat := by omega
    rw [heq] at hstep
    cases hstep
    exact ⟨⟨hsep.fallback_not_ring, hsep.ring_lt_next⟩, rfl, hle',
      .slot j (by omega) hbefore hfree hspent
        (handedOut_cons_ring (s.pool.isRingBuffer_buffers _)) rfl⟩
  · rw [hroom] at hbusy heq
    obtain ⟨buf, pool, heap, hfall, hnext, hitems, hbuf⟩ := RingBufferPool.allocFallback_spec
      size.toNat (RingBufferPool.advance { s.pool with allocCount := s.pool.allocCount + 1 }
        (s.pool.capacity.toNat - s.pool.spent)) s.heap
    have hspent := RingBufferPool.spent_advance (p := s.pool)
      (n := s.pool.capacity.toNat - s.pool.spent) (by omega)
    rw [Nat.add_sub_cancel' hle] at hspent
    have hother : s.pool.isRingBuffer { buf with len := size.toNat } = false := by
      rcases hbuf with hbuf | hbuf
      · exact hsep.fallback_not_ring buf hbuf
      · by_contra hring
        rw [Bool.not_eq_false] at hring
        exact absurd (hsep.ring_lt_next _ hring) (by rw [hbuf]; exact Nat.lt_irrefl _)
    rw [heq, hfall] at hstep
    cases hstep
    refine ⟨⟨fun b hb => hsep.fallback_not_ring b (hitems b hb), fun b hb => ?_⟩, rfl, hspent.le,
      .fallback (fun i hi => hbusy i (by omega)) hspent (handedOut_cons_other hother) rfl⟩
    exact Nat.lt_of_lt_of_le (hsep.ring_lt_next b hb) hnext

theorem handedOut_eraseIdx {i : Nat} {buf : Slice} (h : s.held[i]? = some buf) :
    s.handedOut = (s.held.eraseIdx i).countP s.pool.isRingBuffer +
      if s.pool.isRingBuffer buf = true then 1 else 0 := by
  obtain ⟨hi, rfl⟩ := List.getElem?_eq_some_iff.mp h
  rw [← List.countP_cons]
  exact (List.getElem_cons_eraseIdx_perm hi).countP_eq _ |>.symm

/-- `Free` of a buffer that is not of the ring. -/
theorem step_free_other {i : Nat} {buf : Slice} (hsep : Separate s) (hbuf : s.held[i]? = some buf)
    (hother : s.pool.isRingBuffer buf = false) (hstep : s.step (.free i) = some s') :
    LeavesRing s s' := by
  have hout := handedOut_eraseIdx hbuf
  obtain ⟨items, heap, hfree, hnext, hitems⟩ := RingBufferPool.free_other s.heap hother
  simp only [step, hbuf, Option.map_some, hfree] at hstep
  cases hstep
  rw [if_neg (by rw [hother]; decide)] at hout
  refine ⟨⟨fun b hb => ?_, fun b hb => ?_⟩, rfl, rfl, hout.symm⟩
  · rcases hitems b hb with hb | rfl
    · exact hsep.fallback_not_ring b hb
    · exact hother
  · exact Nat.lt_of_lt_of_eq (hsep.ring_lt_next b hb) hnext.symm

/-- `Free` moves `tail` by one for each ring buffer that comes back, in any order. -/
theorem step_free {i : Nat} (hinv : Inv s) (hstep : s.step (.free i) = some s') : Inv s' := by
  obtain ⟨buf, hbuf, hs'⟩ := Option.map_eq_some_iff.mp hstep
  have hle := hinv.spent_le
  cases hring : s.pool.isRingBuffer buf with
  | true =>
    have hout := handedOut_eraseIdx hbuf
    have hspent := hinv.spent_eq
    obtain ⟨states, hfree⟩ := RingBufferPool.free_ring s.heap hring
    simp only [hfree] at hs'
    cases hs'
    rw [if_pos hring] at hout
    have htail := RingBufferPool.spent_tail (p := s.pool) (by omega)
    refine ⟨⟨hinv.fallback_not_ring, hinv.ring_lt_next⟩, ?_, ?_⟩
    · exact Nat.add_right_cancel (htail.trans (hspent.trans hout))
    · exact Nat.le_of_lt (Nat.lt_of_lt_of_le (Nat.lt_of_lt_of_eq (Nat.lt_succ_self _) htail) hle)
  | false => exact (step_free_other hinv.toSeparate hbuf hring hstep).inv hinv

/-! ## Whole runs -/

/-- One call that keeps the counts in agreement. -/
def Conserves (s : Use) (op : UseOp) (s' : Use) : Prop :=
  s'.Conserved ∧ s.FallbackOnlyWhenFull op s'

/-- When the slot at `head` is available, `Alloc` takes it, and the counts move together. -/
theorem conserves_of_headSlotFree {op : UseOp} (hinv : Inv s) (hstep : s.step op = some s')
    (hfree : s.HeadSlotFree op) : Conserves s op s' ∧ Inv s' := by
  cases op with
  | free i =>
    have hinv' := step_free hinv hstep
    exact ⟨⟨hinv'.conserved, fun size hop => nomatch hop⟩, hinv'⟩
  | alloc size =>
    by_cases hsize : s.InRange size
    · obtain ⟨hsep, hring, hle, hout⟩ :=
        step_alloc_in_range hinv.toSeparate hinv.spent_le hsize hstep
      have hspent := hinv.spent_eq
      rw [← hring] at hle
      cases hout with
      | slot j room before _ spent handedOut fallbackCount =>
        -- `head` moves past no busy slot, so it moves by one, as `handedOut` does
        have hj : j = 0 := by
          by_contra hne
          have hlt : s.handedOut < s.pool.capacity.toNat := by omega
          refine before 0 (Nat.pos_of_ne_zero hne) ?_
          rw [RingBufferPool.stateAfter_zero]
          exact hfree size rfl hsize hlt
        have hinv' : Inv s' := ⟨hsep, by omega, hle⟩
        refine ⟨⟨hinv'.conserved, fun _ _ _ hne => absurd fallbackCount hne⟩, hinv'⟩
      | fallback busy spent handedOut _ =>
        have hfull : s.handedOut = s.pool.capacity.toNat := by
          by_contra hne
          have hlt : s.handedOut < s.pool.capacity.toNat := by
            have := hinv.spent_le
            omega
          refine busy 0 (by omega) ?_
          rw [RingBufferPool.stateAfter_zero]
          exact hfree size rfl hsize hlt
        have hinv' : Inv s' := ⟨hsep, by omega, hle⟩
        exact ⟨⟨hinv'.conserved, fun _ _ _ _ => hfull⟩, hinv'⟩
    · have hinv' := (step_alloc_out_of_range hinv.toSeparate hsize hstep).inv hinv
      refine ⟨⟨hinv'.conserved, fun size' hop hsize' => ?_⟩, hinv'⟩
      cases hop
      exact absurd hsize' hsize

/-- When the slot at `head` is busy although buffers are left, the counts part for good. -/
theorem headSlotFree_of_conserves {op : UseOp} (hinv : Inv s) (hstep : s.step op = some s')
    (hcons : Conserves s op s') : s.HeadSlotFree op := by
  rintro size rfl hsize hlt
  obtain ⟨hsep, hring, hle, hout⟩ :=
    step_alloc_in_range hinv.toSeparate hinv.spent_le hsize hstep
  have hspent := hinv.spent_eq
  rw [← hring] at hle
  have hspent' := (conserved_iff_spent hle).mp hcons.1
  cases hout with
  | slot j _ before free spent handedOut _ =>
    -- each busy slot passed would have moved `head` without a buffer being handed out
    rw [← RingBufferPool.stateAfter_zero]
    rwa [show j = 0 by omega] at free
  | fallback busy spent handedOut fallbackCount =>
    have hcount : s'.pool.fallbackCount ≠ s.pool.fallbackCount := by
      rw [fallbackCount]
      simp
    exact absurd (hcons.2 size rfl hsize hcount) (Nat.ne_of_lt hlt)

/--
**The counts agree throughout a run exactly when every `Alloc` made with buffers left finds the
slot at `head` available.**
-/
theorem conserved_iff {bufferSize : Int} {capacity : UInt64} {pick : Nat → Option Nat}
    {h heap : Heap} {pool : RingBufferPool}
    (hnew : newRingBufferPool bufferSize capacity pick h = .ok (pool, heap)) (ops : List UseOp) :
    (Conserved ⟨pool, heap, []⟩ ∧ EachStep step Conserves ⟨pool, heap, []⟩ ops) ↔
      EachStep step (fun s op _ => s.HeadSlotFree op) ⟨pool, heap, []⟩ ops := by
  have hinv := inv_new (newRingBufferPool_new hnew)
  have hiff : EachStep step Conserves ⟨pool, heap, []⟩ ops ↔
      EachStep step (fun s op _ => s.HeadSlotFree op) ⟨pool, heap, []⟩ ops := by
    refine eachStep_iff (I := fun s _ => Inv s) ?_ ?_ hinv
    · exact fun _ _ _ _ hi hs hc => conserves_of_headSlotFree hi hs hc
    · exact fun _ _ _ _ hi hs hq => headSlotFree_of_conserves hi hs hq
  exact ⟨fun hc => hiff.mp hc.2, fun hc => ⟨hinv.conserved, hiff.mpr hc⟩⟩

/-- Two buffers freed in the order in which they were allocated come round again. -/
theorem conserved_in_order :
    ∃ pool heap, newRingBufferPool 8 2 (fun _ => none) ⟨0, fun _ => []⟩ = .ok (pool, heap) ∧
      EachStep step Conserves ⟨pool, heap, []⟩
        [.alloc 8, .alloc 5, .free 1, .alloc 8, .free 1, .free 0] := by
  have hnew : newRingBufferPool 8 2 (fun _ => none) ⟨0, fun _ => []⟩ = .ok (_, _) := rfl
  exact ⟨_, _, hnew, ((conserved_iff hnew _).mpr (by decide +kernel)).2⟩

/--
Two buffers, of which the younger is freed first. The next `Alloc` meets the older buffer's slot,
moves past it and falls back with one ring buffer handed out; with everything freed one position
stays lost.
-/
theorem not_conserved_out_of_order :
    ∃ pool heap s t, newRingBufferPool 8 2 (fun _ => none) ⟨0, fun _ => []⟩ = .ok (pool, heap) ∧
      run step ⟨pool, heap, []⟩ [.alloc 8, .alloc 8, .free 0, .alloc 8] = some s ∧
      s.handedOut = 1 ∧ s.pool.available = 0 ∧ s.pool.fallbackCount = 1 ∧
      run step s [.free 0, .free 0] = some t ∧ t.held = [] ∧ t.pool.available = 1 := by
  have hmid : (run step ⟨buildPool 8 2 (fun _ => none) ⟨0, fun _ => []⟩ (by decide) (by decide)
      (by decide), (makeBuffers 8 ⟨0, fun _ => []⟩ 2).2.2, []⟩
      [.alloc 8, .alloc 8, .free 0, .alloc 8]).map
        (fun s => (s.handedOut, s.pool.available, s.pool.fallbackCount)) = some (1, 0, 1) := by
    decide +kernel
  have hend : (run step ⟨buildPool 8 2 (fun _ => none) ⟨0, fun _ => []⟩ (by decide) (by decide)
      (by decide), (makeBuffers 8 ⟨0, fun _ => []⟩ 2).2.2, []⟩
      ([.alloc 8, .alloc 8, .free 0, .alloc 8] ++ [.free 0, .free 0])).map
        (fun s => (s.held, s.pool.available)) = some ([], 1) := by
    decide +kernel
  obtain ⟨s, hs, hcounts⟩ := Option.map_eq_some_iff.mp hmid
  obtain ⟨t, ht, hfinal⟩ := Option.map_eq_some_iff.mp hend
  rw [run_append, hs] at ht
  simp only [Prod.mk.injEq] at hcounts hfinal
  exact ⟨_, _, s, t, rfl, hs, hcounts.1, hcounts.2.1, hcounts.2.2, ht, hfinal.1, hfinal.2⟩

end Use

end FabricaNet.Ringpool
