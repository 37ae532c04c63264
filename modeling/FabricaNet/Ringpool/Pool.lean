import Mathlib.Data.List.AList
import FabricaNet.Go.Heap
import FabricaNet.Xnet

/-!
# The ring buffer pool

`internal/ringpool/pool.go`, run without concurrency. The atomic steps of `Alloc` and `Free` under
concurrency are in `FabricaNet/Ringpool/Atomic.lean`.

## What a pool is

`head` and `tail` are bare counters that wrap at `2 ^ 64`. A buffer is taken or not according to
its slot state. The fields that `NewRingBufferPool` sets once form a `Ring`, with what the
constructor guarantees about them: a power of two of buffers, each of the buffer size, and an
address map that finds each of them.

## Termination

No fuel. `allocLoop` brings `head` one step closer to `tail + capacity`, where it stops; the
distance is measured in wrap-around arithmetic, so it decreases whatever the counters are.
-/

namespace FabricaNet.Ringpool

open Go

/-- `ErrInvalidSize`. -/
def errInvalidSize : Err := .sentinel "invalid buffer size"

/-- `ErrInvalidCapacity`. -/
def errInvalidCapacity : Err := .sentinel "ring capacity must be a power of 2"

/-- The type of `bufferAddrs`: from the address of a buffer to its index. -/
abbrev AddrMap := AList fun _ : Nat => UInt64

/-- The fields of `RingBufferPool` that never change. -/
structure Ring where
  capacity : UInt64
  capacity_pos : 0 < capacity
  capacity_pow : capacity &&& (capacity - 1) = 0
  mask : UInt64
  mask_eq : mask = capacity - 1
  bufferSize : Nat
  bufferSize_pos : 0 < bufferSize
  buffers : Vector Slice capacity.toNat
  buffers_cap : ∀ i : Fin capacity.toNat, buffers[i].cap = bufferSize
  bufferAddrs : AddrMap
  bufferAddrs_iff : ∀ a (i : UInt64), bufferAddrs.lookup a = some i ↔
    ∃ h : i.toNat < capacity.toNat, buffers[i.toNat].ptr = a

/-- `RingBufferPool`. -/
structure RingBufferPool extends Ring where
  /-- next allocation position -/
  head : UInt64
  /-- next free position -/
  tail : UInt64
  /-- 0 = available, 1 = allocated -/
  slotStates : Vector UInt32 capacity.toNat
  fallbackPool : SyncPool Slice
  allocCount : UInt64
  freeCount : UInt64
  fallbackCount : UInt64

/-! ## Construction -/

/-- The loop of `NewRingBufferPool` after `n` rounds: the buffers, the address map, the heap. -/
def makeBuffers (bufferSize : Nat) (h : Heap) : Nat → List Slice × AddrMap × Heap
  | 0 => ([], ∅, h)
  | n + 1 =>
    let (buffers, addrs, h') := makeBuffers bufferSize h n
    let (buf, h'') := h'.make bufferSize
    (buffers ++ [buf], addrs.insert buf.ptr (UInt64.ofNat n), h'')

theorem makeBuffers_next (bufferSize : Nat) (h : Heap) (n : Nat) :
    (makeBuffers bufferSize h n).2.2.next = h.next + n := by
  induction n with
  | zero => rfl
  | succ n ih =>
    show (makeBuffers bufferSize h n).2.2.next + 1 = _
    rw [ih]; omega

theorem makeBuffers_buffers (bufferSize : Nat) (h : Heap) (n : Nat) :
    (makeBuffers bufferSize h n).1 =
      (List.range n).map fun i => ⟨h.next + i, bufferSize, bufferSize⟩ := by
  induction n with
  | zero => rfl
  | succ n ih =>
    show (makeBuffers bufferSize h n).1 ++ [⟨(makeBuffers bufferSize h n).2.2.next, _, _⟩] = _
    rw [ih, makeBuffers_next, List.range_succ, List.map_append]
    rfl

theorem makeBuffers_addrs (bufferSize : Nat) (h : Heap) (n a : Nat) (i : UInt64) :
    AList.lookup a (makeBuffers bufferSize h n).2.1 = some i ↔
      ∃ j < n, a = h.next + j ∧ i = UInt64.ofNat j := by
  induction n with
  | zero =>
    show AList.lookup a (∅ : AddrMap) = some i ↔ _
    rw [AList.lookup_empty]
    simp
  | succ n ih =>
    show AList.lookup a (AList.insert (makeBuffers bufferSize h n).2.2.next (UInt64.ofNat n)
      (makeBuffers bufferSize h n).2.1) = some i ↔ _
    rw [makeBuffers_next]
    by_cases ha : a = h.next + n
    · subst ha
      rw [AList.lookup_insert, Option.some.injEq]
      constructor
      · intro hi; exact ⟨n, by omega, rfl, hi.symm⟩
      · rintro ⟨j, -, haj, hi⟩
        rw [hi, show j = n by omega]
    · rw [AList.lookup_insert_ne ha, ih]
      constructor
      · rintro ⟨j, hj, hrest⟩; exact ⟨j, by omega, hrest⟩
      · rintro ⟨j, hj, haj, hi⟩
        refine ⟨j, ?_, haj, hi⟩
        by_contra hge
        exact ha (by rw [haj, show j = n by omega])

theorem makeBuffers_length (bufferSize : Nat) (h : Heap) (n : Nat) :
    (makeBuffers bufferSize h n).1.length = n := by
  rw [makeBuffers_buffers, List.length_map, List.length_range]

/-- The pool that `NewRingBufferPool` builds once the arguments have passed its checks. -/
def buildPool (bufferSize : Nat) (capacity : UInt64) (pick : Nat → Option Nat) (h : Heap)
    (hsize : 0 < bufferSize) (hpos : 0 < capacity) (hpow : capacity &&& (capacity - 1) = 0) :
    RingBufferPool where
  capacity := capacity
  capacity_pos := hpos
  capacity_pow := hpow
  mask := capacity - 1
  mask_eq := rfl
  bufferSize := bufferSize
  bufferSize_pos := hsize
  buffers := ⟨(makeBuffers bufferSize h capacity.toNat).1.toArray, by
    rw [List.size_toArray, makeBuffers_length]⟩
  buffers_cap := fun i => by
    simp [makeBuffers_buffers]
  bufferAddrs := (makeBuffers bufferSize h capacity.toNat).2.1
  bufferAddrs_iff := fun a i => by
    rw [makeBuffers_addrs]
    simp only [makeBuffers_buffers, Vector.getElem_mk, List.getElem_toArray, List.getElem_map,
      List.getElem_range]
    constructor
    · rintro ⟨j, hj, ha, hi⟩
      have hji : i.toNat = j := by
        rw [hi]
        exact UInt64.toNat_ofNat_of_lt' (Nat.lt_trans hj (UInt64.toNat_lt capacity))
      exact ⟨by omega, by rw [hji, ha]⟩
    · rintro ⟨hi, ha⟩
      exact ⟨i.toNat, hi, ha.symm, UInt64.ofNat_toNat.symm⟩
  head := 0
  tail := 0
  slotStates := Vector.replicate _ 0
  fallbackPool := SyncPool.new pick
  allocCount := 0
  freeCount := 0
  fallbackCount := 0

theorem buildPool_ptr (bufferSize : Nat) (capacity : UInt64) (pick : Nat → Option Nat) (h : Heap)
    (hsize : 0 < bufferSize) (hpos : 0 < capacity) (hpow : capacity &&& (capacity - 1) = 0)
    (i : Fin capacity.toNat) :
    Slice.ptr (buildPool bufferSize capacity pick h hsize hpos hpow).buffers[i] = h.next + i := by
  show Slice.ptr (Vector.mk (makeBuffers bufferSize h capacity.toNat).1.toArray _)[i] = _
  simp [makeBuffers_buffers]

/-- `NewRingBufferPool`. -/
def newRingBufferPool (bufferSize : Int) (capacity : UInt64) (pick : Nat → Option Nat)
    (h : Heap) : Except Err (RingBufferPool × Heap) :=
  if hsize : bufferSize ≤ 0 then .error errInvalidSize
  else if hcap : capacity = 0 ∨ capacity &&& (capacity - 1) ≠ 0 then .error errInvalidCapacity
  else
    .ok (buildPool bufferSize.toNat capacity pick h (by omega)
      (UInt64.pos_iff_ne_zero.mpr fun h0 => hcap (Or.inl h0))
      (by by_contra hne; exact hcap (Or.inr hne)),
      (makeBuffers bufferSize.toNat h capacity.toNat).2.2)

namespace Ring

theorem and_mask_lt (r : Ring) (x : UInt64) : (x &&& r.mask).toNat < r.capacity.toNat := by
  have hpos : 0 < r.capacity.toNat := UInt64.lt_iff_toNat_lt.mp r.capacity_pos
  have hsub : r.mask.toNat = r.capacity.toNat - 1 := by
    rw [r.mask_eq]
    exact UInt64.toNat_sub_of_le _ _ (UInt64.le_iff_toNat_le.mpr hpos)
  have hle : (x &&& r.mask).toNat ≤ r.mask.toNat := by
    rw [UInt64.toNat_and]
    exact Nat.and_le_right
  omega

/-- The slot for a position of `head`: `head & mask`. -/
def slotOf (r : Ring) (head : UInt64) : Fin r.capacity.toNat :=
  ⟨(head &&& r.mask).toNat, r.and_mask_lt head⟩

/-- `isRingBuffer`. -/
def isRingBuffer (r : Ring) (buf : Slice) : Bool :=
  if buf.cap ≠ r.bufferSize then false else (r.bufferAddrs.lookup buf.ptr).isSome

theorem isRingBuffer_of_cap {r : Ring} {buf : Slice} (h : buf.cap ≠ r.bufferSize) :
    r.isRingBuffer buf = false := if_pos h

theorem toNat_ofNat_index {r : Ring} (i : Fin r.capacity.toNat) : (UInt64.ofNat i).toNat = i :=
  UInt64.toNat_ofNat_of_lt' (Nat.lt_trans i.isLt (UInt64.toNat_lt _))

/-- A buffer of the ring is one of `buffers`, up to its length. -/
theorem isRingBuffer_iff {r : Ring} {buf : Slice} :
    r.isRingBuffer buf = true ↔
      buf.cap = r.bufferSize ∧ ∃ i : Fin r.capacity.toNat, r.buffers[i].ptr = buf.ptr := by
  unfold isRingBuffer
  split
  · next h => exact ⟨fun hf => absurd hf (by decide), fun hi => absurd hi.1 h⟩
  · next h =>
    rw [Option.isSome_iff_exists]
    constructor
    · rintro ⟨i, hi⟩
      obtain ⟨hlt, hptr⟩ := (r.bufferAddrs_iff _ _).mp hi
      exact ⟨Decidable.not_not.mp h, ⟨i.toNat, hlt⟩, hptr⟩
    · rintro ⟨-, i, hptr⟩
      refine ⟨UInt64.ofNat i, (r.bufferAddrs_iff _ _).mpr
        ⟨by rw [toNat_ofNat_index]; exact i.isLt, ?_⟩⟩
      simp only [toNat_ofNat_index]
      exact hptr

theorem buffers_ptr_inj {r : Ring} {i j : Fin r.capacity.toNat}
    (h : r.buffers[i].ptr = r.buffers[j].ptr) : i = j := by
  have hlookup : ∀ k : Fin r.capacity.toNat,
      r.bufferAddrs.lookup r.buffers[k].ptr = some (UInt64.ofNat k) := fun k =>
    (r.bufferAddrs_iff _ _).mpr ⟨by rw [toNat_ofNat_index]; exact k.isLt, by
      simp only [toNat_ofNat_index]; rfl⟩
  have hij := (hlookup i).symm.trans ((congrArg r.bufferAddrs.lookup h).trans (hlookup j))
  have hval := congrArg UInt64.toNat (Option.some.inj hij)
  rw [toNat_ofNat_index, toNat_ofNat_index] at hval
  exact Fin.ext hval

theorem isRingBuffer_buffers (r : Ring) (i : Fin r.capacity.toNat) :
    r.isRingBuffer r.buffers[i] = true := isRingBuffer_iff.mpr ⟨r.buffers_cap i, i, rfl⟩

end Ring

/-- A new pool: every slot is available, nothing is in the fallback pool. -/
structure RingBufferPool.New (p : RingBufferPool) (h : Heap) : Prop where
  head_eq : p.head = 0
  tail_eq : p.tail = 0
  slot_free : ∀ i : Fin p.capacity.toNat, p.slotStates[i] = 0
  fallback_empty : p.fallbackPool.items = []
  ring_lt_next : ∀ i : Fin p.capacity.toNat, p.buffers[i].ptr < h.next

theorem newRingBufferPool_new {bufferSize : Int} {capacity : UInt64} {pick : Nat → Option Nat}
    {h heap : Heap} {pool : RingBufferPool}
    (hnew : newRingBufferPool bufferSize capacity pick h = .ok (pool, heap)) :
    pool.New heap := by
  unfold newRingBufferPool at hnew
  split at hnew
  · cases hnew
  · split at hnew
    · cases hnew
    · cases hnew
      refine ⟨rfl, rfl, fun i => Vector.getElem_replicate .., rfl, fun i => ?_⟩
      rw [makeBuffers_next]
      exact Nat.lt_of_le_of_lt (Nat.le_of_eq (buildPool_ptr ..)) (Nat.add_lt_add_left i.isLt _)

namespace RingBufferPool

/-! ## Operations -/

/-- The pool with one slot state written. -/
def setSlot (p : RingBufferPool) (i : Fin p.capacity.toNat) (state : UInt32) : RingBufferPool :=
  { p with slotStates := p.slotStates.set i state i.isLt }

/-- `fallbackPool.Get()`, where `New` makes a buffer of the buffer size. -/
def getFallback (p : RingBufferPool) (h : Heap) : Slice × RingBufferPool × Heap :=
  match p.fallbackPool.get with
  | (some buf, pool) => (buf, { p with fallbackPool := pool }, h)
  | (none, pool) =>
    let (buf, h') := h.make p.bufferSize
    (buf, { p with fallbackPool := pool }, h')

/-- A fallback buffer is taken out of the fallback pool, or is new. -/
theorem getFallback_cases (p : RingBufferPool) (h : Heap) :
    (∃ i buf pool, p.fallbackPool.items[i]? = some buf ∧
      pool.items = p.fallbackPool.items.eraseIdx i ∧
      p.getFallback h = (buf, { p with fallbackPool := pool }, h)) ∨
    ∃ pool, pool.items = p.fallbackPool.items ∧
      p.getFallback h =
        ((h.make p.bufferSize).1, { p with fallbackPool := pool }, (h.make p.bufferSize).2) := by
  have hcases := p.fallbackPool.get_cases
  unfold getFallback
  generalize p.fallbackPool.get = r at hcases
  obtain ⟨x, pool⟩ := r
  rcases hcases with ⟨i, buf, hbuf, rfl, hitems⟩ | ⟨rfl, hitems⟩
  · exact Or.inl ⟨i, buf, pool, hbuf, hitems, rfl⟩
  · exact Or.inr ⟨pool, hitems, rfl⟩

theorem getFallback_counters (p : RingBufferPool) (h : Heap) :
    (p.getFallback h).2.1.head = p.head ∧ (p.getFallback h).2.1.tail = p.tail := by
  rcases p.getFallback_cases h with ⟨i, buf, pool, -, -, heq⟩ | ⟨pool, -, heq⟩ <;>
    exact heq ▸ ⟨rfl, rfl⟩

/-- The branch of `Alloc` for a full ring. -/
def allocFallback (size : Nat) (p : RingBufferPool) (h : Heap) : Slice × RingBufferPool × Heap :=
  let (buf, p', h') := { p with fallbackCount := p.fallbackCount + 1 }.getFallback h
  ({ buf with len := size }, p', h')

/-- The branch of `Alloc` where `head` and the slot at `head` have both been won. -/
def allocSlot (size : Nat) (p : RingBufferPool) (h : Heap) : Slice × RingBufferPool × Heap :=
  let index := p.slotOf p.head
  ({ p.buffers[index] with len := size }, { p with head := p.head + 1 }.setSlot index 1, h)

/-- The state of the slot for a position of `head`. -/
def stateAt (p : RingBufferPool) (head : UInt64) : UInt32 := p.slotStates[p.slotOf head]

/-- How many positions are left before the ring counts as full. -/
def room (p : RingBufferPool) : Nat := (p.tail + p.capacity - p.head).toNat

/-- One step towards `tail + capacity`, in wrap-around arithmetic. -/
theorem toNat_sub_succ {head last : UInt64} (h : ¬head = last) :
    (last - (head + 1)).toNat + 1 = (last - head).toNat := by
  have hne : last - head ≠ 0 := by
    intro h0
    exact h (by rw [← UInt64.sub_add_cancel last head, h0, UInt64.zero_add])
  have hsub : last - (head + 1) = last - head - 1 := by
    simp only [UInt64.sub_eq_add_neg, UInt64.neg_add, UInt64.add_assoc]
  have hpos : 0 < (last - head).toNat :=
    UInt64.lt_iff_toNat_lt.mp (UInt64.pos_iff_ne_zero.mpr hne)
  have hone : (1 : UInt64) ≤ last - head := UInt64.le_iff_toNat_le.mpr hpos
  rw [hsub, UInt64.toNat_sub_of_le _ _ hone]
  exact Nat.sub_add_cancel hpos

/--
The `for` loop of `Alloc`, for a size that a buffer holds. Without interference
`head.CompareAndSwap(head, head+1)` succeeds.
-/
def allocLoop (size : Nat) (p : RingBufferPool) (h : Heap) : Slice × RingBufferPool × Heap :=
  if _hfull : p.head = p.tail + p.capacity then allocFallback size p h
  else if p.stateAt p.head = 0 then allocSlot size p h
  else allocLoop size { p with head := p.head + 1 } h
termination_by p.room
decreasing_by
  have hlt := Nat.lt_add_one (p.tail + p.capacity - (p.head + 1)).toNat
  rwa [toNat_sub_succ _hfull] at hlt

/-- `Alloc`. -/
def alloc (p : RingBufferPool) (h : Heap) (size : Int) : Slice × RingBufferPool × Heap :=
  let p := { p with allocCount := p.allocCount + 1 }
  if size ≤ 0 then
    let (buf, h') := h.make 0
    (buf, p, h')
  else if size > p.bufferSize then
    let (buf, h') := h.make size.toNat
    (buf, p, h')
  else allocLoop size.toNat p h

/-- `slotStates[index].Store(0)` for the index found at the address, if there is one. -/
def releaseSlot (p : RingBufferPool) (buf : Slice) : RingBufferPool :=
  match hi : p.bufferAddrs.lookup buf.ptr with
  | none => p
  | some index => p.setSlot ⟨index.toNat, ((p.bufferAddrs_iff _ _).mp hi).1⟩ 0

theorem releaseSlot_cases (p : RingBufferPool) (buf : Slice) :
    p.releaseSlot buf = p ∨ ∃ i : Fin p.capacity.toNat,
      p.buffers[i].ptr = buf.ptr ∧ p.releaseSlot buf = p.setSlot i 0 := by
  unfold releaseSlot
  split
  · exact Or.inl rfl
  · next index hi => exact Or.inr ⟨_, ((p.bufferAddrs_iff _ _).mp hi).2, rfl⟩

/-- The slot of a ring buffer is found. -/
theorem releaseSlot_of_ring {p : RingBufferPool} {buf : Slice} (h : p.isRingBuffer buf = true) :
    ∃ i : Fin p.capacity.toNat, p.buffers[i].ptr = buf.ptr ∧
      p.releaseSlot buf = p.setSlot i 0 := by
  obtain ⟨-, i, hi⟩ := Ring.isRingBuffer_iff.mp h
  have hlookup : p.bufferAddrs.lookup buf.ptr = some (UInt64.ofNat i) :=
    (p.bufferAddrs_iff _ _).mpr ⟨by rw [Ring.toNat_ofNat_index]; exact i.isLt, by
      simp only [Ring.toNat_ofNat_index]; exact hi⟩
  unfold releaseSlot
  split
  · next hnone => rw [hlookup] at hnone; cases hnone
  · next index hindex => exact ⟨_, ((p.bufferAddrs_iff _ _).mp hindex).2, rfl⟩

/-- `Free`. -/
def free (p : RingBufferPool) (h : Heap) (buf : Slice) : RingBufferPool × Heap :=
  let p := { p with freeCount := p.freeCount + 1 }
  if p.isRingBuffer buf then
    let p' := p.releaseSlot buf
    ({ p' with tail := p'.tail + 1 }, h.clear buf)
  else if buf.cap = p.bufferSize then
    ({ p with fallbackPool := p.fallbackPool.put { buf with len := p.bufferSize } }, h.clear buf)
  else (p, h)

/-- `available`. -/
def available (p : RingBufferPool) : UInt64 := p.capacity - (p.head - p.tail)

/-! ## What `Alloc` does -/

/-- The pool with `head` moved on by `n`. -/
def advance (p : RingBufferPool) (n : Nat) : RingBufferPool :=
  { p with head := p.head + UInt64.ofNat n }

/-- The state of the slot that `head` meets after `n` more steps. -/
def stateAfter (p : RingBufferPool) (n : Nat) : UInt32 :=
  p.stateAt (p.head + UInt64.ofNat n)

theorem advance_zero (p : RingBufferPool) : p.advance 0 = p := by
  show { p with head := p.head + 0 } = p
  rw [UInt64.add_zero]

theorem advance_advance (p : RingBufferPool) (m n : Nat) :
    (p.advance m).advance n = p.advance (m + n) := by
  show { p with head := p.head + UInt64.ofNat m + UInt64.ofNat n } =
    { p with head := p.head + UInt64.ofNat (m + n) }
  rw [UInt64.ofNat_add, UInt64.add_assoc]

theorem stateAfter_zero (p : RingBufferPool) : p.stateAfter 0 = p.stateAt p.head := by
  show p.stateAt (p.head + 0) = _
  rw [UInt64.add_zero]

theorem stateAfter_advance (p : RingBufferPool) (m n : Nat) :
    (p.advance m).stateAfter n = p.stateAfter (m + n) := by
  show p.stateAt (p.head + UInt64.ofNat m + UInt64.ofNat n) = p.stateAt (p.head + _)
  rw [UInt64.ofNat_add, UInt64.add_assoc]

theorem room_eq_zero_iff {p : RingBufferPool} : p.room = 0 ↔ p.head = p.tail + p.capacity := by
  unfold room
  constructor
  · intro h
    by_contra hne
    have := toNat_sub_succ hne
    omega
  · intro h
    rw [h, UInt64.sub_self]
    rfl

theorem room_advance_one {p : RingBufferPool} (h : p.head ≠ p.tail + p.capacity) :
    (p.advance 1).room + 1 = p.room := toNat_sub_succ h

/--
**`Alloc` takes the first available slot it meets before the ring counts as full, or else, having
moved `head` all the way, a fallback buffer.**
-/
theorem allocLoop_cases (size : Nat) (p : RingBufferPool) (h : Heap) :
    (∃ j < p.room, (∀ i < j, p.stateAfter i ≠ 0) ∧ p.stateAfter j = 0 ∧
      allocLoop size p h = allocSlot size (p.advance j) h) ∨
    ((∀ i < p.room, p.stateAfter i ≠ 0) ∧
      allocLoop size p h = allocFallback size (p.advance p.room) h) := by
  fun_induction allocLoop size p h with
  | case1 p hfull =>
    right
    rw [room_eq_zero_iff.mpr hfull, advance_zero]
    exact ⟨fun i hi => absurd hi (Nat.not_lt_zero i), rfl⟩
  | case2 p hfull hfree =>
    left
    refine ⟨0, ?_, fun i hi => absurd hi (Nat.not_lt_zero i), ?_, by rw [advance_zero]⟩
    · exact Nat.pos_of_ne_zero fun h0 => hfull (room_eq_zero_iff.mp h0)
    · rw [stateAfter_zero, hfree]
  | case3 p hfull hbusy ih =>
    -- the loop goes on from `p.advance 1`, which sees the slots one position later
    have hroom := room_advance_one hfull
    have hfirst : p.stateAfter 0 ≠ 0 := by rwa [stateAfter_zero]
    have hnext : ∀ {n}, (∀ i < n, (p.advance 1).stateAfter i ≠ 0) →
        ∀ i < n + 1, p.stateAfter i ≠ 0 := by
      intro n hn i hi
      cases i with
      | zero => exact hfirst
      | succ i =>
        have := hn i (by omega)
        rwa [stateAfter_advance, Nat.add_comm] at this
    rcases ih with ⟨j, hj, hbefore, hj0, heq⟩ | ⟨hall, heq⟩
    · left
      refine ⟨j + 1, by have : j < (p.advance 1).room := hj; omega, hnext hbefore, ?_, ?_⟩
      · have : (p.advance 1).stateAfter j = 0 := hj0
        rwa [stateAfter_advance, Nat.add_comm] at this
      · rw [heq, Nat.add_comm j 1, ← advance_advance]
        rfl
    · right
      rw [← hroom]
      refine ⟨hnext hall, ?_⟩
      rw [heq, Nat.add_comm _ 1, ← advance_advance]
      rfl

end RingBufferPool

end FabricaNet.Ringpool
