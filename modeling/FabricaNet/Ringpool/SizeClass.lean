import Mathlib.Order.Bounds.Basic
import FabricaNet.Lib.Run
import FabricaNet.Ringpool.Config

/-!
# Size classes

Which size `Alloc` of a `MultiSizeRingPool` rounds a request up to, where the buffer comes from, and
that `Free` brings it back there. `Alloc` finds the pool by the requested size, `Free` by the
capacity of the buffer and then by its address.

What a pool can show of a buffer is a `PoolView`: the slot states and the fallback pool. `Takes`
says what `Alloc` does to the views, with the `Origin` of the buffer; `giveBack` says what `Free`
does to them for a buffer of that origin. The origin is a matter of the rings alone, which never
change, so it does not matter what happens between the two (`size_classes`).
-/

namespace FabricaNet.Ringpool

open Go Lib

/-- What a pool keeps its buffers in. -/
structure PoolView where
  slots : List UInt32
  fallback : List Slice
deriving DecidableEq, Repr

def RingBufferPool.view (p : RingBufferPool) : PoolView :=
  { slots := p.slotStates.toList, fallback := p.fallbackPool.items }

/-- The views of the pools, by size. -/
def MultiSizeRingPool.view (mp : MultiSizeRingPool) (size : Int) : Option PoolView :=
  (mp.pools.lookup size).map RingBufferPool.view

/-- Where the buffer of an `Alloc` comes from. -/
inductive Origin where
  /-- a slot of the ring of the pool for this size -/
  | slot (size : Int) (i : Nat)
  /-- the fallback pool of the pool for this size -/
  | fallback (size : Int)
  | heap
deriving DecidableEq, Repr

/-- `Alloc(n)` returns this buffer from there, and leaves the pools with these views. -/
inductive Takes (mp : MultiSizeRingPool) (h : Heap) (n : Int) :
    Origin → Slice → (Int → Option PoolView) → Prop
  /-- a free slot of the ring is taken -/
  | slot {size : Int} {pool : RingBufferPool} {i : Nat} {b : Slice}
      (lookup : mp.pools.lookup size = some pool) (buffer : pool.buffers.toList[i]? = some b)
      (free : pool.view.slots[i]? = some 0) :
      Takes mp h n (.slot size i) { b with len := n.toNat }
        (Function.update mp.view size (some { pool.view with slots := pool.view.slots.set i 1 }))
  /-- a buffer is taken out of the fallback pool -/
  | pooled {size : Int} {pool : RingBufferPool} {k : Nat} {b : Slice}
      (lookup : mp.pools.lookup size = some pool) (item : pool.view.fallback[k]? = some b) :
      Takes mp h n (.fallback size) { b with len := n.toNat }
        (Function.update mp.view size
          (some { pool.view with fallback := pool.view.fallback.eraseIdx k }))
  /-- the fallback pool makes a buffer -/
  | made {size : Int} {pool : RingBufferPool} (lookup : mp.pools.lookup size = some pool) :
      Takes mp h n (.fallback size) ⟨h.next, n.toNat, size.toNat⟩ mp.view
  | heap : Takes mp h n .heap ⟨h.next, n.toNat, n.toNat⟩ mp.view

/-- What `Free` does to the views for a buffer of this origin. -/
def giveBack (o : Origin) (buf : Slice) (v : Int → Option PoolView) : Int → Option PoolView :=
  match o with
  | .slot size i =>
    Function.update v size ((v size).map fun p => { p with slots := p.slots.set i 0 })
  | .fallback size =>
    Function.update v size ((v size).map fun p =>
      { p with fallback := { buf with len := size.toNat } :: p.fallback })
  | .heap => v

/-- The capacity for a request of `n`. -/
def SizeClass (m : SizeCapacityMap) (n : Int) (cap : Nat) : Prop :=
  (n = 0 ∧ cap = 0) ∨ (0 < n ∧ IsLeast { size | size ∈ m ∧ n ≤ size } (cap : Int)) ∨
    (0 < n ∧ (∀ size ∈ m, size < n) ∧ (cap : Int) = n)

/-! ## One pool -/

namespace RingBufferPool

variable {p : RingBufferPool} {h : Heap}

theorem view_setSlot (p : RingBufferPool) (i : Fin p.capacity.toNat) (state : UInt32) :
    (p.setSlot i state).view = { p.view with slots := p.view.slots.set i state } := by
  simp only [view, setSlot, Vector.toList_set]

theorem getElem?_buffers (p : RingBufferPool) (i : Fin p.capacity.toNat) :
    p.buffers.toList[(i : Nat)]? = some (p.buffers.get i) := by
  rw [List.getElem?_eq_some_iff]
  exact ⟨by simp, by simp [Vector.get]⟩

theorem getElem?_slots (p : RingBufferPool) (i : Fin p.capacity.toNat) :
    p.view.slots[(i : Nat)]? = some (p.slotStates.get i) := by
  rw [List.getElem?_eq_some_iff]
  exact ⟨by simp [view], by simp [view, Vector.get]⟩

theorem allocSlot_view {size : Nat} (hfree : p.stateAt p.head = 0) :
    ∃ i b, p.buffers.toList[i]? = some b ∧ p.view.slots[i]? = some 0 ∧
      (allocSlot size p h).1 = { b with len := size } ∧
      (allocSlot size p h).2.1.view = { p.view with slots := p.view.slots.set i 1 } := by
  refine ⟨p.slotOf p.head, _, p.getElem?_buffers _, ?_, rfl, ?_⟩
  · rw [getElem?_slots]
    exact congrArg some hfree
  · exact view_setSlot { p with head := p.head + 1 } (p.slotOf p.head) 1

theorem allocFallback_view (size : Nat) (p : RingBufferPool) (h : Heap) :
    (∃ k b, p.view.fallback[k]? = some b ∧ (allocFallback size p h).1 = { b with len := size } ∧
      (allocFallback size p h).2.1.view =
        { p.view with fallback := p.view.fallback.eraseIdx k }) ∨
    ((allocFallback size p h).1 = ⟨h.next, size, p.bufferSize⟩ ∧
      (allocFallback size p h).2.1.view = p.view) := by
  unfold allocFallback
  rcases getFallback_cases { p with fallbackCount := p.fallbackCount + 1 } h with
    ⟨k, buf, pool, hbuf, hitems, hget⟩ | ⟨pool, hitems, hget⟩
  · refine Or.inl ⟨k, buf, hbuf, by rw [hget], ?_⟩
    rw [hget]
    exact congrArg (PoolView.mk p.slotStates.toList) hitems
  · refine Or.inr ⟨by rw [hget]; rfl, ?_⟩
    rw [hget]
    exact congrArg (PoolView.mk p.slotStates.toList) hitems

/-- `Alloc` of a size that the buffers hold. -/
theorem alloc_view (p : RingBufferPool) (h : Heap) {n : Int} (hn : 0 < n)
    (hle : n ≤ p.bufferSize) :
    (∃ i b, p.buffers.toList[i]? = some b ∧ p.view.slots[i]? = some 0 ∧
      (p.alloc h n).1 = { b with len := n.toNat } ∧
      (p.alloc h n).2.1.view = { p.view with slots := p.view.slots.set i 1 }) ∨
    (∃ k b, p.view.fallback[k]? = some b ∧ (p.alloc h n).1 = { b with len := n.toNat } ∧
      (p.alloc h n).2.1.view = { p.view with fallback := p.view.fallback.eraseIdx k }) ∨
    ((p.alloc h n).1 = ⟨h.next, n.toNat, p.bufferSize⟩ ∧ (p.alloc h n).2.1.view = p.view) := by
  have halloc : p.alloc h n =
      allocLoop n.toNat { p with allocCount := p.allocCount + 1 } h := by
    unfold alloc
    simp only [if_neg (Int.not_le.mpr hn), if_neg (Int.not_lt.mpr hle), gt_iff_lt]
  -- counting the call and moving `head` on change neither the buffers nor the view
  rw [halloc]
  rcases allocLoop_cases n.toNat { p with allocCount := p.allocCount + 1 } h with
    ⟨j, -, -, hfree, heq⟩ | ⟨-, heq⟩
  · rw [heq]
    exact Or.inl (allocSlot_view
      (p := advance { p with allocCount := p.allocCount + 1 } j) hfree)
  · rw [heq]
    exact Or.inr (allocFallback_view n.toNat
      (advance { p with allocCount := p.allocCount + 1 } _) h)

/-- `Alloc` of nothing. -/
theorem alloc_of_nonpos (p : RingBufferPool) (h : Heap) {n : Int} (hn : n ≤ 0) :
    (p.alloc h n).1 = ⟨h.next, 0, 0⟩ ∧ (p.alloc h n).2.1.view = p.view := by
  unfold alloc
  simp only [if_pos hn]
  exact ⟨rfl, rfl⟩

/-- `Free` of a buffer of the ring. -/
theorem view_free_of_ring {buf b : Slice} {i : Nat} (hb : p.buffers.toList[i]? = some b)
    (hptr : b.ptr = buf.ptr) (hcap : buf.cap = p.bufferSize) :
    (p.free h buf).1.view = { p.view with slots := p.view.slots.set i 0 } := by
  obtain ⟨hi, hget⟩ := List.getElem?_eq_some_iff.mp hb
  rw [Vector.length_toList] at hi
  have hget' : p.buffers[(⟨i, hi⟩ : Fin p.capacity.toNat)] = b := by simpa using hget
  have hring : p.isRingBuffer buf = true :=
    Ring.isRingBuffer_iff.mpr ⟨hcap, ⟨i, hi⟩, by rw [hget', hptr]⟩
  obtain ⟨k, hk, hrelease⟩ :=
    releaseSlot_of_ring (p := { p with freeCount := p.freeCount + 1 }) hring
  have hki : k = ⟨i, hi⟩ := Ring.buffers_ptr_inj (hk.trans (by rw [hget', hptr]))
  have hview : (p.free h buf).1.view =
      (releaseSlot { p with freeCount := p.freeCount + 1 } buf).view := by
    unfold free
    rw [if_pos hring]
    rfl
  rw [hview, hrelease, hki]
  exact view_setSlot { p with freeCount := p.freeCount + 1 } ⟨i, hi⟩ 0

/-- `Free` of another buffer of the size. -/
theorem view_free_of_fallback {buf : Slice} (hring : p.isRingBuffer buf = false)
    (hcap : buf.cap = p.bufferSize) :
    (p.free h buf).1.view =
      { p.view with fallback := { buf with len := p.bufferSize } :: p.view.fallback } := by
  unfold free
  simp only [hring, Bool.false_eq_true, if_false, if_pos hcap]
  rfl

/-- `Alloc` gives no memory back. -/
theorem next_le_alloc (p : RingBufferPool) (h : Heap) (n : Int) :
    h.next ≤ (p.alloc h n).2.2.next := by
  have hfallback : ∀ q : RingBufferPool, h.next ≤ (q.getFallback h).2.2.next := by
    intro q
    rcases q.getFallback_cases h with ⟨k, buf, pool, -, -, hget⟩ | ⟨pool, -, hget⟩
    · rw [hget]
    · rw [hget]
      exact Nat.le_succ _
  unfold alloc
  simp only
  split
  · exact Nat.le_succ _
  · split
    · exact Nat.le_succ _
    · rcases allocLoop_cases n.toNat { p with allocCount := p.allocCount + 1 } h with
        ⟨j, -, -, -, heq⟩ | ⟨-, heq⟩
      · rw [heq]
        exact Nat.le_refl _
      · rw [heq]
        exact hfallback _

theorem next_free (p : RingBufferPool) (h : Heap) (buf : Slice) :
    (p.free h buf).2.next = h.next := by
  unfold free
  simp only
  split
  · rfl
  · split <;> rfl

/--
The ring is below `next`, and the fallback pool has buffers of the size that are not of the ring.
-/
structure Tidy (p : RingBufferPool) (next : Nat) : Prop where
  ring_lt : ∀ b ∈ p.buffers.toList, b.ptr < next
  fallback : ∀ b ∈ p.view.fallback, b.cap = p.bufferSize ∧ p.isRingBuffer b = false

theorem Tidy.of_view {p p' : RingBufferPool} {next next' : Nat} (h : Tidy p next)
    (hring : p'.toRing = p.toRing) (hnext : next ≤ next')
    (hview : ∀ b ∈ p'.view.fallback, b ∈ p.view.fallback ∨
      b.cap = p.bufferSize ∧ p.isRingBuffer b = false) : Tidy p' next' := by
  refine ⟨?_, ?_⟩
  · rw [hring]
    exact fun b hb => Nat.lt_of_lt_of_le (h.ring_lt b hb) hnext
  · rw [hring]
    intro b hb
    rcases hview b hb with hold | hnew
    · exact h.fallback b hold
    · exact hnew

theorem Tidy.alloc {next : Nat} (ht : Tidy p next) (hnext : next ≤ h.next) (n : Int) :
    Tidy (p.alloc h n).2.1 (p.alloc h n).2.2.next := by
  refine ht.of_view (p.alloc_toRing h n) (Nat.le_trans hnext (p.next_le_alloc h n)) fun b hb => ?_
  left
  by_cases hn : n ≤ 0
  · rwa [(p.alloc_of_nonpos h hn).2] at hb
  · by_cases hle : n ≤ p.bufferSize
    · rcases p.alloc_view h (Int.not_le.mp hn) hle with
        ⟨i, b', -, -, -, hview⟩ | ⟨k, b', -, -, hview⟩ | ⟨-, hview⟩
      · rwa [hview] at hb
      · rw [hview] at hb
        exact List.mem_of_mem_eraseIdx hb
      · rwa [hview] at hb
    · have hlarge : (p.alloc h n).2.1.view = p.view := by
        unfold RingBufferPool.alloc
        simp only [if_neg hn, if_pos (Int.not_le.mp hle), gt_iff_lt]
        rfl
      rwa [hlarge] at hb

theorem Tidy.free {next : Nat} (ht : Tidy p next) (h : Heap) (buf : Slice) :
    Tidy (p.free h buf).1 next := by
  refine ht.of_view (p.free_toRing h buf) (Nat.le_refl _) fun b hb => ?_
  cases hring : p.isRingBuffer buf with
  | true =>
    obtain ⟨hcap, i, hptr⟩ := Ring.isRingBuffer_iff.mp hring
    rw [view_free_of_ring (p.getElem?_buffers i) hptr hcap] at hb
    exact Or.inl hb
  | false =>
    by_cases hcap : buf.cap = p.bufferSize
    · rw [view_free_of_fallback hring hcap] at hb
      rcases List.mem_cons.mp hb with rfl | hold
      · exact Or.inr ⟨hcap, hring⟩
      · exact Or.inl hold
    · left
      have hsame : (p.free h buf).1.view = p.view := by
        unfold RingBufferPool.free
        simp only [hring, Bool.false_eq_true, if_false, if_neg hcap]
        rfl
      rwa [hsame] at hb

end RingBufferPool

/-! ## The pool of pools -/

namespace MultiSizeRingPool

variable {mp : MultiSizeRingPool} {h : Heap} {n : Int}

/-- The rings of the pools, by size. -/
def ring (mp : MultiSizeRingPool) (size : Int) : Option Ring :=
  (mp.pools.lookup size).map fun pool => pool.toRing

theorem view_of_lookup {size : Int} {pool : RingBufferPool}
    (hpool : mp.pools.lookup size = some pool) : mp.view size = some pool.view :=
  congrArg (Option.map _) hpool

theorem ring_of_lookup {size : Int} {pool : RingBufferPool}
    (hpool : mp.pools.lookup size = some pool) : mp.ring size = some pool.toRing :=
  congrArg (Option.map _) hpool

theorem view_setPool {size : Int} {pool pool' : RingBufferPool}
    (hpool : mp.pools.lookup size = some pool) (hring : pool'.toRing = pool.toRing) :
    (mp.setPool hpool pool' hring).view = Function.update mp.view size (some pool'.view) := by
  funext k
  show ((mp.pools.insert size pool').lookup k).map _ = _
  by_cases hk : k = size
  · subst hk
    rw [AList.lookup_insert, Function.update_self]
    rfl
  · rw [AList.lookup_insert_ne hk, Function.update_of_ne hk]
    rfl

theorem ring_setPool {size : Int} {pool pool' : RingBufferPool}
    (hpool : mp.pools.lookup size = some pool) (hring : pool'.toRing = pool.toRing) :
    (mp.setPool hpool pool' hring).ring = mp.ring := by
  funext k
  show ((mp.pools.insert size pool').lookup k).map _ = _
  by_cases hk : k = size
  · subst hk
    rw [AList.lookup_insert, ring, hpool, Option.map_some, hring, Option.map_some]
  · rw [AList.lookup_insert_ne hk]
    rfl

/-- Every pool is tidy. -/
def Tidy (mp : MultiSizeRingPool) (next : Nat) : Prop :=
  ∀ size pool, mp.pools.lookup size = some pool → pool.Tidy next

theorem Tidy.setPool {next next' : Nat} (ht : mp.Tidy next) {size : Int}
    {pool pool' : RingBufferPool} (hpool : mp.pools.lookup size = some pool)
    (hring : pool'.toRing = pool.toRing) (hnext : next ≤ next') (hpool' : pool'.Tidy next') :
    (mp.setPool hpool pool' hring).Tidy next' := by
  intro k q hq
  change (mp.pools.insert size pool').lookup k = some q at hq
  by_cases hk : k = size
  · subst hk
    rw [AList.lookup_insert] at hq
    cases hq
    exact hpool'
  · rw [AList.lookup_insert_ne hk] at hq
    exact (ht k q hq).of_view rfl hnext fun b hb => Or.inl hb

/-- The buffer is one that `Free` brings back to the origin. -/
inductive Belongs (mp : MultiSizeRingPool) (buf : Slice) : Origin → Prop
  | slot {size : Int} {r : Ring} {i : Nat} {b : Slice} (ring : mp.ring size = some r)
      (buffer : r.buffers.toList[i]? = some b) (ptr : b.ptr = buf.ptr)
      (cap : buf.cap = r.bufferSize) : Belongs mp buf (.slot size i)
  | fallback {size : Int} {r : Ring} (ring : mp.ring size = some r)
      (notRing : r.isRingBuffer buf = false) (cap : buf.cap = r.bufferSize) :
      Belongs mp buf (.fallback size)
  | heap (noPool : mp.ring buf.cap = none) : Belongs mp buf .heap

theorem Belongs.congr {mp' : MultiSizeRingPool} {buf : Slice} {o : Origin}
    (hb : mp.Belongs buf o) (hring : mp'.ring = mp.ring) : mp'.Belongs buf o := by
  cases hb with
  | slot ring buffer ptr cap => exact .slot (by rw [hring]; exact ring) buffer ptr cap
  | fallback ring notRing cap => exact .fallback (by rw [hring]; exact ring) notRing cap
  | heap noPool => exact .heap (by rw [hring]; exact noPool)

/-- The pool behind a ring, which is the one that `Free` finds by the capacity. -/
theorem exists_pool_of_ring {size : Int} {r : Ring} (hr : mp.ring size = some r) :
    ∃ pool, mp.pools.lookup size = some pool ∧ pool.toRing = r ∧ (r.bufferSize : Int) = size := by
  obtain ⟨pool, hpool, rfl⟩ := Option.map_eq_some_iff.mp hr
  exact ⟨pool, hpool, rfl, mp.bufferSize_eq size pool hpool⟩

/-- **`Free` brings a buffer back to where it belongs, and touches nothing else.** -/
theorem Belongs.free {buf : Slice} {o : Origin} (hb : mp.Belongs buf o) (h : Heap) :
    (mp.free h buf).1.view = giveBack o buf mp.view := by
  cases hb with
  | @slot size r i b ring buffer ptr cap =>
    obtain ⟨pool, hpool, rfl, hsize⟩ := exists_pool_of_ring ring
    have hpool' : mp.pools.lookup (buf.cap : Int) = some pool := by rw [cap, hsize]; exact hpool
    rw [(free_of_lookup hpool' h).1, view_setPool, RingBufferPool.view_free_of_ring buffer ptr cap,
      cap, hsize, giveBack, view_of_lookup hpool]
    rfl
  | @fallback size r ring notRing cap =>
    obtain ⟨pool, hpool, rfl, hsize⟩ := exists_pool_of_ring ring
    have hpool' : mp.pools.lookup (buf.cap : Int) = some pool := by rw [cap, hsize]; exact hpool
    rw [(free_of_lookup hpool' h).1, view_setPool,
      RingBufferPool.view_free_of_fallback notRing cap, cap, hsize, giveBack, view_of_lookup hpool]
    simp only [Option.map_some]
    rw [show size.toNat = pool.bufferSize by omega, cap]
  | heap noPool =>
    have hnone : mp.pools.lookup (buf.cap : Int) = none := Option.map_eq_none_iff.mp noPool
    rw [free_of_no_pool hnone]
    rfl

theorem mem_pools_iff {m : SizeCapacityMap} (hm : Configured mp m) (size : Int) :
    size ∈ mp.pools ↔ size ∈ m := by
  rw [← AList.lookup_isSome, ← AList.lookup_isSome, ← hm size, Option.isSome_map]

end MultiSizeRingPool

theorem RingBufferPool.cap_of_buffers {p : RingBufferPool} {i : Nat} {b : Slice}
    (h : p.buffers.toList[i]? = some b) : b.cap = p.bufferSize := by
  obtain ⟨hi, hget⟩ := List.getElem?_eq_some_iff.mp h
  rw [Vector.length_toList] at hi
  rw [← hget, ← p.buffers_cap ⟨i, hi⟩]
  simp

/-- A new buffer is not one of the ring. -/
theorem RingBufferPool.Tidy.isRingBuffer_next {p : RingBufferPool} {next : Nat}
    (h : p.Tidy next) (len cap : Nat) : p.isRingBuffer ⟨next, len, cap⟩ = false := by
  by_contra hring
  rw [Bool.not_eq_false] at hring
  obtain ⟨-, i, hptr⟩ := Ring.isRingBuffer_iff.mp hring
  have hmem := List.mem_of_getElem? (p.getElem?_buffers i)
  exact absurd hptr (Nat.ne_of_lt (h.ring_lt _ hmem))

/-- The buffer that the pool of a size class returns. -/
theorem RingBufferPool.Tidy.takes {mp : MultiSizeRingPool} {h : Heap} {n size : Int}
    {pool : RingBufferPool} (ht : pool.Tidy h.next) (hpool : mp.pools.lookup size = some pool)
    (hn : 0 < n) (hle : n ≤ size) :
    ((pool.alloc h n).1.cap : Int) = size ∧ ∃ o,
      Takes mp h n o (pool.alloc h n).1
        (Function.update mp.view size (some (pool.alloc h n).2.1.view)) ∧
      mp.Belongs (pool.alloc h n).1 o := by
  have hsize := mp.bufferSize_eq size pool hpool
  have hring := MultiSizeRingPool.ring_of_lookup hpool
  have hview := MultiSizeRingPool.view_of_lookup hpool
  rcases pool.alloc_view h hn (by omega) with
    ⟨i, b, hb, hfree, hbuf, hpv⟩ | ⟨k, b, hb, hbuf, hpv⟩ | ⟨hbuf, hpv⟩
  · have hcap := cap_of_buffers hb
    rw [hbuf, hpv]
    exact ⟨by rw [hcap, hsize], .slot size i, .slot hpool hb hfree, .slot hring hb rfl hcap⟩
  · obtain ⟨hcap, hnot⟩ := ht.fallback b (List.mem_of_getElem? hb)
    rw [hbuf, hpv]
    exact ⟨by rw [hcap, hsize], .fallback size, .pooled hpool hb, .fallback hring hnot hcap⟩
  · rw [hbuf, hpv, ← hview, Function.update_eq_self]
    refine ⟨hsize, .fallback size, ?_, .fallback hring (ht.isRingBuffer_next ..) rfl⟩
    rw [show pool.bufferSize = size.toNat by omega]
    exact .made hpool

/-- **Where `Alloc` takes its buffer from, how large it is, and that it belongs there.** -/
theorem MultiSizeRingPool.alloc_takes {mp : MultiSizeRingPool} {m : SizeCapacityMap} {h : Heap}
    (hm : Configured mp m) (hpos : ∀ size ∈ m, 0 < size) (ht : mp.Tidy h.next) {n : Int}
    (hn : 0 ≤ n) :
    SizeClass m n (mp.alloc h n).1.cap ∧ ∃ o,
      Takes mp h n o (mp.alloc h n).1 (mp.alloc h n).2.1.view ∧
        (mp.alloc h n).2.1.Belongs (mp.alloc h n).1 o := by
  have hnone : ∀ k : Nat, (k : Int) ∉ mp.pools → mp.ring k = none := fun k hk =>
    Option.map_eq_none_iff.mpr (AList.lookup_eq_none.mpr hk)
  have hzero : ((0 : Nat) : Int) ∉ mp.pools := fun h0 =>
    absurd (hpos _ ((mem_pools_iff hm _).mp h0)) (Int.lt_irrefl 0)
  rcases mp.alloc_least h n with ⟨size, pool, hpool, hleast, heq⟩ | ⟨hall, heq⟩
  · have hview := view_of_lookup hpool
    rw [heq]
    simp only [view_setPool]
    rcases Int.lt_or_eq_of_le hn with hlt | rfl
    · obtain ⟨hcap, o, htakes, hbelongs⟩ :=
        (ht size pool hpool).takes hpool hlt hleast.1.2
      refine ⟨Or.inr (Or.inl ⟨hlt, ?_⟩), o, htakes, hbelongs.congr (ring_setPool hpool _)⟩
      simpa only [hcap, mem_pools_iff hm] using hleast
    · -- an empty buffer comes from the heap, whichever pool is asked
      obtain ⟨hbuf, hpv⟩ := pool.alloc_of_nonpos h (Int.le_refl 0)
      rw [hbuf, hpv, ← hview, Function.update_eq_self]
      refine ⟨Or.inl ⟨rfl, rfl⟩, .heap, .heap, .heap ?_⟩
      rw [ring_setPool]
      exact hnone 0 hzero
  · rw [heq]
    have hcap : (n.toNat : Int) = n := Int.toNat_of_nonneg hn
    refine ⟨?_, .heap, .heap, .heap (hnone n.toNat fun hmem => ?_)⟩
    · rcases Int.lt_or_eq_of_le hn with hlt | rfl
      · refine Or.inr (Or.inr ⟨hlt, fun size hsize => ?_, hcap⟩)
        exact hall size ((mem_pools_iff hm size).mpr hsize)
      · exact Or.inl ⟨rfl, rfl⟩
    · rw [hcap] at hmem
      exact Int.lt_irrefl n (hall n hmem)

/-! ## Runs -/

/-- The pools and the heap. -/
structure PoolRun where
  pool : MultiSizeRingPool
  heap : Heap

inductive PoolAct where
  | alloc (n : Int)
  /-- `Free` of any slice, whoever made it and whether it is in use or not -/
  | free (buf : Slice)
  /-- other code allocates and writes -/
  | outside (heap : Heap)

namespace PoolRun

variable {s s' : PoolRun} {m : SizeCapacityMap}

def step (s : PoolRun) : PoolAct → Option PoolRun
  | .alloc n =>
    let (_, pool, heap) := s.pool.alloc s.heap n
    some { pool := pool, heap := heap }
  | .free buf =>
    let (pool, heap) := s.pool.free s.heap buf
    some { pool := pool, heap := heap }
  | .outside heap => if s.heap.next ≤ heap.next then some { s with heap := heap } else none

/-- The pools are those of the map, and tidy. -/
structure Sound (m : SizeCapacityMap) (s : PoolRun) : Prop where
  configured : Configured s.pool m
  tidy : s.pool.Tidy s.heap.next

theorem sound_alloc (hs : Sound m s) (n : Int) :
    Sound m ⟨(s.pool.alloc s.heap n).2.1, (s.pool.alloc s.heap n).2.2⟩ := by
  refine ⟨hs.configured.alloc s.heap n, ?_⟩
  rcases s.pool.alloc_least s.heap n with ⟨size, pool, hpool, -, heq⟩ | ⟨-, heq⟩
  · rw [heq]
    exact hs.tidy.setPool hpool (pool.alloc_toRing s.heap n) (pool.next_le_alloc s.heap n)
      ((hs.tidy size pool hpool).alloc (Nat.le_refl _) n)
  · rw [heq]
    exact fun k q hq => (hs.tidy k q hq).of_view rfl (Nat.le_succ _) fun b hb => Or.inl hb

theorem sound_free (hs : Sound m s) (buf : Slice) :
    Sound m ⟨(s.pool.free s.heap buf).1, (s.pool.free s.heap buf).2⟩ := by
  refine ⟨hs.configured.free s.heap buf, ?_⟩
  cases hpool : s.pool.pools.lookup (buf.cap : Int) with
  | some pool =>
    obtain ⟨hfree, hheap⟩ := MultiSizeRingPool.free_of_lookup hpool s.heap
    simp only [hfree, hheap, pool.next_free]
    exact hs.tidy.setPool hpool _ (Nat.le_refl _) ((hs.tidy _ pool hpool).free s.heap buf)
  | none =>
    rw [MultiSizeRingPool.free_of_no_pool hpool]
    exact hs.tidy

theorem ring_alloc (mp : MultiSizeRingPool) (h : Heap) (n : Int) :
    (mp.alloc h n).2.1.ring = mp.ring := by
  rcases mp.alloc_least h n with ⟨size, pool, hpool, -, heq⟩ | ⟨-, heq⟩
  · rw [heq]
    exact MultiSizeRingPool.ring_setPool hpool (pool.alloc_toRing h n)
  · rw [heq]

theorem ring_free (mp : MultiSizeRingPool) (h : Heap) (buf : Slice) :
    (mp.free h buf).1.ring = mp.ring := by
  cases hpool : mp.pools.lookup (buf.cap : Int) with
  | some pool =>
    rw [(MultiSizeRingPool.free_of_lookup hpool h).1]
    exact MultiSizeRingPool.ring_setPool hpool _
  | none => rw [MultiSizeRingPool.free_of_no_pool hpool]

/-- A step keeps the pools tidy, and never changes a ring. -/
theorem sound_step {a : PoolAct} (hs : Sound m s) (h : s.step a = some s') :
    Sound m s' ∧ s'.pool.ring = s.pool.ring := by
  cases a with
  | alloc n =>
    cases h
    exact ⟨sound_alloc hs n, ring_alloc s.pool s.heap n⟩
  | free buf =>
    cases h
    exact ⟨sound_free hs buf, ring_free s.pool s.heap buf⟩
  | outside heap =>
    simp only [step] at h
    split at h
    next hle =>
      cases h
      exact ⟨⟨hs.configured, fun k q hq => (hs.tidy k q hq).of_view rfl hle
        fun b hb => Or.inl hb⟩, rfl⟩
    next => cases h

theorem sound_run {as : List PoolAct} (hs : Sound m s) (h : run step s as = some s') :
    Sound m s' ∧ s'.pool.ring = s.pool.ring := by
  induction as generalizing s with
  | nil =>
    cases h
    exact ⟨hs, rfl⟩
  | cons a as ih =>
    obtain ⟨s₁, h₁, hrest⟩ := run_cons_eq_some.mp h
    obtain ⟨hs₁, hring₁⟩ := sound_step hs h₁
    obtain ⟨hs', hring⟩ := ih hs₁ hrest
    exact ⟨hs', hring.trans hring₁⟩

end PoolRun

/-! ## A new pool -/

theorem newRingBufferPool_tidy {size : Int} {capacity : UInt64} {pick : Nat → Option Nat}
    {h heap : Heap} {pool : RingBufferPool}
    (hnew : newRingBufferPool size capacity pick h = .ok (pool, heap)) :
    pool.Tidy heap.next ∧ h.next ≤ heap.next := by
  have hpool := newRingBufferPool_new hnew
  refine ⟨⟨fun b hb => ?_, fun b hb => ?_⟩, ?_⟩
  · obtain ⟨i, hi, rfl⟩ := List.mem_iff_getElem.mp hb
    rw [Vector.length_toList] at hi
    simpa using hpool.ring_lt_next ⟨i, hi⟩
  · change b ∈ pool.fallbackPool.items at hb
    rw [hpool.fallback_empty] at hb
    cases hb
  · unfold newRingBufferPool at hnew
    split at hnew
    · cases hnew
    · split at hnew
      · cases hnew
      · cases hnew
        rw [makeBuffers_next]
        exact Nat.le_add_right _ _

theorem makePools_tidy {pick : Int → Nat → Option Nat} {m : List ((_ : Int) × UInt64)}
    {pools pools' : PoolMap} {sizes sizes' : List Int} {h h' : Heap}
    (ht : ∀ size pool, pools.lookup size = some pool → pool.Tidy h.next)
    (hok : makePools pick m pools sizes h = .ok (pools', sizes', h')) :
    ∀ size pool, pools'.lookup size = some pool → pool.Tidy h'.next := by
  induction m generalizing pools sizes h with
  | nil =>
    cases hok
    exact ht
  | cons entry rest ih =>
    obtain ⟨size, capacity⟩ := entry
    unfold makePools at hok
    split at hok
    · cases hok
    next pool heap hnew =>
      obtain ⟨hpool, hle⟩ := newRingBufferPool_tidy hnew
      refine ih (fun k q hq => ?_) hok
      by_cases hk : k = size
      · subst hk
        rw [AList.lookup_insert] at hq
        cases hq
        exact hpool
      · rw [AList.lookup_insert_ne hk] at hq
        exact (ht k q hq).of_view rfl hle fun b hb => Or.inl hb

/-- A map is valid when its lookups are: the order of its entries does not matter. -/
theorem validMap_iff {m : SizeCapacityMap} :
    ValidMap m ↔ ∀ size capacity, m.lookup size = some capacity →
      0 < size ∧ capacity.toNat.isPowerOfTwo := by
  constructor
  · intro h size capacity hlookup
    exact h ⟨size, capacity⟩ (AList.mem_lookup_iff.mp hlookup)
  · rintro h ⟨size, capacity⟩ he
    exact h size capacity (AList.mem_lookup_iff.mpr he)

theorem validMap_of_ok {m : SizeCapacityMap} {pick : Int → Nat → Option Nat} {h : Heap}
    {r : MultiSizeRingPool × Heap} (hr : newMultiSizeRingPool m pick h = .ok r) : ValidMap m := by
  by_contra hnot
  obtain ⟨e, he⟩ := newMultiSizeRingPool_of_not_valid hnot pick h
  rw [hr] at he
  cases he

theorem ValidMap.pos {m : SizeCapacityMap} (h : ValidMap m) {size : Int} (hsize : size ∈ m) :
    0 < size := by
  obtain ⟨capacity, hlookup⟩ := Option.isSome_iff_exists.mp (AList.lookup_isSome.mpr hsize)
  exact (validMap_iff.mp h size capacity hlookup).1

theorem newMultiSizeRingPool_sound {m : SizeCapacityMap} {pick : Int → Nat → Option Nat}
    {h h' : Heap} {mp : MultiSizeRingPool}
    (hnew : newMultiSizeRingPool m pick h = .ok (mp, h')) : PoolRun.Sound m ⟨mp, h'⟩ := by
  refine ⟨?_, ?_⟩
  · obtain ⟨mp', h'', hok, hconf⟩ := newMultiSizeRingPool_of_valid (validMap_of_ok hnew) pick h
    cases hnew.symm.trans hok
    exact hconf
  · unfold newMultiSizeRingPool at hnew
    split at hnew
    · cases hnew
    next pools sizes heap hok =>
      cases hnew
      exact makePools_tidy (fun size pool hpool => by simp at hpool) hok

/--
**`NewMultiSizeRingPool` accepts exactly the maps with positive sizes and capacities that are powers
of two. In every state of the pool, `Alloc(n)` returns a buffer of length `n` with the capacity of
its size class, and from then on `Free` of the buffer brings it back to where it came from.**
-/
theorem size_classes (m : SizeCapacityMap) (pick : Int → Nat → Option Nat) (h : Heap) :
    ((∃ r, newMultiSizeRingPool m pick h = .ok r) ↔
      ∀ size capacity, m.lookup size = some capacity →
        0 < size ∧ capacity.toNat.isPowerOfTwo) ∧
    ∀ mp h', newMultiSizeRingPool m pick h = .ok (mp, h') →
      ∀ before s, run PoolRun.step ⟨mp, h'⟩ before = some s → ∀ n : Int, 0 ≤ n →
        ((s.pool.alloc s.heap n).1.len : Int) = n ∧
        SizeClass m n (s.pool.alloc s.heap n).1.cap ∧
        ∃ o, Takes s.pool s.heap n o (s.pool.alloc s.heap n).1 (s.pool.alloc s.heap n).2.1.view ∧
          ∀ after s', run PoolRun.step
              ⟨(s.pool.alloc s.heap n).2.1, (s.pool.alloc s.heap n).2.2⟩ after = some s' →
            (s'.pool.free s'.heap (s.pool.alloc s.heap n).1).1.view =
              giveBack o (s.pool.alloc s.heap n).1 s'.pool.view := by
  refine ⟨?_, fun mp h' hnew before s hbefore n hn => ?_⟩
  · rw [← validMap_iff]
    constructor
    · rintro ⟨r, hr⟩
      exact validMap_of_ok hr
    · intro hvalid
      obtain ⟨mp, h', hok, -⟩ := newMultiSizeRingPool_of_valid hvalid pick h
      exact ⟨(mp, h'), hok⟩
  · obtain ⟨hs, -⟩ := PoolRun.sound_run (newMultiSizeRingPool_sound hnew) hbefore
    obtain ⟨hclass, o, htakes, hbelongs⟩ :=
      MultiSizeRingPool.alloc_takes hs.configured (fun _ => (validMap_of_ok hnew).pos) hs.tidy hn
    refine ⟨?_, hclass, o, htakes, fun after s' hafter => ?_⟩
    · rw [MultiSizeRingPool.alloc_len]
      exact Int.toNat_of_nonneg hn
    · obtain ⟨-, hring⟩ := PoolRun.sound_run (PoolRun.sound_alloc hs n) hafter
      exact (hbelongs.congr hring).free s'.heap

/-- Classes of 8, 2 and 4 bytes, with one buffer each. -/
def threeClasses : SizeCapacityMap :=
  ((AList.singleton (4 : Int) (1 : UInt64)).insert 2 1).insert 8 1

/-- Requests of 1, 3 and 5 bytes are in one class each, and one of 9 bytes is in none. -/
theorem size_classes_three :
    ∃ mp h', newMultiSizeRingPool threeClasses (fun _ _ => none) ⟨0, fun _ => []⟩ =
        .ok (mp, h') ∧
      [1, 3, 5, 9].map (fun n => (mp.alloc h' n).1.cap) = [2, 4, 8, 9] ∧
      ∀ n ∈ [1, 3, 5, 9], SizeClass threeClasses n (mp.alloc h' n).1.cap := by
  have hnew : newMultiSizeRingPool threeClasses (fun _ _ => none) ⟨0, fun _ => []⟩ =
    .ok (_, _) := rfl
  refine ⟨_, _, hnew, by decide +kernel, fun n hn => ?_⟩
  have hpos : 0 ≤ n := (show ∀ n ∈ [1, 3, 5, 9], (0 : Int) ≤ n by decide) n hn
  exact ((size_classes _ _ _).2 _ _ hnew [] _ rfl n hpos).2.1

end FabricaNet.Ringpool
