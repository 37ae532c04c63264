import FabricaNet.Ringpool.MultiPool
import FabricaNet.Ringpool.Ownership

/-!
# What `Alloc` returns is zero

Runs of `Alloc` and `Free` on the pools of several sizes. A caller writes to the whole capacity of
the buffers it holds, and may free buffers that come from elsewhere.

A pool keeps its buffers on shelves: the slots that are available, and the fallback pool. Every
buffer on a shelf is zero over its capacity, because `Free` clears it on the way there, in the two
branches that put one there, and because nobody writes to it any more: what is on a shelf is not
held (`Exclusive`). `Alloc` takes its buffer from a shelf or from the heap.
-/

namespace FabricaNet.Ringpool

open Go Lib

/-- Where a pool keeps a buffer. -/
inductive Shelf where
  | slot (i : Nat)
  | fallback
deriving DecidableEq

/-- The buffers on a shelf, by address. -/
def RingBufferPool.shelf (p : RingBufferPool) : Shelf → Multiset Nat
  | .slot i => p.slotOwn i
  | .fallback => addrs p.fallbackPool.items

/-- Where a buffer can be, with several pools. -/
inductive MultiPlace where
  | held
  /-- a shelf of the pool for this size -/
  | shelf (size : Int) (k : Shelf)
deriving DecidableEq

/-- The buffers at each place, by address. -/
def multiOwn (pools : PoolMap) (held : List Slice) : MultiPlace → Multiset Nat
  | .held => addrs held
  | .shelf size k =>
    match pools.lookup size with
    | some p => p.shelf k
    | none => 0

/-! ## Runs -/

/-- The pools, the heap, and the buffers that callers hold. -/
structure MultiUse where
  pool : MultiSizeRingPool
  heap : Heap
  held : List Slice

inductive MultiOp where
  | alloc (size : Int)
  /-- frees the `i`-th of the held buffers -/
  | free (i : Nat)
  /-- a caller gets a buffer of this length and these contents from elsewhere -/
  | foreign (len : Nat) (bytes : Bytes)
  /-- a caller writes to the capacity of the `i`-th of the held buffers -/
  | write (i off : Nat) (bytes : Bytes)

namespace MultiUse

/-- One operation. Only a held buffer can be freed or written. -/
def step (s : MultiUse) : MultiOp → Option MultiUse
  | .alloc size =>
    let (buf, pool, heap) := s.pool.alloc s.heap size
    some { pool := pool, heap := heap, held := buf :: s.held }
  | .free i =>
    s.held[i]?.map fun buf =>
      let (pool, heap) := s.pool.free s.heap buf
      { pool := pool, heap := heap, held := s.held.eraseIdx i }
  | .foreign len bytes =>
    let (buf, heap) := s.heap.make bytes.length
    if len ≤ bytes.length then
      some { s with heap := heap.write buf bytes, held := { buf with len := len } :: s.held }
    else none
  | .write i off bytes =>
    s.held[i]?.bind fun buf =>
      if off + bytes.length ≤ buf.cap then
        some { s with heap := s.heap.writeAt buf off bytes }
      else none

/-- `Alloc` returns a buffer of the length asked for that is zero over this length. -/
def AllocReturnsZero (_ : MultiUse) (op : MultiOp) (s' : MultiUse) : Prop :=
  ∀ size, op = .alloc size → ∃ buf, s'.held.head? = some buf ∧ buf.len = size.toNat ∧
    s'.heap.read buf = List.replicate size.toNat 0

end MultiUse

/-! ## The shelves of one pool -/

/-- Where the buffer of an `Alloc` comes from: a shelf, or the heap. -/
inductive TakesFrom (p : RingBufferPool) (h : Heap) (size : Nat) :
    Slice × RingBufferPool × Heap → Prop
  | shelf {buf : Slice} {p' : RingBufferPool} (k : Shelf)
      (take : p.shelf k = buf.ptr ::ₘ p'.shelf k)
      (frame : ∀ k', k' ≠ k → p'.shelf k' = p.shelf k') (fits : size ≤ p.bufferSize) :
      TakesFrom p h size (buf, p', h)
  | fresh {buf : Slice} {p' : RingBufferPool} (n : Nat) (ptr : buf.ptr = h.next)
      (frame : ∀ k, p'.shelf k = p.shelf k) (fits : size ≤ n) :
      TakesFrom p h size (buf, p', (h.make n).2)

/-- What becomes of the buffer of a `Free`: it is cleared and put on a shelf, or forgotten. -/
inductive PutsOn (p : RingBufferPool) (h : Heap) (buf : Slice) : RingBufferPool × Heap → Prop
  | shelf {p' : RingBufferPool} (k : Shelf) (put : p'.shelf k = buf.ptr ::ₘ p.shelf k)
      (frame : ∀ k', k' ≠ k → p'.shelf k' = p.shelf k') : PutsOn p h buf (p', h.clear buf)
  | none {p' : RingBufferPool} (frame : ∀ k, p'.shelf k = p.shelf k) : PutsOn p h buf (p', h)

theorem TakesFrom.congr {p q : RingBufferPool} {h : Heap} {size : Nat}
    {r : Slice × RingBufferPool × Heap} (hr : TakesFrom q h size r)
    (hshelf : ∀ k, q.shelf k = p.shelf k) (hsize : q.bufferSize = p.bufferSize) :
    TakesFrom p h size r := by
  cases hr with
  | shelf k take frame fits =>
    refine .shelf k ?_ (fun k' hk' => ?_) (hsize ▸ fits)
    · rw [← hshelf k]; exact take
    · rw [← hshelf k']; exact frame k' hk'
  | fresh n ptr frame fits =>
    refine .fresh n ptr (fun k => ?_) fits
    rw [← hshelf k]
    exact frame k

namespace RingBufferPool

variable {p : RingBufferPool} {h : Heap} {size : Nat}

theorem takesFrom_allocSlot (hfree : p.stateAt p.head = 0) (hsize : size ≤ p.bufferSize) :
    TakesFrom p h size (allocSlot size p h) := by
  refine .shelf (.slot (p.slotOf p.head)) ?_ (fun k' hk' => ?_) hsize
  · show p.slotOwn _ = _ ::ₘ (p.setSlot (p.slotOf p.head) 1).slotOwn _
    rw [slotOwn_of_free hfree, slotOwn_setSlot_self]
    rfl
  · cases k' with
    | fallback => rfl
    | slot i =>
      exact slotOwn_setSlot_ne (p := p) (i := p.slotOf p.head) 1
        fun hi => hk' (congrArg Shelf.slot hi)

theorem takesFrom_allocFallback (hsize : size ≤ p.bufferSize) :
    TakesFrom p h size (allocFallback size p h) := by
  unfold allocFallback
  rcases getFallback_cases { p with fallbackCount := p.fallbackCount + 1 } h with
    ⟨i, buf, pool, hbuf, hitems, hget⟩ | ⟨pool, hitems, hget⟩
  · rw [hget]
    refine .shelf .fallback ?_ (fun k' hk' => ?_) hsize
    · show addrs p.fallbackPool.items = buf.ptr ::ₘ addrs pool.items
      rw [hitems]
      exact addrs_eraseIdx hbuf
    · cases k' with
      | fallback => exact absurd rfl hk'
      | slot i => rfl
  · rw [hget]
    refine .fresh p.bufferSize rfl (fun k => ?_) hsize
    cases k with
    | fallback => exact congrArg addrs hitems
    | slot i => rfl

theorem takesFrom_allocLoop (hsize : size ≤ p.bufferSize) :
    TakesFrom p h size (allocLoop size p h) := by
  fun_induction allocLoop size p h with
  | case1 p hfull => exact takesFrom_allocFallback hsize
  | case2 p hfull hfree => exact takesFrom_allocSlot hfree hsize
  | case3 p hfull hbusy ih =>
    exact (ih hsize).congr (fun k => by cases k <;> rfl) rfl

/-- **`Alloc` takes a buffer from a shelf, or makes one.** -/
theorem takesFrom_alloc (p : RingBufferPool) (h : Heap) (size : Int) :
    TakesFrom p h size.toNat (p.alloc h size) := by
  have hshelf : ∀ k, ({ p with allocCount := p.allocCount + 1 } : RingBufferPool).shelf k =
      p.shelf k := fun k => by cases k <;> rfl
  unfold alloc
  simp only
  split
  · exact .fresh 0 rfl hshelf (by omega)
  · split
    · exact .fresh size.toNat rfl hshelf (Nat.le_refl _)
    · next hle =>
      have hsize : size.toNat ≤ p.bufferSize := by
        rw [gt_iff_lt, Int.not_lt] at hle
        omega
      exact (takesFrom_allocLoop (p := { p with allocCount := p.allocCount + 1 }) hsize).congr
        hshelf rfl

/-- **`Free` puts a buffer that is on no shelf on one, cleared, or leaves the pool alone.** -/
theorem putsOn_free (p : RingBufferPool) (h : Heap) {buf : Slice}
    (hout : ∀ k, buf.ptr ∉ p.shelf k) : PutsOn p h buf (p.free h buf) := by
  unfold free
  simp only
  split
  · next hring =>
    obtain ⟨i, hptr, heq⟩ :=
      releaseSlot_of_ring (p := { p with freeCount := p.freeCount + 1 }) hring
    have hbusy : p.slotStates.get i ≠ 0 := by
      intro hfree
      refine hout (.slot i) ?_
      show buf.ptr ∈ p.slotOwn i
      rw [slotOwn_of_free hfree]
      exact Multiset.mem_singleton.mpr hptr.symm
    refine .shelf (.slot i) ?_ fun k' hk' => ?_
    · show (releaseSlot _ buf).slotOwn i = buf.ptr ::ₘ p.slotOwn i
      rw [heq, slotOwn_setSlot_self, slotOwn_of_busy hbusy]
      exact congrArg (fun a : Nat => ({a} : Multiset Nat)) hptr
    · cases k' with
      | fallback =>
        show addrs (releaseSlot _ buf).fallbackPool.items = _
        rw [heq]
        rfl
      | slot j =>
        show (releaseSlot _ buf).slotOwn j = p.slotOwn j
        rw [heq]
        exact slotOwn_setSlot_ne (p := { p with freeCount := p.freeCount + 1 }) 0
          fun hj => hk' (congrArg Shelf.slot hj)
  · split
    · refine .shelf .fallback rfl fun k' hk' => ?_
      cases k' with
      | fallback => exact absurd rfl hk'
      | slot i => rfl
    · exact .none fun k => by cases k <;> rfl

end RingBufferPool

/-! ## All pools -/

/-- Buffers lie at one place each, and those on the shelves are zero over their capacity. -/
structure Zeroed (pools : PoolMap) (heap : Heap) (held : List Slice) : Prop where
  exclusive : Exclusive (· < heap.next) (multiOwn pools held)
  zero : ∀ size k, ∀ a ∈ multiOwn pools held (.shelf size k),
    heap.mem a = List.replicate size.toNat 0

section

variable {pools pools' : PoolMap} {heap heap' : Heap} {held held' : List Slice}

theorem multiOwn_of_lookup {size : Int} {p : RingBufferPool} (hp : pools.lookup size = some p)
    (k : Shelf) : multiOwn pools held (.shelf size k) = p.shelf k := by
  simp only [multiOwn, hp]

theorem multiOwn_insert_self (size : Int) (p : RingBufferPool) (k : Shelf) :
    multiOwn (pools.insert size p) held (.shelf size k) = p.shelf k :=
  multiOwn_of_lookup (AList.lookup_insert pools) k

theorem multiOwn_insert_ne {size n : Int} (p : RingBufferPool) (hne : n ≠ size) (k : Shelf) :
    multiOwn (pools.insert size p) held (.shelf n k) = multiOwn pools held (.shelf n k) := by
  simp only [multiOwn, AList.lookup_insert_ne hne]

/-- Only the shelf that a step touches has to be looked at. -/
theorem multiOwn_insert_frame {size : Int} {p p' : RingBufferPool} {k : Shelf}
    (hp : pools.lookup size = some p) (hframe : ∀ k', k' ≠ k → p'.shelf k' = p.shelf k')
    {place : MultiPlace} (hheld : place ≠ .held) (hplace : place ≠ .shelf size k) :
    multiOwn (pools.insert size p') held' place = multiOwn pools held place := by
  cases place with
  | held => exact absurd rfl hheld
  | shelf n k' =>
    by_cases hn : n = size
    · subst hn
      rw [multiOwn_insert_self, multiOwn_of_lookup hp]
      exact hframe k' fun hk' => hplace (by rw [hk'])
    · exact multiOwn_insert_ne p' hn k'

theorem multiOwn_insert_same {size : Int} {p p' : RingBufferPool}
    (hp : pools.lookup size = some p) (hframe : ∀ k, p'.shelf k = p.shelf k) {place : MultiPlace}
    (hheld : place ≠ .held) :
    multiOwn (pools.insert size p') held' place = multiOwn pools held place := by
  cases place with
  | held => exact absurd rfl hheld
  | shelf n k' =>
    by_cases hn : n = size
    · subst hn
      rw [multiOwn_insert_self, multiOwn_of_lookup hp]
      exact hframe k'
    · exact multiOwn_insert_ne p' hn k'

/-- A transfer that brings no bytes but zeros to a shelf. -/
theorem Zeroed.transfer (h : Zeroed pools heap held) (hnext : heap.next ≤ heap'.next)
    (ht : Transfer (· < heap.next) (· < heap'.next) (multiOwn pools held)
      (multiOwn pools' held'))
    (hmem : ∀ size k, ∀ a ∈ multiOwn pools' held' (.shelf size k),
      heap'.mem a = List.replicate size.toNat 0 ∨
        a ∈ multiOwn pools held (.shelf size k) ∧ heap'.mem a = heap.mem a) :
    Zeroed pools' heap' held' := by
  refine ⟨h.exclusive.transfer (fun a ha => Nat.lt_of_lt_of_le ha hnext) ht, fun size k a ha => ?_⟩
  rcases hmem size k a ha with hzero | ⟨hold, hsame⟩
  · exact hzero
  · rw [hsame]
    exact h.zero size k a hold

/-- What is on a shelf is not held. -/
theorem Zeroed.ne_of_held (h : Zeroed pools heap held) {buf : Slice} (hbuf : buf ∈ held)
    {size : Int} {k : Shelf} {a : Nat} (ha : a ∈ multiOwn pools held (.shelf size k)) :
    a ≠ buf.ptr := by
  rintro rfl
  exact nomatch h.exclusive.unique ha (show _ ∈ multiOwn pools held .held from mem_addrs hbuf)

/-- A new block of memory is handed to a caller. -/
theorem Zeroed.fresh (h : Zeroed pools heap held) {buf : Slice} (hptr : buf.ptr = heap.next)
    (hnext : heap'.next = heap.next + 1) (hmem : ∀ a < heap.next, heap'.mem a = heap.mem a)
    (hframe : ∀ place, place ≠ .held →
      multiOwn pools' (buf :: held) place = multiOwn pools held place) :
    Zeroed pools' heap' (buf :: held) := by
  refine h.transfer (by omega) (.acquire .held heap.next (Nat.lt_irrefl _) ?_ ?_ hframe) ?_
  · show heap.next < heap'.next
    omega
  · show addrs (buf :: held) = _
    rw [addrs_cons, hptr]
    rfl
  · intro size k a ha
    rw [hframe (.shelf size k) nofun] at ha
    exact Or.inr ⟨ha, hmem a (h.exclusive.live_of_mem ha)⟩

/-- `Alloc` of one pool. -/
theorem Zeroed.alloc (h : Zeroed pools heap held) {size : Nat} {n : Int} {p : RingBufferPool}
    (hp : pools.lookup n = some p) (hn : (p.bufferSize : Int) = n)
    {r : Slice × RingBufferPool × Heap} (hr : TakesFrom p heap size r) :
    Zeroed (pools.insert n r.2.1) r.2.2 (r.1 :: held) ∧
      (r.2.2.mem r.1.ptr).take size = List.replicate size 0 := by
  cases hr with
  | @shelf buf p' k take frame fits =>
    have hown : multiOwn pools held (.shelf n k) = buf.ptr ::ₘ p'.shelf k := by
      rw [multiOwn_of_lookup hp, take]
    have hzero : heap.mem buf.ptr = List.replicate n.toNat 0 :=
      h.zero n k buf.ptr (hown ▸ Multiset.mem_cons_self _ _)
    have hframe : ∀ place, place ≠ .shelf n k → place ≠ .held →
        multiOwn (pools.insert n p') (buf :: held) place = multiOwn pools held place :=
      fun place hplace hheld => multiOwn_insert_frame hp frame hheld hplace
    constructor
    · refine h.transfer (Nat.le_refl _) (.move (.shelf n k) .held buf.ptr nofun ?_ rfl hframe) ?_
      · rw [hown, multiOwn_insert_self]
      · intro m k' a ha
        refine Or.inr ⟨?_, rfl⟩
        by_cases hplace : MultiPlace.shelf m k' = .shelf n k
        · cases hplace
          rw [multiOwn_insert_self] at ha
          rw [hown]
          exact Multiset.mem_cons_of_mem ha
        · rwa [hframe _ hplace nofun] at ha
    · show (heap.mem buf.ptr).take size = _
      rw [hzero, List.take_replicate, Nat.min_eq_left (by omega)]
  | @fresh buf p' m ptr frame fits =>
    constructor
    · exact h.fresh ptr rfl (fun a ha => Function.update_of_ne (Nat.ne_of_lt ha) ..)
        fun place hheld => multiOwn_insert_same hp frame hheld
    · show ((heap.make m).2.mem buf.ptr).take size = _
      have hmem : (heap.make m).2.mem buf.ptr = List.replicate m 0 := by
        rw [ptr]
        exact Function.update_self ..
      rw [hmem, List.take_replicate, Nat.min_eq_left fits]

/-- `Free` of one pool. -/
theorem Zeroed.free (h : Zeroed pools heap held) {i : Nat} {buf : Slice}
    (hbuf : held[i]? = some buf) {p : RingBufferPool}
    (hp : pools.lookup (buf.cap : Int) = some p) {r : RingBufferPool × Heap}
    (hr : PutsOn p heap buf r) :
    Zeroed (pools.insert (buf.cap : Int) r.1) r.2 (held.eraseIdx i) := by
  have htake : multiOwn pools held .held = buf.ptr ::ₘ addrs (held.eraseIdx i) :=
    addrs_eraseIdx hbuf
  cases hr with
  | @shelf p' k put frame =>
    have hframe : ∀ place, place ≠ .held → place ≠ .shelf buf.cap k →
        multiOwn (pools.insert (buf.cap : Int) p') (held.eraseIdx i) place =
          multiOwn pools held place :=
      fun place hheld hplace => multiOwn_insert_frame hp frame hheld hplace
    refine h.transfer (Nat.le_refl _) (.move .held (.shelf buf.cap k) buf.ptr nofun htake ?_
      hframe) ?_
    · rw [multiOwn_insert_self, multiOwn_of_lookup hp, put]
    · intro m k' a ha
      by_cases hcleared : a = buf.ptr
      · -- the buffer that has just been cleared is on the shelf it was put on
        left
        subst hcleared
        have hout : buf.ptr ∉ multiOwn pools held (.shelf m k') := fun hold =>
          h.ne_of_held (List.mem_of_getElem? hbuf) hold rfl
        by_cases hplace : MultiPlace.shelf m k' = .shelf buf.cap k
        · cases hplace
          exact Function.update_self ..
        · rw [hframe (.shelf m k') nofun hplace] at ha
          exact absurd ha hout
      · right
        refine ⟨?_, Function.update_of_ne hcleared ..⟩
        by_cases hplace : MultiPlace.shelf m k' = .shelf buf.cap k
        · cases hplace
          rw [multiOwn_insert_self, put, Multiset.mem_cons] at ha
          rw [multiOwn_of_lookup hp]
          exact ha.resolve_left hcleared
        · rwa [hframe (.shelf m k') nofun hplace] at ha
  | @none p' frame =>
    have hframe : ∀ place, place ≠ .held →
        multiOwn (pools.insert (buf.cap : Int) p') (held.eraseIdx i) place =
          multiOwn pools held place := fun place hheld => multiOwn_insert_same hp frame hheld
    refine h.transfer (Nat.le_refl _) (.drop .held buf.ptr htake hframe) fun m k a ha => ?_
    rw [hframe (.shelf m k) nofun] at ha
    exact Or.inr ⟨ha, rfl⟩

end

/-! ## A new pool -/

theorem makeBuffers_mem (bufferSize : Nat) (h : Heap) (n a : Nat) :
    (makeBuffers bufferSize h n).2.2.mem a =
      if h.next ≤ a ∧ a < h.next + n then List.replicate bufferSize 0 else h.mem a := by
  induction n with
  | zero =>
    rw [if_neg (by omega)]
    rfl
  | succ n ih =>
    show Function.update (makeBuffers bufferSize h n).2.2.mem
      (makeBuffers bufferSize h n).2.2.next (List.replicate bufferSize 0) a = _
    rw [makeBuffers_next]
    by_cases ha : a = h.next + n
    · subst ha
      rw [Function.update_self, if_pos (by omega)]
    · rw [Function.update_of_ne ha, ih]
      congr 1
      exact propext ⟨fun ⟨h₁, h₂⟩ => ⟨h₁, by omega⟩, fun ⟨h₁, h₂⟩ => ⟨h₁, by omega⟩⟩

/-- The buffers of a new pool are new, zero, and each in its slot. -/
structure FreshShelves (p : RingBufferPool) (h heap : Heap) : Prop where
  next_le : h.next ≤ heap.next
  mem_old : ∀ a < h.next, heap.mem a = h.mem a
  mem_new : ∀ a, h.next ≤ a → a < heap.next → heap.mem a = List.replicate p.bufferSize 0
  mem_shelf : ∀ k, ∀ a ∈ p.shelf k, ∃ i, k = .slot i ∧ a = h.next + i ∧ a < heap.next
  nodup : ∀ k, (p.shelf k).Nodup

theorem newRingBufferPool_freshShelves {bufferSize : Int} {capacity : UInt64}
    {pick : Nat → Option Nat} {h heap : Heap} {pool : RingBufferPool}
    (hnew : newRingBufferPool bufferSize capacity pick h = .ok (pool, heap)) :
    FreshShelves pool h heap := by
  unfold newRingBufferPool at hnew
  split at hnew
  · cases hnew
  · split at hnew
    · cases hnew
    · cases hnew
      refine ⟨?_, fun a ha => ?_, fun a hle hlt => ?_, fun k a ha => ?_, fun k => ?_⟩
      · rw [makeBuffers_next]
        exact Nat.le_add_right _ _
      · rw [makeBuffers_mem, if_neg (by omega)]
      · rw [makeBuffers_next] at hlt
        rw [makeBuffers_mem, if_pos ⟨hle, hlt⟩]
        rfl
      · cases k with
        | fallback => exact absurd ha (Multiset.notMem_zero a)
        | slot i =>
          change a ∈ RingBufferPool.slotOwn _ i at ha
          unfold RingBufferPool.slotOwn at ha
          split at ha
          · next hi =>
            split at ha
            · have haddr : a = h.next + i :=
                (Multiset.mem_singleton.mp ha).trans (buildPool_ptr (i := ⟨i, hi⟩) ..)
              refine ⟨i, rfl, haddr, ?_⟩
              rw [makeBuffers_next, haddr]
              exact Nat.add_lt_add_left hi _
            · exact absurd ha (Multiset.notMem_zero a)
          · exact absurd ha (Multiset.notMem_zero a)
      · cases k with
        | fallback => exact Multiset.nodup_zero
        | slot i =>
          show (RingBufferPool.slotOwn _ i).Nodup
          unfold RingBufferPool.slotOwn
          split
          · split
            · exact Multiset.nodup_singleton _
            · exact Multiset.nodup_zero
          · exact Multiset.nodup_zero

/-- One more pool, built on new memory. -/
theorem Zeroed.insert {pools : PoolMap} {h heap : Heap} (hz : Zeroed pools h []) {size : Int}
    {p : RingBufferPool} (hsize : (p.bufferSize : Int) = size) (hp : FreshShelves p h heap) :
    Zeroed (pools.insert size p) heap [] := by
  have hcases : ∀ {place a}, a ∈ multiOwn (pools.insert size p) [] place →
      (a ∈ multiOwn pools [] place ∧ a < h.next) ∨
        ∃ i, place = .shelf size (.slot i) ∧ a = h.next + i ∧ a < heap.next := by
    intro place a ha
    cases place with
    | held => exact absurd ha (Multiset.notMem_zero a)
    | shelf n k =>
      by_cases hn : n = size
      · subst hn
        rw [multiOwn_insert_self] at ha
        obtain ⟨i, rfl, haddr, hlt⟩ := hp.mem_shelf k a ha
        exact Or.inr ⟨i, rfl, haddr, hlt⟩
      · rw [multiOwn_insert_ne p hn] at ha
        exact Or.inl ⟨ha, hz.exclusive.live_of_mem ha⟩
  refine ⟨⟨fun place => ?_, fun {place place' a} ha ha' => ?_, fun {place a} ha => ?_⟩,
    fun n k a ha => ?_⟩
  · cases place with
    | held => exact Multiset.nodup_zero
    | shelf n k =>
      by_cases hn : n = size
      · subst hn
        rw [multiOwn_insert_self]
        exact hp.nodup k
      · rw [multiOwn_insert_ne p hn]
        exact hz.exclusive.nodup _
  · rcases hcases ha with ⟨hold, hlt⟩ | ⟨i, rfl, haddr, -⟩ <;>
      rcases hcases ha' with ⟨hold', hlt'⟩ | ⟨j, rfl, haddr', -⟩
    · exact hz.exclusive.unique hold hold'
    · omega
    · omega
    · rw [show i = j by omega]
  · rcases hcases ha with ⟨-, hlt⟩ | ⟨i, -, -, hlt⟩
    · exact Nat.lt_of_lt_of_le hlt hp.next_le
    · exact hlt
  · rcases hcases ha with ⟨hold, hlt⟩ | ⟨i, hplace, haddr, hlt⟩
    · rw [hp.mem_old a hlt]
      exact hz.zero n k a hold
    · cases hplace
      rw [hp.mem_new a (by omega) hlt, ← hsize, Int.toNat_natCast]

theorem zeroed_makePools {pick : Int → Nat → Option Nat} {m : List ((_ : Int) × UInt64)}
    {pools pools' : PoolMap} {sizes sizes' : List Int} {h h' : Heap} (hz : Zeroed pools h [])
    (hok : makePools pick m pools sizes h = .ok (pools', sizes', h')) : Zeroed pools' h' [] := by
  induction m generalizing pools sizes h with
  | nil => cases hok; exact hz
  | cons entry rest ih =>
    obtain ⟨size, capacity⟩ := entry
    unfold makePools at hok
    split at hok
    · cases hok
    · next hnew =>
      exact ih (hz.insert (newRingBufferPool_bufferSize hnew)
        (newRingBufferPool_freshShelves hnew)) hok

theorem zeroed_empty (h : Heap) : Zeroed ∅ h [] := by
  have hnone : ∀ {place a}, a ∉ multiOwn ∅ [] place := by
    intro place a ha
    cases place with
    | held => exact Multiset.notMem_zero a ha
    | shelf n k =>
      simp only [multiOwn, AList.lookup_empty] at ha
      exact Multiset.notMem_zero a ha
  refine ⟨⟨fun place => ?_, fun ha => absurd ha hnone, fun ha => absurd ha hnone⟩,
    fun _ _ _ ha => absurd ha hnone⟩
  rw [Multiset.eq_zero_of_forall_notMem fun a => hnone]
  exact Multiset.nodup_zero

theorem zeroed_new {m : AList fun _ : Int => UInt64} {pick : Int → Nat → Option Nat}
    {h heap : Heap} {mp : MultiSizeRingPool}
    (hnew : newMultiSizeRingPool m pick h = .ok (mp, heap)) : Zeroed mp.pools heap [] := by
  unfold newMultiSizeRingPool at hnew
  split at hnew
  · cases hnew
  · next hok =>
    cases hnew
    exact zeroed_makePools (zeroed_empty h) hok

/-! ## Whole runs -/

namespace MultiUse

variable {s s' : MultiUse}

theorem zeroed_alloc (h : Zeroed s.pool.pools s.heap s.held) (size : Int) :
    Zeroed (s.pool.alloc s.heap size).2.1.pools (s.pool.alloc s.heap size).2.2
        ((s.pool.alloc s.heap size).1 :: s.held) ∧
      (s.pool.alloc s.heap size).2.2.read (s.pool.alloc s.heap size).1 =
        List.replicate size.toNat 0 := by
  have hlen := s.pool.alloc_len s.heap size
  unfold Heap.read
  rw [hlen]
  rcases s.pool.alloc_least s.heap size with ⟨n, pool, hpool, -, heq⟩ | ⟨-, heq⟩
  · have hz := h.alloc hpool (s.pool.bufferSize_eq n pool hpool) (pool.takesFrom_alloc s.heap size)
    rw [heq]
    exact hz
  · rw [heq]
    refine ⟨h.fresh rfl rfl (fun a ha => Function.update_of_ne (Nat.ne_of_lt ha) ..) ?_, ?_⟩
    · rintro (_ | ⟨n, k⟩) hheld
      · exact absurd rfl hheld
      · rfl
    · show (Function.update s.heap.mem s.heap.next _ s.heap.next).take _ = _
      rw [Function.update_self, List.take_replicate, Nat.min_self]

theorem zeroed_free (h : Zeroed s.pool.pools s.heap s.held) {i : Nat} {buf : Slice}
    (hbuf : s.held[i]? = some buf) :
    Zeroed (s.pool.free s.heap buf).1.pools (s.pool.free s.heap buf).2 (s.held.eraseIdx i) := by
  unfold MultiSizeRingPool.free
  split
  · next pool hpool =>
    refine h.free hbuf hpool (pool.putsOn_free s.heap fun k hk => ?_)
    rw [← multiOwn_of_lookup hpool] at hk
    exact h.ne_of_held (List.mem_of_getElem? hbuf) hk rfl
  · -- no pool has this size: the buffer is forgotten
    refine h.transfer (Nat.le_refl _) (.drop .held buf.ptr (addrs_eraseIdx hbuf) ?_)
      fun m k a ha => Or.inr ⟨ha, rfl⟩
    rintro (_ | ⟨n, k⟩) hheld
    · exact absurd rfl hheld
    · rfl

theorem zeroed_foreign (h : Zeroed s.pool.pools s.heap s.held) (len : Nat) (bytes : Bytes) :
    Zeroed s.pool.pools ((s.heap.make bytes.length).2.write (s.heap.make bytes.length).1 bytes)
      ({ (s.heap.make bytes.length).1 with len := len } :: s.held) := by
  refine h.fresh rfl rfl (fun a ha => ?_) ?_
  · show Function.update (Function.update s.heap.mem s.heap.next _) s.heap.next _ a = _
    rw [Function.update_of_ne (Nat.ne_of_lt ha), Function.update_of_ne (Nat.ne_of_lt ha)]
  · rintro (_ | ⟨n, k⟩) hheld
    · exact absurd rfl hheld
    · rfl

theorem zeroed_write (h : Zeroed s.pool.pools s.heap s.held) {buf : Slice} (hbuf : buf ∈ s.held)
    (off : Nat) (bytes : Bytes) :
    Zeroed s.pool.pools (s.heap.writeAt buf off bytes) s.held := by
  refine h.transfer (Nat.le_refl _) (.stay fun _ => rfl) fun m k a ha => Or.inr ⟨ha, ?_⟩
  exact Function.update_of_ne (h.ne_of_held hbuf ha) ..

/-- **Every operation keeps the shelves zero, and `Alloc` returns zeros.** -/
theorem zeroed_step {op : MultiOp} (h : Zeroed s.pool.pools s.heap s.held)
    (hstep : s.step op = some s') :
    AllocReturnsZero s op s' ∧ Zeroed s'.pool.pools s'.heap s'.held := by
  cases op with
  | alloc size =>
    cases hstep
    obtain ⟨hz, hzero⟩ := zeroed_alloc h size
    refine ⟨fun size' hop => ?_, hz⟩
    cases hop
    exact ⟨_, rfl, s.pool.alloc_len s.heap size, hzero⟩
  | free i =>
    obtain ⟨buf, hbuf, rfl⟩ := Option.map_eq_some_iff.mp hstep
    exact ⟨nofun, zeroed_free h hbuf⟩
  | foreign len bytes =>
    obtain ⟨-, ⟨⟩⟩ := Option.ite_none_right_eq_some.mp hstep
    exact ⟨nofun, zeroed_foreign h len bytes⟩
  | write i off bytes =>
    obtain ⟨buf, hbuf, hwrite⟩ := Option.bind_eq_some_iff.mp hstep
    obtain ⟨-, ⟨⟩⟩ := Option.ite_none_right_eq_some.mp hwrite
    exact ⟨nofun, zeroed_write h (List.mem_of_getElem? hbuf) off bytes⟩

/--
**No data leaks from one user of a buffer to the next: in every run, with writes to the whole
capacity of what is held and with buffers from elsewhere freed to the pools, every buffer that
`Alloc` returns is zero over its whole length.**
-/
theorem alloc_returns_zero {m : AList fun _ : Int => UInt64} {pick : Int → Nat → Option Nat}
    {h heap : Heap} {mp : MultiSizeRingPool}
    (hnew : newMultiSizeRingPool m pick h = .ok (mp, heap)) (ops : List MultiOp) :
    EachStep step AllocReturnsZero ⟨mp, heap, []⟩ ops :=
  eachStep_of_inv (I := fun s => Zeroed s.pool.pools s.heap s.held)
    (fun _ _ _ hz hstep => zeroed_step hz hstep) (zeroed_new hnew)

/--
One class of one buffer of 2 bytes. The buffer is written and freed, a buffer from elsewhere is
freed to the fallback pool, and both are allocated again.
-/
theorem alloc_returns_zero_recycled :
    ∃ mp heap, newMultiSizeRingPool (AList.singleton (2 : Int) (1 : UInt64))
        (fun _ _ => some 0) ⟨0, fun _ => []⟩ = .ok (mp, heap) ∧
      EachStep step AllocReturnsZero ⟨mp, heap, []⟩ [.alloc 1, .write 0 0 [7, 7], .free 0,
        .foreign 1 [9, 9], .free 0, .alloc 2, .alloc 2] := by
  have hnew : newMultiSizeRingPool (AList.singleton (2 : Int) (1 : UInt64))
    (fun _ _ => some 0) ⟨0, fun _ => []⟩ = .ok (_, _) := rfl
  exact ⟨_, _, hnew, alloc_returns_zero hnew _⟩

end MultiUse

end FabricaNet.Ringpool
