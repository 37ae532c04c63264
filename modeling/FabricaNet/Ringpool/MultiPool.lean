import Mathlib.Data.List.Sort
import Mathlib.Order.Bounds.Defs
import FabricaNet.Ringpool.Pool

/-!
# Pools of several buffer sizes

`internal/ringpool/multipool.go`. `Alloc` takes the pool of the smallest size that is large
enough; `Free` finds the pool by the capacity of the buffer.

A map is iterated in some order, and the model takes that order with the map: a statement about
every map is a statement about every order.
-/

namespace FabricaNet.Ringpool

open Go

/-! ## What `Alloc` and `Free` leave alone -/

namespace RingBufferPool

theorem getFallback_toRing (p : RingBufferPool) (h : Heap) :
    (p.getFallback h).2.1.toRing = p.toRing := by
  rcases p.getFallback_cases h with ⟨i, buf, pool, -, -, heq⟩ | ⟨pool, -, heq⟩ <;> rw [heq]

theorem allocLoop_toRing (size : Nat) (p : RingBufferPool) (h : Heap) :
    (allocLoop size p h).2.1.toRing = p.toRing := by
  rcases allocLoop_cases size p h with ⟨j, -, -, -, heq⟩ | ⟨-, heq⟩
  · rw [heq]; rfl
  · rw [heq]; exact getFallback_toRing _ h

theorem alloc_toRing (p : RingBufferPool) (h : Heap) (size : Int) :
    (p.alloc h size).2.1.toRing = p.toRing := by
  unfold alloc
  simp only
  split
  · rfl
  · split
    · rfl
    · exact allocLoop_toRing ..

theorem free_toRing (p : RingBufferPool) (h : Heap) (buf : Slice) :
    (p.free h buf).1.toRing = p.toRing := by
  unfold free
  simp only
  split
  · unfold releaseSlot
    split <;> rfl
  · split <;> rfl

theorem allocLoop_len (size : Nat) (p : RingBufferPool) (h : Heap) :
    (allocLoop size p h).1.len = size := by
  rcases allocLoop_cases size p h with ⟨j, -, -, -, heq⟩ | ⟨-, heq⟩ <;> rw [heq] <;> rfl

/-- `Alloc` returns a slice of the length it was asked for. -/
theorem alloc_len (p : RingBufferPool) (h : Heap) (size : Int) :
    (p.alloc h size).1.len = size.toNat := by
  unfold alloc
  simp only
  split
  · next hle => exact (Int.toNat_of_nonpos hle).symm
  · split
    · rfl
    · exact allocLoop_len ..

end RingBufferPool

/-! ## The pool of pools -/

/-- The type of `pools`. -/
abbrev PoolMap := AList fun _ : Int => RingBufferPool

/-- `MultiSizeRingPool`. -/
structure MultiSizeRingPool where
  pools : PoolMap
  /-- sorted sizes for lookup -/
  sizes : List Int
  sizes_sorted : sizes.Pairwise (· ≤ ·)
  mem_sizes : ∀ size, size ∈ sizes ↔ size ∈ pools
  bufferSize_eq : ∀ size pool, pools.lookup size = some pool → (pool.bufferSize : Int) = size

/-- The loop of `NewMultiSizeRingPool`. -/
def makePools (pick : Int → Nat → Option Nat) :
    List ((_ : Int) × UInt64) → PoolMap → List Int → Heap → Except Err (PoolMap × List Int × Heap)
  | [], pools, sizes, h => .ok (pools, sizes, h)
  | ⟨size, capacity⟩ :: rest, pools, sizes, h =>
    match newRingBufferPool size capacity (pick size) h with
    | .error e => .error e
    | .ok (pool, h') => makePools pick rest (pools.insert size pool) (sizes ++ [size]) h'

theorem newRingBufferPool_bufferSize {size : Int} {capacity : UInt64} {pick : Nat → Option Nat}
    {h h' : Heap} {pool : RingBufferPool}
    (hnew : newRingBufferPool size capacity pick h = .ok (pool, h')) :
    (pool.bufferSize : Int) = size := by
  unfold newRingBufferPool at hnew
  split at hnew
  · cases hnew
  · next hsize =>
    split at hnew
    · cases hnew
    · cases hnew
      exact Int.toNat_of_nonneg (by omega)

/-- The sizes are those of the pools, and each pool is stored under its size. -/
def SizesMatch (pools : PoolMap) (sizes : List Int) : Prop :=
  (∀ size, size ∈ sizes ↔ size ∈ pools) ∧
    ∀ size pool, pools.lookup size = some pool → (pool.bufferSize : Int) = size

theorem sizesMatch_insert {pools : PoolMap} {sizes : List Int} {size : Int} {pool : RingBufferPool}
    (h : SizesMatch pools sizes) (hpool : (pool.bufferSize : Int) = size) :
    SizesMatch (pools.insert size pool) (sizes ++ [size]) := by
  refine ⟨fun n => ?_, fun n p hn => ?_⟩
  · rw [List.mem_append, List.mem_singleton, AList.mem_insert, h.1 n, or_comm]
  · by_cases hne : n = size
    · subst hne
      rw [AList.lookup_insert, Option.some.injEq] at hn
      rwa [← hn]
    · rw [AList.lookup_insert_ne hne] at hn
      exact h.2 n p hn

theorem makePools_sizesMatch {pick : Int → Nat → Option Nat} {m : List ((_ : Int) × UInt64)}
    {pools pools' : PoolMap} {sizes sizes' : List Int} {h h' : Heap}
    (hm : SizesMatch pools sizes)
    (hok : makePools pick m pools sizes h = .ok (pools', sizes', h')) :
    SizesMatch pools' sizes' := by
  induction m generalizing pools sizes h with
  | nil => cases hok; exact hm
  | cons entry rest ih =>
    obtain ⟨size, capacity⟩ := entry
    unfold makePools at hok
    split at hok
    · cases hok
    · next hnew => exact ih (sizesMatch_insert hm (newRingBufferPool_bufferSize hnew)) hok

/-- `NewMultiSizeRingPool`. -/
def newMultiSizeRingPool (sizeCapacityMap : AList fun _ : Int => UInt64)
    (pick : Int → Nat → Option Nat) (h : Heap) : Except Err (MultiSizeRingPool × Heap) :=
  match hok : makePools pick sizeCapacityMap.entries ∅ [] h with
  | .error e => .error e
  | .ok (pools, sizes, h') =>
    have hmatch : SizesMatch pools sizes :=
      makePools_sizesMatch ⟨fun size => by simp, fun size pool hn => by simp at hn⟩ hok
    .ok ({
      pools := pools
      sizes := sizes.insertionSort (· ≤ ·)
      sizes_sorted := List.pairwise_insertionSort _ _
      mem_sizes := fun size => by rw [List.mem_insertionSort]; exact hmatch.1 size
      bufferSize_eq := hmatch.2 }, h')

namespace MultiSizeRingPool

/-- The pools with one of them replaced by a later state of it. -/
def setPool (mp : MultiSizeRingPool) {size : Int} {pool : RingBufferPool}
    (hpool : mp.pools.lookup size = some pool) (pool' : RingBufferPool)
    (hring : pool'.toRing = pool.toRing) : MultiSizeRingPool :=
  { mp with
    pools := mp.pools.insert size pool'
    mem_sizes := fun n => by
      rw [AList.mem_insert, mp.mem_sizes]
      refine ⟨Or.inr, fun hn => hn.elim (fun he => ?_) id⟩
      rw [he]
      exact AList.lookup_isSome.mp (by rw [hpool]; rfl)
    bufferSize_eq := fun n p hn => by
      by_cases hne : n = size
      · subst hne
        rw [AList.lookup_insert, Option.some.injEq] at hn
        rw [← hn, hring]
        exact mp.bufferSize_eq n pool hpool
      · rw [AList.lookup_insert_ne hne] at hn
        exact mp.bufferSize_eq n p hn }

/-- The loop of `Alloc` over the sizes. -/
def allocFrom (mp : MultiSizeRingPool) (h : Heap) (size : Int) :
    List Int → Slice × MultiSizeRingPool × Heap
  | [] =>
    let (buf, h') := h.make size.toNat
    (buf, mp, h')
  | poolSize :: rest =>
    if poolSize ≥ size then
      match hpool : mp.pools.lookup poolSize with
      | some pool =>
        ((pool.alloc h size).1,
          mp.setPool hpool (pool.alloc h size).2.1 (pool.alloc_toRing h size),
          (pool.alloc h size).2.2)
      | none => allocFrom mp h size rest
    else allocFrom mp h size rest

/-- `Alloc`. -/
def alloc (mp : MultiSizeRingPool) (h : Heap) (size : Int) : Slice × MultiSizeRingPool × Heap :=
  mp.allocFrom h size mp.sizes

/-- `Free`. -/
def free (mp : MultiSizeRingPool) (h : Heap) (buf : Slice) : MultiSizeRingPool × Heap :=
  match hpool : mp.pools.lookup (buf.cap : Int) with
  | some pool =>
    (mp.setPool hpool (pool.free h buf).1 (pool.free_toRing h buf), (pool.free h buf).2)
  | none => (mp, h)

/-- The first of the sorted sizes that is large enough is the least one. -/
theorem allocFrom_least (mp : MultiSizeRingPool) (h : Heap) (n : Int) {sizes : List Int}
    (hsorted : sizes.Pairwise (· ≤ ·))
    (hmem : ∀ size ∈ sizes, size ∈ mp.pools) :
    (∃ size pool, ∃ hpool : mp.pools.lookup size = some pool,
      (size ∈ sizes ∧ n ≤ size ∧ ∀ k ∈ sizes, n ≤ k → size ≤ k) ∧
      mp.allocFrom h n sizes = ((pool.alloc h n).1,
        mp.setPool hpool (pool.alloc h n).2.1 (pool.alloc_toRing h n), (pool.alloc h n).2.2)) ∨
    ((∀ k ∈ sizes, k < n) ∧
      mp.allocFrom h n sizes = ((h.make n.toNat).1, mp, (h.make n.toNat).2)) := by
  induction sizes with
  | nil => exact Or.inr ⟨by simp, rfl⟩
  | cons size rest ih =>
    obtain ⟨hhead, htail⟩ := List.pairwise_cons.mp hsorted
    unfold allocFrom
    split
    next hle =>
      split
      next pool hpool =>
        refine Or.inl ⟨size, pool, hpool, ⟨List.mem_cons_self, hle, fun k hk _ => ?_⟩, rfl⟩
        rcases List.mem_cons.mp hk with rfl | hk
        · exact Int.le_refl _
        · exact hhead k hk
      next hnone =>
        exact absurd (hmem size List.mem_cons_self) (AList.lookup_eq_none.mp hnone)
    next hlt =>
      rcases ih htail fun k hk => hmem k (List.mem_cons_of_mem size hk) with
        ⟨k, pool, hpool, ⟨hk, hnk, hleast⟩, heq⟩ | ⟨hall, heq⟩
      · refine Or.inl ⟨k, pool, hpool, ⟨List.mem_cons_of_mem size hk, hnk, ?_⟩, heq⟩
        intro j hj hnj
        rcases List.mem_cons.mp hj with rfl | hj
        · exact absurd hnj hlt
        · exact hleast j hj hnj
      · refine Or.inr ⟨fun k hk => ?_, heq⟩
        rcases List.mem_cons.mp hk with rfl | hk
        · exact Int.not_le.mp hlt
        · exact hall k hk

/-- **`Alloc` asks the pool of the least size that is large enough, or else the heap.** -/
theorem alloc_least (mp : MultiSizeRingPool) (h : Heap) (n : Int) :
    (∃ size pool, ∃ hpool : mp.pools.lookup size = some pool,
      IsLeast { k | k ∈ mp.pools ∧ n ≤ k } size ∧
      mp.alloc h n = ((pool.alloc h n).1,
        mp.setPool hpool (pool.alloc h n).2.1 (pool.alloc_toRing h n), (pool.alloc h n).2.2)) ∨
    ((∀ k ∈ mp.pools, k < n) ∧
      mp.alloc h n = ((h.make n.toNat).1, mp, (h.make n.toNat).2)) := by
  rcases mp.allocFrom_least h n mp.sizes_sorted fun size => (mp.mem_sizes size).mp with
    ⟨size, pool, hpool, ⟨hmem, hle, hleast⟩, heq⟩ | ⟨hall, heq⟩
  · refine Or.inl ⟨size, pool, hpool, ⟨⟨(mp.mem_sizes size).mp hmem, hle⟩, ?_⟩, heq⟩
    rintro k ⟨hk, hnk⟩
    exact hleast k ((mp.mem_sizes k).mpr hk) hnk
  · exact Or.inr ⟨fun k hk => hall k ((mp.mem_sizes k).mpr hk), heq⟩

/-- **`Alloc` returns a slice of the length it was asked for, whatever has been allocated.** -/
theorem alloc_len (mp : MultiSizeRingPool) (h : Heap) (size : Int) :
    (mp.alloc h size).1.len = size.toNat := by
  rcases mp.alloc_least h size with ⟨n, pool, hpool, -, heq⟩ | ⟨-, heq⟩
  · rw [heq]
    exact pool.alloc_len h size
  · rw [heq]
    rfl

theorem free_of_lookup {mp : MultiSizeRingPool} {buf : Slice} {pool : RingBufferPool}
    (hpool : mp.pools.lookup (buf.cap : Int) = some pool) (h : Heap) :
    (mp.free h buf).1 = mp.setPool hpool (pool.free h buf).1 (pool.free_toRing h buf) ∧
      (mp.free h buf).2 = (pool.free h buf).2 := by
  unfold free
  split
  next pool' hpool' =>
    cases hpool.symm.trans hpool'
    exact ⟨rfl, rfl⟩
  next hnone =>
    rw [hpool] at hnone
    cases hnone

theorem free_of_no_pool {mp : MultiSizeRingPool} {buf : Slice}
    (hpool : mp.pools.lookup (buf.cap : Int) = none) (h : Heap) : mp.free h buf = (mp, h) := by
  unfold free
  split
  next pool' hpool' =>
    rw [hpool] at hpool'
    cases hpool'
  next => rfl

end MultiSizeRingPool

end FabricaNet.Ringpool
